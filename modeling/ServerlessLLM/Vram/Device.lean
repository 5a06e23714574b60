import Mathlib.Algebra.Order.Ring.Rat
import Mathlib.Data.List.Sort
import ServerlessLLM.Library.Tiling

/-!
# What the VRAM manager takes from outside, and the GPU memory

`Platform` gathers what `vram_manager.h` calls and does not define: `std::sort` (which does not say how it orders equal
keys), the rounding of `double`, `boost::maximum_weighted_matching` and the outcome of every CUDA call. A model of a run is a
function of a platform, so a statement about every platform covers every order of ties, every matching and every pattern of
failing copies.

`cuda_safe_move` (`binary_utils.cpp`) is modelled chunk by chunk on the bytes of the device.
-/

namespace ServerlessLLM

open Tiling

/-- How one call of the CUDA runtime ends. When it fails, its destination holds the bytes `junk`. -/
structure CudaOutcome where
  ok : Bool
  junk : Nat → UInt8

/-- What the code calls and does not define, with what it documents. -/
structure Platform where
  /-- `std::sort` with the comparator `a.key > b.key`. -/
  sortDesc : ∀ {α : Type}, (α → Nat) → List α → List α
  sortDesc_perm : ∀ {α : Type} (key : α → Nat) (l : List α), (sortDesc key l).Perm l
  sortDesc_sorted : ∀ {α : Type} (key : α → Nat) (l : List α), (sortDesc key l).Pairwise fun a b => key b ≤ key a
  /-- The rounding of a real result to a `double`. -/
  roundDouble : ℚ → ℚ
  /-- `boost::maximum_weighted_matching` on a graph of so many vertices with these weighted edges: the mate of a vertex. -/
  maximumWeightedMatching : Nat → List (Nat × Nat × Int) → Nat → Option Nat
  mate_symm : ∀ n es u v, maximumWeightedMatching n es u = some v → maximumWeightedMatching n es v = some u
  mate_edge : ∀ n es u v, maximumWeightedMatching n es u = some v → ∃ w, (u, v, w) ∈ es ∨ (v, u, w) ∈ es
  /-- The outcomes of the device-to-device calls (`cudaMemcpy` and `cudaStreamSynchronize`), in the order they are made. -/
  deviceToDevice : Nat → CudaOutcome
  /-- The outcomes of the host-to-device calls (`cudaSetDevice` and `cudaMemcpy`), in the order they are made. -/
  hostToDevice : Nat → CudaOutcome

def Platform.MovesSucceed (P : Platform) : Prop := ∀ k, (P.deviceToDevice k).ok = true

def Platform.LoadsSucceed (P : Platform) : Prop := ∀ k, (P.hostToDevice k).ok = true

/-- The memory of a GPU, with the numbers of device-to-device and host-to-device calls made so far. -/
structure Device where
  bytes : Nat → UInt8
  moves : Nat
  loads : Nat

/-- `n` bytes from `dst` on take the values of `f`; the rest is as before. -/
def overwrite (m : Nat → UInt8) (f : Nat → UInt8) (dst n : Nat) : Nat → UInt8 :=
  fun i => if dst ≤ i ∧ i < dst + n then f i else m i

theorem overwrite_apply (m f : Nat → UInt8) (dst n i : Nat) :
    overwrite m f dst n i = if dst ≤ i ∧ i < dst + n then f i else m i := rfl

/-- `cudaMemcpy(dst, src, n, cudaMemcpyDeviceToDevice)`: the copy, when the call succeeds and the ranges do not overlap. -/
def cudaMemcpyDeviceToDevice (P : Platform) (d : Device) (dst src n : Nat) : Bool × Device :=
  let o := P.deviceToDevice d.moves
  (o.ok, { d with
    moves := d.moves + 1
    bytes := if o.ok = true ∧ (dst + n ≤ src ∨ src + n ≤ dst) then copy d.bytes dst src n
      else overwrite d.bytes o.junk dst n })

/-- `cudaStreamSynchronize(0)`. -/
def cudaStreamSynchronize (P : Platform) (d : Device) : Bool × Device :=
  ((P.deviceToDevice d.moves).ok, { d with moves := d.moves + 1 })

/-- One chunk of `cuda_safe_move`: copy, then wait for the copy. -/
def copyChunk (P : Platform) (d : Device) (dst src n : Nat) : Bool × Device :=
  let r := cudaMemcpyDeviceToDevice P d dst src n
  if r.1 then cudaStreamSynchronize P r.2 else r

/-- The loop of `cuda_safe_move` for a destination below the source: chunks of at most `src - dst` bytes, from the front.
Every chunk has at least one byte, so `size` rounds of fuel are enough. -/
def moveForward (P : Platform) (dst src size : Nat) : Nat → Nat → Device → Bool × Device
  | 0, _, d => (true, d)
  | fuel + 1, offset, d =>
    if offset < size then
      let chunk := min (size - offset) (src - dst)
      let r := copyChunk P d (dst + offset) (src + offset) chunk
      if r.1 then moveForward P dst src size fuel (offset + chunk) r.2 else r
    else (true, d)

/-- The loop of `cuda_safe_move` for a destination above the source: the same chunks, from the back. -/
def moveBackward (P : Platform) (dst src : Nat) : Nat → Nat → Device → Bool × Device
  | 0, _, d => (true, d)
  | fuel + 1, remaining, d =>
    if 0 < remaining then
      let chunk := min remaining (dst - src)
      let r := copyChunk P d (dst + (remaining - chunk)) (src + (remaining - chunk)) chunk
      if r.1 then moveBackward P dst src fuel (remaining - chunk) r.2 else r
    else (true, d)

/-- `cuda_safe_move`. The null pointer is address 0. -/
def cudaSafeMove (P : Platform) (d : Device) (dest src size : Nat) : Bool × Device :=
  if size = 0 then (true, d)
  else if dest = 0 ∨ src = 0 then (false, d)
  else if dest = src then (true, d)
  else if size ≤ (if src < dest then dest - src else src - dest) then copyChunk P d dest src size
  else if dest < src then moveForward P dest src size size 0 d
  else moveBackward P dest src size size d

/-! ## A move is made of copies -/

/-- A copy that `cuda_safe_move` makes. -/
structure Copy where
  dst : Nat
  src : Nat
  size : Nat

/-- The source and the destination have no byte in common. -/
def Copy.Apart (c : Copy) : Prop := c.dst + c.size ≤ c.src ∨ c.src + c.size ≤ c.dst

/-- Copies one after the other, up to the first that fails. -/
def runCopies (P : Platform) : List Copy → Device → Bool × Device
  | [], d => (true, d)
  | c :: l, d =>
    let r := copyChunk P d c.dst c.src c.size
    if r.1 then runCopies P l r.2 else r

variable {P : Platform} {dst src size : Nat}

theorem runCopies_singleton (d : Device) (c : Copy) : runCopies P [c] d = copyChunk P d c.dst c.src c.size := by
  unfold runCopies
  cases h : (copyChunk P d c.dst c.src c.size).1 with
  | false => exact if_neg (by simp [h])
  | true => exact (if_pos h).trans (Prod.ext h.symm rfl)

theorem moveForward_done {offset : Nat} (h : size ≤ offset) (fuel : Nat) (d : Device) :
    moveForward P dst src size fuel offset d = (true, d) := by
  cases fuel with
  | zero => rfl
  | succ fuel => rw [moveForward, if_neg (Nat.not_lt.2 h)]

theorem moveForward_copies (hlt : dst < src) (size offset n : Nat) (hn : size ≤ offset + n) :
    ∃ copies : List Copy, (∀ c ∈ copies, c.Apart) ∧
      ∀ fuel, n ≤ fuel → ∀ P d, moveForward P dst src size fuel offset d = runCopies P copies d := by
  induction n generalizing offset with
  | zero => exact ⟨[], by simp, fun fuel _ P d => moveForward_done hn fuel d⟩
  | succ n ih =>
    by_cases ho : offset < size
    · obtain ⟨copies, hap, heq⟩ := ih (offset + min (size - offset) (src - dst)) (by omega)
      refine ⟨⟨dst + offset, src + offset, min (size - offset) (src - dst)⟩ :: copies, List.forall_mem_cons.2 ⟨?_, hap⟩, ?_⟩
      · exact .inl (by dsimp only; omega)
      · intro fuel hfuel P d
        obtain ⟨fuel, rfl⟩ := Nat.exists_eq_succ_of_ne_zero (show fuel ≠ 0 by omega)
        simp only [moveForward, if_pos ho, runCopies, heq fuel (by omega)]
    · exact ⟨[], by simp, fun fuel _ P d => moveForward_done (by omega) fuel d⟩

theorem moveBackward_copies (hlt : src < dst) (remaining n : Nat) (hn : remaining ≤ n) :
    ∃ copies : List Copy, (∀ c ∈ copies, c.Apart) ∧
      ∀ fuel, n ≤ fuel → ∀ P d, moveBackward P dst src fuel remaining d = runCopies P copies d := by
  induction n generalizing remaining with
  | zero =>
    obtain rfl := Nat.le_zero.1 hn
    refine ⟨[], by simp, fun fuel _ P d => ?_⟩
    cases fuel <;> rfl
  | succ n ih =>
    by_cases hr : 0 < remaining
    · obtain ⟨copies, hap, heq⟩ := ih (remaining - min remaining (dst - src)) (by omega)
      refine ⟨⟨dst + (remaining - min remaining (dst - src)), src + (remaining - min remaining (dst - src)),
        min remaining (dst - src)⟩ :: copies, List.forall_mem_cons.2 ⟨?_, hap⟩, ?_⟩
      · exact .inr (by dsimp only; omega)
      · intro fuel hfuel P d
        obtain ⟨fuel, rfl⟩ := Nat.exists_eq_succ_of_ne_zero (show fuel ≠ 0 by omega)
        simp only [moveBackward, if_pos hr, runCopies, heq fuel (by omega)]
    · obtain rfl : remaining = 0 := by omega
      exact (ih 0 (Nat.zero_le n)).imp fun copies h => ⟨h.1, fun fuel hf => h.2 fuel (by omega)⟩

theorem cudaSafeMove_copies (dest src size : Nat) : ∃ copies : List Copy, (∀ c ∈ copies, c.Apart) ∧ ∀ P d,
    cudaSafeMove P d dest src size = if size ≠ 0 ∧ (dest = 0 ∨ src = 0) then (false, d) else runCopies P copies d := by
  by_cases h0 : size = 0
  · exact ⟨[], by simp, fun P d => by simp [cudaSafeMove, runCopies, h0]⟩
  by_cases hgap : size ≤ if src < dest then dest - src else src - dest
  · have hap : Copy.Apart ⟨dest, src, size⟩ := by
      rcases Nat.lt_or_ge src dest with hlt | hge
      · rw [if_pos hlt] at hgap
        exact .inr (by dsimp only; omega)
      · rw [if_neg (Nat.not_lt.2 hge)] at hgap
        exact .inl (by dsimp only; omega)
    have hne : dest ≠ src := by
      rintro rfl
      exact h0 (by simpa using hgap)
    exact ⟨[⟨dest, src, size⟩], List.forall_mem_singleton.2 hap, fun P d => by
      simp [cudaSafeMove, runCopies_singleton, h0, hgap, hne]⟩
  rcases Nat.lt_trichotomy dest src with hlt | rfl | hlt
  · obtain ⟨copies, hap, heq⟩ := moveForward_copies hlt size 0 size (by omega)
    exact ⟨copies, hap, fun P d => by simp [cudaSafeMove, h0, hgap, hlt, Nat.ne_of_lt hlt, heq size le_rfl P d]⟩
  · exact ⟨[], by simp, fun P d => by simp [cudaSafeMove, runCopies, h0]⟩
  · obtain ⟨copies, hap, heq⟩ := moveBackward_copies hlt size size le_rfl
    exact ⟨copies, hap, fun P d => by
      simp [cudaSafeMove, h0, hgap, Nat.ne_of_gt hlt, Nat.lt_asymm hlt, heq size le_rfl P d]⟩

theorem copyChunk_succeeds (hP : P.MovesSucceed) (d : Device) (dst src n : Nat) : (copyChunk P d dst src n).1 = true := by
  simp [copyChunk, cudaMemcpyDeviceToDevice, cudaStreamSynchronize, hP _]

theorem cudaSafeMove_succeeds (hP : P.MovesSucceed) (d : Device) (hdst : 0 < dst) (hsrc : 0 < src) (size : Nat) :
    (cudaSafeMove P d dst src size).1 = true := by
  obtain ⟨copies, -, heq⟩ := cudaSafeMove_copies dst src size
  rw [heq, if_neg (by omega)]
  clear heq
  induction copies generalizing d with
  | nil => rfl
  | cons c copies ih =>
    rw [runCopies, if_pos (copyChunk_succeeds hP d c.dst c.src c.size)]
    exact ih _

/-! ## A move is one copy -/

theorem copyChunk_ok {d : Device} {dst n : Nat} (h : (copyChunk P d dst src n).1 = true) (hd : dst + n ≤ src ∨ src + n ≤ dst) :
    (copyChunk P d dst src n).2.bytes = copy d.bytes dst src n ∧ (copyChunk P d dst src n).2.loads = d.loads := by
  unfold copyChunk at h ⊢
  cases hok : (P.deviceToDevice d.moves).ok with
  | false => simp [cudaMemcpyDeviceToDevice, hok] at h
  | true => simp [cudaMemcpyDeviceToDevice, cudaStreamSynchronize, hok, hd]

theorem moveForward_ok {dst size : Nat} (hlt : dst < src) {m : Nat → UInt8} :
    ∀ (fuel offset : Nat) (d : Device), size ≤ offset + fuel → offset ≤ size →
      d.bytes = copy m dst src offset → (moveForward P dst src size fuel offset d).1 = true →
      (moveForward P dst src size fuel offset d).2.bytes = copy m dst src size ∧
        (moveForward P dst src size fuel offset d).2.loads = d.loads := by
  intro fuel
  induction fuel with
  | zero =>
    intro offset d h1 h2 hm _
    obtain rfl : offset = size := by omega
    exact ⟨hm, rfl⟩
  | succ fuel ih =>
    intro offset d h1 h2 hm h
    by_cases ho : offset < size
    · simp only [moveForward, ho, if_true] at h ⊢
      set chunk := min (size - offset) (src - dst) with hc
      have hpos : 0 < chunk := by omega
      cases hr : (copyChunk P d (dst + offset) (src + offset) chunk).1 with
      | false => simp [hr] at h
      | true =>
        obtain ⟨hb, hl⟩ := copyChunk_ok hr (by omega)
        rw [hm, copy_copy _ hlt.le] at hb
        simp only [hr, if_true] at h ⊢
        obtain ⟨h3, h4⟩ := ih _ _ (by omega) (by omega) hb h
        exact ⟨h3, h4.trans hl⟩
    · obtain rfl : offset = size := by omega
      simp only [moveForward, Nat.lt_irrefl, if_false, and_true]
      exact hm

theorem moveBackward_ok (hlt : src < dst) {m : Nat → UInt8} (fuel : Nat) {remaining : Nat} {d : Device}
    (hfuel : remaining ≤ fuel)
    (hr : remaining ≤ size) (hm : d.bytes = copy m (dst + remaining) (src + remaining) (size - remaining))
    (h : (moveBackward P dst src fuel remaining d).1 = true) :
    (moveBackward P dst src fuel remaining d).2.bytes = copy m dst src size ∧
      (moveBackward P dst src fuel remaining d).2.loads = d.loads := by
  induction fuel generalizing remaining d with
  | zero =>
    obtain rfl := Nat.le_zero.1 hfuel
    exact ⟨hm, rfl⟩
  | succ fuel ih =>
    by_cases hpos : 0 < remaining
    · simp only [moveBackward, if_pos hpos] at h ⊢
      obtain ⟨chunk, hchunk⟩ : ∃ chunk, chunk = min remaining (dst - src) := ⟨_, rfl⟩
      obtain ⟨k, rfl⟩ : ∃ k, remaining = k + chunk := ⟨remaining - chunk, by omega⟩
      rw [← hchunk, Nat.add_sub_cancel] at h ⊢
      cases hr : (copyChunk P d (dst + k) (src + k) chunk).1 with
      | false => simp [hr] at h
      | true =>
        obtain ⟨hb, hl⟩ := copyChunk_ok hr (by omega)
        rw [hm, ← Nat.add_assoc, ← Nat.add_assoc, copy_copy_front m (by omega)] at hb
        simp only [hr, if_true] at h ⊢
        have hsz : chunk + (size - (k + chunk)) = size - k := by omega
        obtain ⟨h1, h2⟩ := ih (by omega) (by omega) (hsz ▸ hb) h
        exact ⟨h1, h2.trans hl⟩
    · obtain rfl : remaining = 0 := by omega
      simp only [moveBackward, if_neg hpos]
      exact ⟨hm, trivial⟩

theorem cudaSafeMove_ok {d : Device} (h : (cudaSafeMove P d dst src size).1 = true) :
    (cudaSafeMove P d dst src size).2.bytes = copy d.bytes dst src size ∧
      (cudaSafeMove P d dst src size).2.loads = d.loads := by
  by_cases h0 : size = 0
  · simp [cudaSafeMove, h0, copy_zero]
  by_cases hn : dst = 0 ∨ src = 0
  · simp [cudaSafeMove, h0, hn] at h
  rcases Nat.lt_trichotomy dst src with hlt | rfl | hlt
  · simp only [cudaSafeMove, h0, hn, if_false, Nat.ne_of_lt hlt, if_neg (Nat.lt_asymm hlt), if_pos hlt] at h ⊢
    by_cases hs : size ≤ src - dst
    · simp only [hs, if_true] at h ⊢
      exact copyChunk_ok h (by omega)
    · simp only [hs, if_false] at h ⊢
      exact moveForward_ok hlt size 0 d (by omega) (by omega) (copy_zero _).symm h
  · simp [cudaSafeMove, h0, (not_or.1 hn).1]
  · simp only [cudaSafeMove, h0, hn, if_false, Nat.ne_of_gt hlt, if_pos hlt, if_neg (Nat.lt_asymm hlt)] at h ⊢
    by_cases hs : size ≤ dst - src
    · simp only [hs, if_true] at h ⊢
      exact copyChunk_ok h (by omega)
    · simp only [hs, if_false] at h ⊢
      exact moveBackward_ok hlt size le_rfl le_rfl (by rw [Nat.sub_self, copy_zero]) h

/-- `cuda_safe_move` is `memmove`, made of copies without overlap. Its loops end: with more rounds they do the same. For a null
pointer it returns an error and copies nothing. -/
theorem cudaSafeMove_memmove (dest src size : Nat) : ∃ copies : List Copy, (∀ c ∈ copies, c.Apart) ∧
    ∀ (P : Platform) (d : Device),
    cudaSafeMove P d dest src size = (if size ≠ 0 ∧ (dest = 0 ∨ src = 0) then (false, d) else runCopies P copies d) ∧
    (∀ fuel, size ≤ fuel → (dest < src → moveForward P dest src size fuel 0 d = moveForward P dest src size size 0 d) ∧
      (src < dest → moveBackward P dest src fuel size d = moveBackward P dest src size size d)) ∧
    (P.MovesSucceed → (size ≠ 0 → dest ≠ 0 ∧ src ≠ 0) → (cudaSafeMove P d dest src size).1 = true ∧
      (cudaSafeMove P d dest src size).2.bytes = copy d.bytes dest src size) := by
  obtain ⟨copies, hap, heq⟩ := cudaSafeMove_copies dest src size
  refine ⟨copies, hap, fun P d => ⟨heq P d, fun fuel hfuel => ⟨fun hlt => ?_, fun hlt => ?_⟩, fun hP hnull => ?_⟩⟩
  · obtain ⟨_, -, hsame⟩ := moveForward_copies hlt size 0 size (by omega)
    exact (hsame fuel hfuel P d).trans (hsame size le_rfl P d).symm
  · obtain ⟨_, -, hsame⟩ := moveBackward_copies hlt size size le_rfl
    exact (hsame fuel hfuel P d).trans (hsame size le_rfl P d).symm
  · have hok : (cudaSafeMove P d dest src size).1 = true := by
      by_cases h0 : size = 0
      · simp [cudaSafeMove, h0]
      · exact cudaSafeMove_succeeds hP d (Nat.pos_of_ne_zero (hnull h0).1) (Nat.pos_of_ne_zero (hnull h0).2) size
    exact ⟨hok, (cudaSafeMove_ok hok).1⟩

end ServerlessLLM
