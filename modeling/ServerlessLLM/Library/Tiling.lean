import Mathlib.Algebra.GroupWithZero.Nat
import Mathlib.Data.List.Chain

/-!
# Tilings of an interval, and sliding blocks to the left

A list of blocks, each with a start and a positive size, tiles `[a, b)` when each block starts where the one before it ends.
The second half is about memories: sliding the blocks of a list to the left, one copy after another, so that they stand
behind each other from `a` on, loses no byte of a block that is still to be moved.
-/

namespace Tiling

open List

variable {α : Type} {start size : α → Nat}

/-! ## Tilings -/

/-- The sizes of a list of blocks, summed up. -/
def total (size : α → Nat) (l : List α) : Nat := (l.map size).sum

@[simp] theorem total_nil : total size ([] : List α) = 0 := rfl
@[simp] theorem total_cons (x : α) (l : List α) : total size (x :: l) = size x + total size l := by simp [total]
@[simp] theorem total_append (l l' : List α) : total size (l ++ l') = total size l + total size l' := by simp [total]

/-- The blocks of `l` tile `[a, b)`. -/
def Tiles (start size : α → Nat) : Nat → List α → Nat → Prop
  | a, [], b => a = b
  | a, x :: l, b => start x = a ∧ 0 < size x ∧ Tiles start size (a + size x) l b

instance decidableTiles (start size : α → Nat) : ∀ a l b, Decidable (Tiles start size a l b)
  | a, [], b => inferInstanceAs (Decidable (a = b))
  | a, x :: l, b =>
    have := decidableTiles start size (a + size x) l b
    inferInstanceAs (Decidable (start x = a ∧ 0 < size x ∧ Tiles start size (a + size x) l b))

variable {a b : Nat}

variable {l l' : List α} {x : α}

theorem Tiles.end_eq (h : Tiles start size a l b) : b = a + total size l := by
  induction l generalizing a with
  | nil => simpa using h.symm
  | cons x l ih => rw [ih h.2.2, total_cons, Nat.add_assoc]

theorem tiles_append :
    Tiles start size a (l ++ l') b ↔ Tiles start size a l (a + total size l) ∧ Tiles start size (a + total size l) l' b := by
  induction l generalizing a with
  | nil => simp [Tiles]
  | cons x l ih =>
    simp only [cons_append, Tiles, ih, total_cons, ← Nat.add_assoc]
    tauto

theorem tiles_append_iff : Tiles start size a (l ++ l') b ↔ ∃ m, Tiles start size a l m ∧ Tiles start size m l' b := by
  rw [tiles_append]
  refine ⟨fun h => ⟨_, h.1, h.2⟩, ?_⟩
  rintro ⟨m, h1, h2⟩
  have := h1.end_eq
  exact this ▸ ⟨h1, h2⟩

theorem Tiles.le (h : Tiles start size a l b) : a ≤ b := by
  have := h.end_eq
  omega

theorem Tiles.mem (h : Tiles start size a l b) {x : α} (hx : x ∈ l) : a ≤ start x ∧ 0 < size x ∧ start x + size x ≤ b := by
  induction l generalizing a with
  | nil => simp at hx
  | cons y l ih =>
    obtain ⟨h1, h2, h3⟩ := h
    rcases mem_cons.1 hx with rfl | hx
    · exact ⟨by omega, h2, by have := h3.le; omega⟩
    · have := ih h3 hx
      exact ⟨by omega, this.2⟩

theorem Tiles.pairwise (h : Tiles start size a l b) : l.Pairwise fun x y => start x + size x ≤ start y := by
  induction l generalizing a with
  | nil => exact List.Pairwise.nil
  | cons x l ih =>
    refine pairwise_cons.2 ⟨?_, ih h.2.2⟩
    intro y hy
    have := h.2.2.mem hy
    have := h.1
    omega

theorem Tiles.of_map_eq {β : Type} {start' size' : β → Nat} {l' : List β}
    (h : Tiles start size a l b) (he : l.map (fun x => (start x, size x)) = l'.map fun x => (start' x, size' x)) :
    Tiles start' size' a l' b := by
  induction l generalizing a l' with
  | nil =>
    cases l' with
    | nil => exact h
    | cons y l' => simp at he
  | cons x l ih =>
    cases l' with
    | nil => simp at he
    | cons y l' =>
      simp only [map_cons, cons.injEq, Prod.mk.injEq] at he
      obtain ⟨⟨h1, h2⟩, he⟩ := he
      refine ⟨h1 ▸ h.1, h2 ▸ h.2.1, h2 ▸ ih h.2.2 he⟩

/-! ## Blocks that may be empty -/

/-- The blocks of `l` stand behind each other from `a` to `b`; some may be empty. -/
def Adjoins (start size : α → Nat) : Nat → List α → Nat → Prop
  | a, [], b => a = b
  | a, x :: l, b => start x = a ∧ Adjoins start size (a + size x) l b

theorem tiles_iff_adjoins : Tiles start size a l b ↔ Adjoins start size a l b ∧ ∀ x ∈ l, 0 < size x := by
  induction l generalizing a with
  | nil => simp [Tiles, Adjoins]
  | cons x l ih =>
    simp only [Tiles, Adjoins, ih, forall_mem_cons]
    tauto

theorem Adjoins.end_eq (h : Adjoins start size a l b) : b = a + total size l := by
  induction l generalizing a with
  | nil => simpa using h.symm
  | cons x l ih => rw [ih h.2, total_cons, Nat.add_assoc]

theorem adjoins_append_iff : Adjoins start size a (l ++ l') b ↔ ∃ m, Adjoins start size a l m ∧ Adjoins start size m l' b := by
  induction l generalizing a with
  | nil => simp [Adjoins]
  | cons x l ih =>
    simp only [cons_append, Adjoins, ih]
    constructor
    · rintro ⟨h, m, h1, h2⟩
      exact ⟨m, ⟨h, h1⟩, h2⟩
    · rintro ⟨m, ⟨h, h1⟩, h2⟩
      exact ⟨h, m, h1, h2⟩

theorem Adjoins.start_head (h : Adjoins start size a l b) (hx : l.head? = some x) : start x = a := by
  cases l with
  | nil => cases hx
  | cons y l =>
    obtain rfl : y = x := Option.some.inj hx
    exact h.1

theorem Adjoins.end_getLast (h : Adjoins start size a l b) (hx : l.getLast? = some x) : start x + size x = b := by
  obtain ⟨l', rfl⟩ := getLast?_eq_some_iff.1 hx
  obtain ⟨m, -, h1, h2⟩ := adjoins_append_iff.1 h
  rw [h1]
  exact h2

theorem Adjoins.of_map_eq {β : Type} {start' size' : β → Nat} {l' : List β}
    (h : Adjoins start size a l b) (he : l.map (fun x => (start x, size x)) = l'.map fun x => (start' x, size' x)) :
    Adjoins start' size' a l' b := by
  induction l generalizing a l' with
  | nil =>
    cases l' with
    | nil => exact h
    | cons y l' => simp at he
  | cons x l ih =>
    cases l' with
    | nil => simp at he
    | cons y l' =>
      simp only [map_cons, cons.injEq, Prod.mk.injEq] at he
      obtain ⟨⟨h1, h2⟩, he⟩ := he
      exact ⟨h1 ▸ h.1, h2 ▸ ih h.2 he⟩

theorem Adjoins.pairwise (h : Adjoins start size a l b) :
    l.Pairwise (fun x y => start x + size x ≤ start y) ∧ ∀ x ∈ l, a ≤ start x ∧ start x + size x ≤ b := by
  induction l generalizing a with
  | nil => exact ⟨List.Pairwise.nil, by simp⟩
  | cons x l ih =>
    obtain ⟨h1, h2⟩ := h
    obtain ⟨hpair, hmem⟩ := ih h2
    have hle : a + size x ≤ b := by
      cases l with
      | nil => exact Nat.le_of_eq h2
      | cons y l =>
        have := hmem y (by simp)
        omega
    refine ⟨pairwise_cons.2 ⟨?_, hpair⟩, ?_⟩
    · intro y hy
      have := (hmem y hy).1
      omega
    · intro y hy
      rcases mem_cons.1 hy with rfl | hy
      · omega
      · have := hmem y hy
        omega

/-! ## Sliding blocks to the left -/

/-- Give the blocks of a list consecutive places from `a` on; `put a x` is the block `x` placed at `a`. -/
def slide (size : α → Nat) (put : Nat → α → α) : Nat → List α → List α
  | _, [] => []
  | a, x :: l => put a x :: slide size put (a + size x) l

theorem tiles_slide (put : Nat → α → α) (hs : ∀ a x, start (put a x) = a) (hz : ∀ a x, size (put a x) = size x)
    (hp : ∀ x ∈ l, 0 < size x) : Tiles start size a (slide size put a l) (a + total size l) := by
  induction l generalizing a with
  | nil => simp [slide, Tiles]
  | cons x l ih =>
    refine ⟨hs a x, (hz a x).symm ▸ hp x (by simp), ?_⟩
    rw [hz, total_cons, ← Nat.add_assoc]
    exact ih fun y hy => hp y (by simp [hy])

theorem map_slide {γ : Type} (f : α → γ) (put : Nat → α → α) (hf : ∀ a x, f (put a x) = f x) (a : Nat) (l : List α) :
    (slide size put a l).map f = l.map f := by
  induction l generalizing a with
  | nil => rfl
  | cons x l ih => simp [slide, hf, ih]

theorem mem_slide {put : Nat → α → α} {y : α} (h : y ∈ slide size put a l) : ∃ x ∈ l, ∃ b, a ≤ b ∧ y = put b x := by
  induction l generalizing a with
  | nil => simp [slide] at h
  | cons x l ih =>
    rcases mem_cons.1 h with rfl | h
    · exact ⟨x, by simp, a, Nat.le_refl _, rfl⟩
    · obtain ⟨z, hz, b, hb, rfl⟩ := ih h
      exact ⟨z, by simp [hz], b, by omega, rfl⟩

/-! ## The bytes of the blocks -/

variable {β : Type}

/-- The memory `m` after `n` cells from `src` on were copied to `dst`. -/
def copy (m : Nat → β) (dst src n : Nat) : Nat → β :=
  fun i => if dst ≤ i ∧ i < dst + n then m (src + (i - dst)) else m i

variable (m : Nat → β) {dst src n k i : Nat} {l : List α}

theorem copy_inside (h : k < n) : copy m dst src n (dst + k) = m (src + k) := by
  simp [copy, h]

theorem copy_outside (h : i < dst ∨ dst + n ≤ i) : copy m dst src n i = m i := by
  simp only [copy]
  rw [if_neg (by omega)]

@[simp] theorem copy_self (a n : Nat) : copy m a a n = m := by
  funext i
  simp only [copy]
  split
  · congr 1; omega
  · rfl

theorem copy_zero : copy m dst src 0 = m := by
  funext i
  exact copy_outside m (by omega)

theorem copy_copy_front {c : Nat} (h : src ≤ dst) : copy (copy m (dst + n) (src + n) c) dst src n = copy m dst src (n + c) := by
  funext i
  unfold copy
  split_ifs <;> first | omega | (congr 1; omega) | rfl

theorem copy_copy {c : Nat} (h : dst ≤ src) : copy (copy m dst src k) (dst + k) (src + k) c = copy m dst src (k + c) := by
  funext i
  by_cases h1 : dst + k ≤ i ∧ i < dst + k + c
  · obtain ⟨j, rfl⟩ := Nat.exists_eq_add_of_le h1.1
    rw [copy_inside _ (by omega), copy_outside _ (by omega), Nat.add_assoc dst, copy_inside _ (by omega), Nat.add_assoc]
  · rw [copy_outside _ (by omega)]
    simp only [copy]
    by_cases h2 : dst ≤ i ∧ i < dst + k
    · rw [if_pos h2, if_pos (by omega)]
    · rw [if_neg h2, if_neg (by omega)]

/-- The memory after the blocks of a list were copied, one after another, to consecutive places from `a` on. -/
def slideBytes (start size : α → Nat) (m : Nat → β) : Nat → List α → Nat → β
  | _, [] => m
  | a, x :: l => slideBytes start size (copy m a (start x) (size x)) (a + size x) l

theorem slideBytes_outside {a : Nat} (h : i < a ∨ a + total size l ≤ i) : slideBytes start size m a l i = m i := by
  induction l generalizing m a with
  | nil => rfl
  | cons x l ih =>
    rw [total_cons] at h
    rw [slideBytes, ih _ (by omega), copy_outside _ (by omega)]

theorem slideBytes_eq (put : Nat → α → α) (hs : ∀ a x, start (put a x) = a) (m : Nat → β)
    {a : Nat} (hl : l.Pairwise fun x y => start x + size x ≤ start y) (ha : ∀ x ∈ l, a ≤ start x) :
    List.Forall₂ (fun x y => (∃ b, b ≤ start x ∧ y = put b x) ∧
      ∀ k < size x, slideBytes start size m a l (start y + k) = m (start x + k)) l (slide size put a l) := by
  induction l generalizing m a with
  | nil => exact List.Forall₂.nil
  | cons x l ih =>
    obtain ⟨h1, h2⟩ := pairwise_cons.1 hl
    have hax := ha x (by simp)
    refine List.Forall₂.cons ⟨⟨a, hax, rfl⟩, ?_⟩ ?_
    · intro k hk
      rw [slideBytes, hs, slideBytes_outside _ (by omega), copy_inside _ hk]
    · have hle : ∀ y ∈ l, a + size x ≤ start y := fun y hy => by have := h1 y hy; omega
      refine List.Forall₂.imp ?_ ((forall₂_and_left _ _).2 ⟨hle, ih (copy m a (start x) (size x)) h2 hle⟩)
      rintro y z ⟨hy, hz, h⟩
      refine ⟨hz, ?_⟩
      intro k hk
      rw [slideBytes, h k hk, copy_outside _ (by omega)]

end Tiling
