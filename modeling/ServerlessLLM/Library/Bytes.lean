import Mathlib.Algebra.GroupWithZero.Nat
import Mathlib.Data.List.Basic

/-!
# Bytes and words

A memory is a function from addresses, a file is a list. `read` takes a range out of a memory, `copyIn` writes one, and `putAt`
writes at an offset of a file.

The second half is about a sequence that is stored in segments, of which only the last one grows: what a segment holds stays
where it is.

Natural numbers as sequences of `k` bytes, the lowest first, and a sequence of bytes as words of `k` bytes each.
-/

namespace Bytes

open List

variable {α : Type}

/-! ## Ranges -/

/-- The `n` values of the memory from `addr` on. -/
def read (mem : Nat → α) (addr n : Nat) : List α := (range n).map fun i => mem (addr + i)

@[simp] theorem length_read (mem : Nat → α) (addr n : Nat) : (read mem addr n).length = n := by simp [read]

@[simp] theorem read_zero (mem : Nat → α) (addr : Nat) : read mem addr 0 = [] := rfl

theorem read_add (mem : Nat → α) (addr n k : Nat) : read mem addr (n + k) = read mem addr n ++ read mem (addr + n) k := by
  simp [read, range_add, Nat.add_assoc, Function.comp_def]

/-- The values of `data` are written to the memory from `dst` on. -/
def copyIn (mem : Nat → α) (dst : Nat) (data : List α) : Nat → α :=
  fun i => if dst ≤ i then (data[i - dst]?).getD (mem i) else mem i

theorem read_copyIn (mem : Nat → α) (dst : Nat) {data : List α} {n : Nat} (h : data.length = n) :
    read (copyIn mem dst data) 0 (dst + n) = read mem 0 dst ++ data := by
  subst h
  rw [read_add]
  congr 1
  · refine map_congr_left ?_
    intro i hi
    have := mem_range.1 hi
    simp [copyIn, show ¬dst ≤ i by omega]
  · refine ext_getElem (by simp) ?_
    intro i h1 h2
    simp [read, copyIn, h2]

theorem read_copyIn_self (mem : Nat → α) (dst : Nat) (data : List α) : read (copyIn mem dst data) dst data.length = data := by
  refine ext_getElem (by simp) ?_
  intro i h1 h2
  simp [read, copyIn, h2]

theorem read_copyIn_apart (mem : Nat → α) {addr n dst : Nat} {data : List α}
    (h : addr + n ≤ dst ∨ dst + data.length ≤ addr) : read (copyIn mem dst data) addr n = read mem addr n := by
  refine map_congr_left ?_
  intro i hi
  have hi := mem_range.1 hi
  unfold copyIn
  split
  · rw [getElem?_eq_none (by omega)]
    rfl
  · rfl

theorem take_drop_read (mem : Nat → α) (addr : Nat) {n i k : Nat} (h : i + k ≤ n) :
    ((read mem addr n).drop i).take k = read mem (addr + i) k := by
  refine ext_getElem (by simp; omega) fun j h1 h2 => ?_
  simp [read, Nat.add_assoc]

/-- What a file holds after `data` was written at `offset`: a gap between its end and the offset reads as zeros, and nothing
happens when there is nothing to write. -/
def putAt [Zero α] (file : List α) (offset : Nat) : List α → List α
  | [] => file
  | x :: data =>
    file.take offset ++ replicate (offset - file.length) 0 ++ (x :: data) ++ file.drop (offset + (data.length + 1))

/-! ## Segments -/

/-- `x` is appended: to the last segment, or as a new one. -/
inductive Appended (x : List α) : List (List α) → List (List α) → Prop
  | extend (closed : List (List α)) (last : List α) : Appended x (closed ++ [last]) (closed ++ [last ++ x])
  | fresh (segs : List (List α)) : Appended x segs (segs ++ [x])

theorem Appended.flatten_eq {x : List α} {segs segs' : List (List α)} (h : Appended x segs segs') :
    segs'.flatten = segs.flatten ++ x := by
  cases h <;> simp

theorem modify_length (front back : List (List α)) (seg : List α) (f : List α → List α) :
    (front ++ seg :: back).modify front.length f = front ++ f seg :: back := by
  rw [modify_eq_take_cons_drop (by simp)]
  simp

/-- `x` stands in one of the segments, at the position `pos` of the whole sequence. -/
def HeldAt (segs : List (List α)) (pos : Nat) (x : List α) : Prop :=
  ∃ front seg back before after,
    segs = front ++ seg :: back ∧ seg = before ++ x ++ after ∧ pos = front.flatten.length + before.length

theorem HeldAt.appended {x y : List α} {segs segs' : List (List α)} {pos : Nat} (h : HeldAt segs pos x)
    (ha : Appended y segs segs') : HeldAt segs' pos x := by
  obtain ⟨front, seg, back, before, after, hs, rfl, rfl⟩ := h
  cases ha with
  | fresh => exact ⟨front, _, back ++ [y], before, after, by simp [hs], rfl, rfl⟩
  | extend closed last =>
    rcases eq_nil_or_concat back with rfl | ⟨back, z, rfl⟩
    · -- the segment is the one that grows
      obtain ⟨rfl, hla⟩ := append_inj' hs rfl
      obtain rfl : last = before ++ x ++ after := by simpa using hla
      exact ⟨closed, _, [], before, after ++ y, rfl, by simp, rfl⟩
    · have hs' : closed ++ [last] = (front ++ (before ++ x ++ after) :: back) ++ [z] := by simpa using hs
      obtain ⟨rfl, -⟩ := append_inj' hs' rfl
      exact ⟨front, _, back ++ [last ++ y], before, after, by simp, rfl, rfl⟩

theorem Appended.heldAt {x y : List α} {segs segs' : List (List α)} (h : Appended (x ++ y) segs segs') :
    HeldAt segs' segs.flatten.length x := by
  cases h with
  | fresh => exact ⟨segs, _, [], [], y, rfl, by simp, by simp⟩
  | extend closed last => exact ⟨closed, _, [], last, y, rfl, by simp, by simp⟩

theorem HeldAt.take_drop {x : List α} {segs : List (List α)} {pos : Nat} (h : HeldAt segs pos x) :
    (segs.flatten.drop pos).take x.length = x := by
  obtain ⟨front, seg, back, before, after, rfl, rfl, rfl⟩ := h
  have hflat : (front ++ (before ++ x ++ after) :: back).flatten =
      (front.flatten ++ before) ++ (x ++ (after ++ back.flatten)) := by simp
  rw [hflat, ← length_append, drop_left, take_left]

theorem HeldAt.inside {x : List α} {segs : List (List α)} {pos : Nat} (h : HeldAt segs pos x) :
    ∃ i seg, segs[i]? = some seg ∧ (segs.take i).flatten.length ≤ pos ∧
      pos + x.length ≤ (segs.take i).flatten.length + seg.length := by
  obtain ⟨front, seg, back, before, after, rfl, rfl, rfl⟩ := h
  refine ⟨front.length, before ++ x ++ after, by simp, by simp, ?_⟩
  simp only [take_left, length_append]
  omega

end Bytes

namespace Words

/-- The `k` lowest bytes of a number. -/
def leBytes : Nat → Nat → List UInt8
  | 0, _ => []
  | k + 1, n => UInt8.ofNat n :: leBytes k (n / 256)

/-- The number that the bytes stand for. -/
def leValue : List UInt8 → Nat
  | [] => 0
  | b :: bytes => b.toNat + 256 * leValue bytes

@[simp] theorem length_leBytes (k n : Nat) : (leBytes k n).length = k := by
  induction k generalizing n with
  | zero => rfl
  | succ k ih => simp [leBytes, ih]

theorem leValue_leBytes (k n : Nat) : leValue (leBytes k n) = n % 256 ^ k := by
  induction k generalizing n with
  | zero => simp [leBytes, leValue, Nat.mod_one]
  | succ k ih =>
    rw [leBytes, leValue, ih, Nat.pow_succ', Nat.mod_mul]
    rfl

/-- At most `count` words of `k` bytes, from the start of the sequence on. -/
def takeWords (k : Nat) : Nat → List UInt8 → List Nat
  | 0, _ => []
  | _ + 1, [] => []
  | count + 1, b :: bytes => leValue ((b :: bytes).take k) :: takeWords k count ((b :: bytes).drop k)

/-- The words of `k` bytes of a sequence. -/
def words (k : Nat) (bytes : List UInt8) : List Nat := takeWords k bytes.length bytes

theorem takeWords_flatMap {k count : Nat} (hk : 0 < k) {l : List Nat} (h : l.length ≤ count) :
    takeWords k count (l.flatMap (leBytes k)) = l.map fun n => n % 256 ^ k := by
  induction l generalizing count with
  | nil => cases count <;> rfl
  | cons n l ih =>
    obtain ⟨count, rfl⟩ : ∃ c, count = c + 1 := ⟨count - 1, by simp at h; omega⟩
    have hrs := ih (Nat.le_of_succ_le_succ h)
    have htake : (leBytes k n ++ l.flatMap (leBytes k)).take k = leBytes k n := List.take_left' (length_leBytes k n)
    have hdrop : (leBytes k n ++ l.flatMap (leBytes k)).drop k = l.flatMap (leBytes k) := List.drop_left' (length_leBytes k n)
    rw [List.flatMap_cons, List.map_cons, ← leValue_leBytes, ← hrs]
    -- a word has at least a byte
    cases hbyt : leBytes k n ++ l.flatMap (leBytes k) with
    | nil =>
      have hlen := congrArg List.length hbyt
      simp at hlen
      omega
    | cons b bytes => rw [takeWords, ← hbyt, htake, hdrop]

theorem words_flatMap {k : Nat} (hk : 0 < k) (l : List Nat) : words k (l.flatMap (leBytes k)) = l.map fun n => n % 256 ^ k := by
  refine takeWords_flatMap hk ?_
  induction l with
  | nil => simp
  | cons n l ih =>
    rw [List.flatMap_cons, List.length_append, length_leBytes, List.length_cons]
    omega

end Words
