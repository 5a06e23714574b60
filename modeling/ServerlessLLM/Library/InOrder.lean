import Mathlib.Algebra.GroupWithZero.Nat
import Mathlib.Data.List.Induction
import Mathlib.Data.List.Nodup
import Mathlib.Data.List.TakeWhile

/-!
# Items that are laid out one behind the other, each once

Items with keys come in a sequence, and the items with a new key are laid out in the order they come (`firstSeen`). `start` is
where the item with a key begins. Two items compare by what lies between them (`between`).
-/

namespace InOrder

open List

variable {α β : Type} [DecidableEq β] (key : α → β) (width : α → Nat)

def total (l : List α) : Nat := (l.map width).sum

@[simp] theorem total_nil : total width ([] : List α) = 0 := rfl
@[simp] theorem total_cons (x : α) (l : List α) : total width (x :: l) = width x + total width l := by simp [total]
@[simp] theorem total_append (l l' : List α) : total width (l ++ l') = total width l + total width l' := by simp [total]

theorem total_eq_zero_iff {l : List α} : total width l = 0 ↔ ∀ x ∈ l, width x = 0 := by
  induction l with
  | nil => simp
  | cons x l ih => simp [Nat.add_eq_zero_iff, ih]

theorem exists_first {l : List α} (h : 0 < total width l) :
    ∃ front x back, l = front ++ x :: back ∧ total width front = 0 ∧ 0 < width x := by
  induction l with
  | nil => cases h
  | cons x l ih =>
    rcases Nat.eq_zero_or_pos (width x) with hx | hx
    · obtain ⟨front, y, back, rfl, hzero, hy⟩ := ih (by rwa [total_cons, hx, Nat.zero_add] at h)
      exact ⟨x :: front, y, back, rfl, by rw [total_cons, hx, hzero], hy⟩
    · exact ⟨[], x, l, rfl, rfl, hx⟩

/-- Take one more item, unless an item of its key is there. -/
def add (l : List α) (x : α) : List α := if key x ∈ l.map key then l else l ++ [x]

/-- The items whose key comes for the first time. -/
def firstSeen (l : List α) : List α := l.foldl (add key) []

def before (l : List α) (k : β) : List α := l.takeWhile fun x => key x ≠ k

/-- Where the item with the key begins. -/
def start (l : List α) (k : β) : Nat := total width (before key l k)

/-- The items from that of one key up to that of another, without the latter. Nothing, when the other one is not behind it. -/
def between (l : List α) (k k' : β) : List α := (before key l k').dropWhile fun x => key x ≠ k

variable {key} {width} {l : List α} {k k' : β}

variable {y : α} {front : List α} {x : α}

theorem before_cons_of_ne (h : key y ≠ k) : before key (y :: l) k = y :: before key l k :=
  takeWhile_cons_of_pos (by simpa using h)

theorem before_split (h : k ∈ l.map key) : ∃ x rest, l = before key l k ++ x :: rest ∧ key x = k := by
  induction l with
  | nil => simp at h
  | cons y l ih =>
    by_cases hy : key y = k
    · exact ⟨y, l, by simp [before, hy], hy⟩
    · obtain ⟨x, rest, hl, hx⟩ := ih (by simpa [Ne.symm hy] using h)
      refine ⟨x, rest, ?_, hx⟩
      rw [before_cons_of_ne hy, cons_append]
      exact congrArg _ hl

theorem before_append {rest : List α} (h : key x ∉ front.map key) : before key (front ++ x :: rest) (key x) = front := by
  induction front with
  | nil => simp [before]
  | cons y front ih =>
    have hy : key y ≠ key x := fun e => h (by simp [e])
    rw [cons_append, before_cons_of_ne hy]
    exact congrArg _ (ih fun hm => h (by simp [hm]))

theorem not_mem_before : k ∉ (before key l k).map key := by
  intro h
  obtain ⟨x, hx, rfl⟩ := mem_map.1 h
  simpa using mem_takeWhile_imp hx

theorem before_append_of_mem (h : k ∈ l.map key) (l' : List α) : before key (l ++ l') k = before key l k := by
  obtain ⟨x, rest, hl, rfl⟩ := before_split h
  conv_lhs => rw [hl, append_assoc, cons_append]
  exact before_append not_mem_before

theorem start_append_of_mem (h : k ∈ l.map key) (l' : List α) : start key width (l ++ l') k = start key width l k := by
  rw [start, before_append_of_mem h, start]

theorem start_append_self (h : key x ∉ l.map key) : start key width (l ++ [x]) (key x) = total width l := by
  rw [start, before_append h]

/-! ## The items that come for the first time -/

theorem keys_add (l : List α) (x : α) (k : β) : k ∈ (add key l x).map key ↔ k ∈ l.map key ∨ k = key x := by
  unfold add
  split
  · rename_i h
    refine ⟨.inl, ?_⟩
    rintro (h' | rfl)
    · exact h'
    · exact h
  · simp

theorem nodup_add (h : (l.map key).Nodup) (x : α) : ((add key l x).map key).Nodup := by
  unfold add
  split
  · exact h
  · rename_i hx
    rw [map_append, nodup_append]
    refine ⟨h, by simp, ?_⟩
    rintro a ha b hb rfl
    obtain rfl : a = key x := by simpa using hb
    exact hx ha

theorem firstSeen_concat (l : List α) (x : α) : firstSeen key (l ++ [x]) = add key (firstSeen key l) x := by
  simp [firstSeen]

theorem nodup_firstSeen (l : List α) : ((firstSeen key l).map key).Nodup := by
  induction l using reverseRecOn with
  | nil => simp [firstSeen]
  | append_singleton l x ih =>
    rw [firstSeen_concat]
    exact nodup_add ih x

theorem keys_firstSeen (l : List α) (k : β) : k ∈ (firstSeen key l).map key ↔ k ∈ l.map key := by
  induction l using reverseRecOn with
  | nil => simp [firstSeen]
  | append_singleton l x ih =>
    rw [firstSeen_concat, keys_add, ih]
    simp

theorem firstSeen_subset (l : List α) : firstSeen key l ⊆ l := by
  induction l using reverseRecOn with
  | nil => simp [firstSeen]
  | append_singleton l x ih =>
    rw [firstSeen_concat, add]
    split
    · exact fun y hy => mem_append_left _ (ih hy)
    · exact fun y hy => (mem_append.1 hy).elim (fun hy => mem_append_left _ (ih hy)) (mem_append_right _)

theorem firstSeen_prefix (key : α → β) (l l' : List α) : firstSeen key l <+: firstSeen key (l ++ l') := by
  induction l' using reverseRecOn with
  | nil => simp
  | append_singleton l' x ih =>
    rw [← append_assoc, firstSeen_concat, add]
    split
    · exact ih
    · exact ih.trans (prefix_append _ _)

/-! ## Two items -/

theorem split_of_mem (hnd : (l.map key).Nodup) (hx : x ∈ l) : ∃ rest, l = before key l (key x) ++ x :: rest := by
  obtain ⟨y, rest, hl, hy⟩ := before_split (mem_map_of_mem (f := key) hx)
  have hyl : y ∈ l := by
    rw [hl]
    simp
  obtain rfl := inj_on_of_nodup_map hnd hyl hx hy
  exact ⟨rest, hl⟩

theorem start_eq_of_before (width : α → Nat) (h : k ∈ (before key l k').map key) :
    start key width l k' = start key width l k + total width (between key l k k') ∧ between key l k' k = [] := by
  have hpre : before key l k' <+: l := takeWhile_prefix _
  obtain ⟨rest, hl⟩ := hpre
  have hk : before key l k = before key (before key l k') k := by
    conv_lhs => rw [← hl]
    exact before_append_of_mem h rest
  constructor
  · rw [start, start, hk, between, ← total_append]
    exact congrArg _ (takeWhile_append_dropWhile).symm
  · rw [between, dropWhile_eq_nil_iff, hk]
    intro x hx
    have : x ∈ before key l k' := takeWhile_prefix _ |>.subset hx
    simpa using mem_takeWhile_imp this

theorem before_or_before (hk : k ∈ l.map key) (hk' : k' ∈ l.map key) (hne : k ≠ k') :
    k ∈ (before key l k').map key ∨ k' ∈ (before key l k).map key := by
  induction l with
  | nil => simp at hk
  | cons y l ih =>
    by_cases hy : key y = k
    · left
      rw [before_cons_of_ne (by rwa [hy]), map_cons, hy]
      exact mem_cons_self
    · by_cases hy' : key y = k'
      · right
        rw [before_cons_of_ne hy, map_cons, hy']
        exact mem_cons_self
      · rw [before_cons_of_ne hy, before_cons_of_ne hy']
        exact (ih (by simpa [Ne.symm hy] using hk) (by simpa [Ne.symm hy'] using hk')).imp
          (mem_cons_of_mem _) (mem_cons_of_mem _)

theorem between_self : between key l k k = [] := by
  rw [between, dropWhile_eq_nil_iff]
  intro x hx
  have hne := mem_takeWhile_imp hx
  exact hne

theorem start_le_iff (hk : k ∈ l.map key) (hk' : k' ∈ l.map key) :
    start key width l k ≤ start key width l k' ↔ ∀ x ∈ between key l k' k, width x = 0 := by
  by_cases hne : k = k'
  · subst hne
    simp [between_self]
  · rcases before_or_before hk hk' hne with h | h
    · obtain ⟨h1, h2⟩ := start_eq_of_before width h
      rw [h1, h2]
      simp
    · obtain ⟨h1, -⟩ := start_eq_of_before width h
      rw [h1, ← total_eq_zero_iff]
      omega

theorem start_add_between (hk : k ∈ l.map key) (hk' : k' ∈ l.map key) (hle : start key width l k ≤ start key width l k') :
    start key width l k' = start key width l k + total width (between key l k k') := by
  by_cases hne : k = k'
  · subst hne
    simp [between_self]
  · rcases before_or_before hk hk' hne with h | h
    · exact (start_eq_of_before width h).1
    · obtain ⟨h1, h2⟩ := start_eq_of_before width h
      rw [h2, total_nil]
      omega

theorem start_add_width_le (hnd : (l.map key).Nodup) (hx : x ∈ l) : start key width l (key x) + width x ≤ total width l := by
  obtain ⟨rest, hl⟩ := split_of_mem hnd hx
  have htot := congrArg (total width) hl
  rw [total_append, total_cons] at htot
  unfold start
  omega

theorem start_add_width_le_of_before (hnd : (l.map key).Nodup) (hx : x ∈ l)
    (hb : key x ∈ (before key l k).map key) : start key width l (key x) + width x ≤ start key width l k := by
  obtain ⟨rest, hl⟩ : before key l k <+: l := takeWhile_prefix _
  -- the item of that key before `k` is `x`
  obtain ⟨y, hy, hxy⟩ := mem_map.1 hb
  have hyl : y ∈ l := by
    rw [← hl]
    exact mem_append_left _ hy
  obtain rfl := inj_on_of_nodup_map hnd hyl hx hxy
  have hnd' : ((before key l k).map key).Nodup := by
    rw [← hl, map_append] at hnd
    exact hnd.of_append_left
  have hstart : start key width l (key y) = start key width (before key l k) (key y) := by
    conv_lhs => rw [← hl]
    exact start_append_of_mem hb rest
  rw [hstart]
  exact start_add_width_le hnd' hy

theorem start_apart (hnd : (l.map key).Nodup) (hx : x ∈ l) (hy : y ∈ l) (hne : key x ≠ key y) :
    start key width l (key x) + width x ≤ start key width l (key y) ∨
      start key width l (key y) + width y ≤ start key width l (key x) :=
  (before_or_before (mem_map_of_mem hx) (mem_map_of_mem hy) hne).imp
    (start_add_width_le_of_before hnd hx) (start_add_width_le_of_before hnd hy)

end InOrder
