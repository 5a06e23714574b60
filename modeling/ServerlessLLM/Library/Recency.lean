import Mathlib.Data.List.Nodup
import Mathlib.Order.Basic

/-!
# Bounded maps that forget what was used longest ago

The entries of a bounded map stand in the order of their last use, the last used first. `step` is the map that drops its last
entry to make room. `Recent` relates any list of entries to the times of last use, whatever was done with the map.
-/

namespace Recency

open List Option

variable {κ ν : Type} [DecidableEq κ]

/-- What is done with a map. -/
inductive Op (κ ν : Type) where
  | get (k : κ)
  | put (k : κ) (v : ν)
  | remove (k : κ)
  | removeLast

/-- The key that an operation uses. -/
def Op.uses : Op κ ν → Option κ
  | get k | put k _ => some k
  | remove _ | removeLast => none

/-- The entries of the other keys. -/
def others (k : κ) (l : List (κ × ν)) : List (κ × ν) := l.filter fun e => e.1 ≠ k

/-- A bounded map. -/
def step (capacity : Nat) (l : List (κ × ν)) : Op κ ν → List (κ × ν)
  | .get k =>
    match l.lookup k with
    | some v => (k, v) :: others k l
    | none => l
  | .put k v => ((k, v) :: others k l).take capacity
  | .remove k => others k l
  | .removeLast => l.dropLast

/-- The times at which the keys were used last, when an operation takes one unit of time. -/
def lastUse (ops : List (Op κ ν)) (k : κ) : Nat :=
  match ops with
  | [] => 0
  | op :: earlier => if op.uses = some k then earlier.length + 1 else lastUse earlier k

variable {l : List (κ × ν)} {ops : List (Op κ ν)} {k : κ} {v : ν}

theorem lastUse_le (ops : List (Op κ ν)) (k : κ) : lastUse ops k ≤ ops.length := by
  induction ops with
  | nil => exact Nat.le_refl 0
  | cons op earlier ih =>
    rw [lastUse]
    split
    · exact Nat.le_refl _
    · exact Nat.le_succ_of_le ih

/-- The entries stand in the order of their last use; the operations come from the last one on. -/
def Recent (ops : List (Op κ ν)) (l : List (κ × ν)) : Prop := l.Pairwise fun e e' => lastUse ops e'.1 < lastUse ops e.1

theorem lastUse_of_ne {op : Op κ ν} (h : op.uses ≠ some k) : lastUse (op :: ops) k = lastUse ops k := if_neg h

theorem Recent.use (h : Recent ops l) (op : Op κ ν) (hop : op.uses = some k) (v : ν) :
    Recent (op :: ops) ((k, v) :: others k l) := by
  have hne : ∀ e ∈ others k l, op.uses ≠ some e.1 := by
    intro e he heq
    have hk : e.1 ≠ k := by simpa using (mem_filter.1 he).2
    exact hk (some.inj (heq.symm.trans hop))
  refine pairwise_cons.2 ⟨?_, ?_⟩
  · intro e he
    rw [lastUse_of_ne (hne e he), lastUse, if_pos hop]
    exact Nat.lt_succ_of_le (lastUse_le ops e.1)
  · refine (h.sublist filter_sublist).imp_of_mem fun {e e'} he he' hlt => ?_
    rwa [lastUse_of_ne (hne e he), lastUse_of_ne (hne e' he')]

theorem Recent.keep (h : Recent ops l) {op : Op κ ν} {l' : List (κ × ν)} (hsub : l'.Sublist l)
    (hop : ∀ e ∈ l', op.uses ≠ some e.1) : Recent (op :: ops) l' := by
  refine (h.sublist hsub).imp_of_mem fun {e e'} he he' hlt => ?_
  rwa [lastUse_of_ne (hop e he), lastUse_of_ne (hop e' he')]

theorem lookup_of_mem_keys (h : k ∈ l.map Prod.fst) : ∃ v, l.lookup k = some v := by
  induction l with
  | nil => simp at h
  | cons e l ih =>
    by_cases hk : k = e.1
    · exact ⟨e.2, by rw [lookup_cons, hk, beq_self_eq_true]⟩
    · obtain ⟨v, hv⟩ := ih ((mem_cons.1 h).resolve_left hk)
      exact ⟨v, by rw [lookup_cons, beq_false_of_ne hk, hv]⟩

theorem mem_of_lookup (h : l.lookup k = some v) : (k, v) ∈ l := by
  induction l with
  | nil => simp at h
  | cons e l ih =>
    by_cases hk : k = e.1
    · rw [lookup_cons, hk, beq_self_eq_true] at h
      obtain rfl := some.inj h
      exact hk ▸ mem_cons_self
    · rw [lookup_cons, beq_false_of_ne hk] at h
      exact mem_cons_of_mem _ (ih h)

/-! ## Steps -/

theorem Recent.step (h : Recent ops l) (capacity : Nat) (op : Op κ ν) : Recent (op :: ops) (step capacity l op) := by
  cases op with
  | get k =>
    cases hk : l.lookup k with
    | some v =>
      rw [Recency.step, hk]
      exact h.use (.get k) rfl v
    | none =>
      rw [Recency.step, hk]
      refine h.keep (List.Sublist.refl l) ?_
      intro e he heq
      obtain rfl : k = e.1 := some.inj heq
      obtain ⟨v, hv⟩ := lookup_of_mem_keys (mem_map_of_mem (f := Prod.fst) he)
      rw [hk] at hv
      nomatch hv
  | put k v => exact (h.use (.put k v) rfl v).sublist (take_sublist _ _)
  | remove k => exact h.keep filter_sublist fun e _ heq => nomatch heq
  | removeLast => exact h.keep (dropLast_sublist l) fun e _ heq => nomatch heq

theorem length_others_lt (h : k ∈ l.map Prod.fst) : (others k l).length < l.length := by
  obtain ⟨e, he, rfl⟩ := mem_map.1 h
  exact length_filter_lt_length_iff_exists.2 ⟨e, he, by simp⟩

theorem length_step_le {capacity : Nat} (h : l.length ≤ capacity) (op : Op κ ν) : (step capacity l op).length ≤ capacity := by
  cases op with
  | get k =>
    cases hk : l.lookup k with
    | some v =>
      have hlt := length_others_lt (mem_map_of_mem (f := Prod.fst) (mem_of_lookup hk))
      rw [step, hk, length_cons]
      exact Nat.le_trans hlt h
    | none =>
      rw [step, hk]
      exact h
  | put k v => exact length_take_le _ _
  | remove k => exact Nat.le_trans (length_filter_le _ _) h
  | removeLast =>
    rw [step, length_dropLast]
    exact Nat.le_trans (Nat.sub_le _ _) h

theorem mem_step_put {capacity : Nat} (hpos : 0 < capacity) (h : l.length ≤ capacity) {e : κ × ν} (he : e ∈ l) (hne : e.1 ≠ k) :
    e ∈ step capacity l (.put k v) ∨ l.getLast? = some e := by
  obtain ⟨n, rfl⟩ : ∃ n, capacity = n + 1 := ⟨capacity - 1, by omega⟩
  have hmem : e ∈ others k l := mem_filter.2 ⟨he, decide_eq_true hne⟩
  rw [step, take_succ_cons]
  by_cases hshort : (others k l).length ≤ n
  · rw [take_of_length_le hshort]
    exact .inl (mem_cons_of_mem _ hmem)
  · -- nothing was filtered out, and exactly the last entry does not fit
    have hle : (others k l).length ≤ l.length := length_filter_le _ _
    have hoth : others k l = l := filter_sublist.eq_of_length (by show (others k l).length = l.length; omega)
    have hdrop : l.dropLast = l.take n := by
      rw [dropLast_eq_take]
      congr 1
      omega
    obtain ⟨e', hla⟩ : ∃ e', l.getLast? = some e' := by
      cases hl : l.getLast? with
      | some e' => exact ⟨e', rfl⟩
      | none =>
        rw [List.getLast?_eq_none_iff.1 hl] at he
        nomatch he
    obtain ⟨before, hspl⟩ := List.getLast?_eq_some_iff.1 hla
    rw [hoth, ← hdrop, hla]
    rw [hspl, dropLast_concat]
    rcases mem_append.1 (hspl ▸ he) with hbef | hend
    · exact .inl (mem_cons_of_mem _ hbef)
    · exact .inr (by rw [mem_singleton.1 hend])

end Recency
