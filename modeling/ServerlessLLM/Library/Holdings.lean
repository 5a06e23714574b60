import Mathlib.Algebra.Order.BigOperators.Group.List
import Mathlib.Algebra.Order.Ring.Int
import Mathlib.Data.List.Nodup

/-!
# Holdings

Each holder of a list holds an amount at a place, or nowhere yet. `heldAt` is what is held at a place; the lemmas say how it
changes when a holder comes, gets its place, or goes.
-/

namespace Holdings

open List

variable {ι κ : Type} [DecidableEq κ] {place place' : ι → Option κ} {amount amount' : ι → ℤ} {l l' : List ι} {i : ι} {k k₀ : κ}

def heldAt (place : ι → Option κ) (amount : ι → ℤ) (l : List ι) (k : κ) : ℤ :=
  (l.map fun i => if place i = some k then amount i else 0).sum

@[simp] theorem heldAt_nil : heldAt place amount [] k = 0 := rfl

theorem heldAt_cons : heldAt place amount (i :: l) k = (if place i = some k then amount i else 0) +
    heldAt place amount l k := by
  unfold heldAt
  rw [map_cons, sum_cons]

theorem heldAt_append : heldAt place amount (l ++ l') k = heldAt place amount l k + heldAt place amount l' k := by
  unfold heldAt
  rw [map_append, sum_append]

theorem heldAt_perm (h : l.Perm l') : heldAt place amount l k = heldAt place amount l' k := (h.map _).sum_eq

theorem heldAt_congr (h : ∀ i ∈ l, place i = place' i ∧ amount i = amount' i) :
    heldAt place amount l k = heldAt place' amount' l k := by
  refine congrArg List.sum (map_congr_left ?_)
  intro i hi
  rw [(h i hi).1, (h i hi).2]

theorem heldAt_eq_zero (h : ∀ i ∈ l, place i ≠ some k) : heldAt place amount l k = 0 := by
  refine sum_eq_zero ?_
  intro x hx
  obtain ⟨i, hi, rfl⟩ := mem_map.1 hx
  exact if_neg (h i hi)

theorem heldAt_settle (hnd : l.Nodup) (hi : i ∈ l) (hno : place i = none) (hso : place' i = some k₀)
    (hsa : ∀ j ∈ l, j ≠ i → place' j = place j) :
    heldAt place' amount l k = heldAt place amount l k + if k = k₀ then amount i else 0 := by
  obtain ⟨l₁, l₂, rfl⟩ := append_of_mem hi
  rw [nodup_middle, nodup_cons] at hnd
  have hother : ∀ j ∈ l₁ ++ l₂, place' j = place j := by
    intro j hj
    refine hsa j ?_ fun heq => hnd.1 (heq ▸ hj)
    rw [mem_append, mem_cons]
    rcases mem_append.1 hj with h | h
    · exact .inl h
    · exact .inr (.inr h)
  have hrs : heldAt place' amount (l₁ ++ l₂) k = heldAt place amount (l₁ ++ l₂) k := heldAt_congr fun j hj => ⟨hother j hj, rfl⟩
  rw [heldAt_perm perm_middle, heldAt_perm perm_middle, heldAt_cons, heldAt_cons, hrs, hno, hso]
  simp only [Option.some.injEq, reduceCtorEq, if_false, zero_add, eq_comm (a := k₀)]
  exact add_comm _ _

theorem heldAt_erase [DecidableEq ι] (hi : i ∈ l) (hplace : place i = some k₀) :
    heldAt place amount (l.erase i) k + (if k = k₀ then amount i else 0) = heldAt place amount l k := by
  rw [heldAt_perm (perm_cons_erase hi), heldAt_cons, hplace, add_comm]
  simp only [Option.some.injEq, eq_comm (a := k₀)]

end Holdings
