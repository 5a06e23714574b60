import Mathlib.Algebra.Order.BigOperators.Group.List
import Mathlib.Algebra.Order.Group.MinMax
import Mathlib.Tactic.Abel

/-!
# Two-stage pipelines

A list of stages, each a load and a compute. The loads go one after another, and that of a stage starts when the compute of the
stage before it starts; a compute waits for its load and for the computes before it. What it waits beyond these is the stall of
the stage.
-/

namespace Pipeline

open List Prod

variable {α : Type} [AddCommGroup α] [LinearOrder α]

/-- Where a pipeline stands: the end of the last load, the end of the last compute and the start of the last compute. -/
structure Clock (α : Type) where
  copyEnd : α
  computeEnd : α
  previousStart : α

/-- A pipeline that begins at a time. -/
def Clock.init (start : α) : Clock α := ⟨start, start, start⟩

namespace Clock

variable {c c' : Clock α} {s s' : α × α}

def loadEnd (c : Clock α) (load : α) : α := max c.copyEnd c.previousStart + load

/-- How long the compute of a stage waits for its load. -/
def stall (c : Clock α) (load : α) : α := max 0 (c.loadEnd load - c.computeEnd)

def advance (c : Clock α) (s : α × α) : Clock α :=
  let start := max c.computeEnd (c.loadEnd s.1)
  ⟨c.loadEnd s.1, start + s.2, start⟩

/-- Stages one after another. -/
def run (c : Clock α) (stages : List (α × α)) : Clock α := stages.foldl advance c

def stalls (c : Clock α) : List (α × α) → List α
  | [] => []
  | s :: stages => c.stall s.1 :: (c.advance s).stalls stages

/-- Loads do not run past the compute before them, which has begun before it ends. -/
structure Ordered (c : Clock α) : Prop where
  copy : c.copyEnd ≤ c.previousStart
  compute : c.previousStart ≤ c.computeEnd

/-- One clock stands before another. -/
structure Le (c c' : Clock α) : Prop where
  copyEnd : c.copyEnd ≤ c'.copyEnd
  computeEnd : c.computeEnd ≤ c'.computeEnd
  previousStart : c.previousStart ≤ c'.previousStart

omit [AddCommGroup α] in
theorem ordered_init (start : α) : (init start).Ordered := ⟨le_rfl, le_rfl⟩

omit [AddCommGroup α] in
theorem Le.refl (c : Clock α) : c.Le c := ⟨le_rfl, le_rfl, le_rfl⟩

theorem Ordered.loadEnd (hc : c.Ordered) (load : α) : c.loadEnd load = c.previousStart + load := by
  rw [Clock.loadEnd, max_eq_right hc.copy]

@[simp] theorem run_cons (c : Clock α) (s : α × α) (stages : List (α × α)) : c.run (s :: stages) =
    (c.advance s).run stages := rfl

@[simp] theorem stalls_cons (c : Clock α) (s : α × α) (stages : List (α × α)) :
    c.stalls (s :: stages) = c.stall s.1 :: (c.advance s).stalls stages := rfl

theorem stalls_nonneg (c : Clock α) (stages : List (α × α)) : ∀ x ∈ c.stalls stages, 0 ≤ x := by
  induction stages generalizing c with
  | nil => simp [stalls]
  | cons s stages ih =>
    intro x hx
    rcases mem_cons.1 hx with rfl | hx
    · exact le_max_left _ _
    · exact ih _ x hx

variable [IsOrderedAddMonoid α]

theorem Ordered.advance (h : 0 ≤ s.2) : (c.advance s).Ordered := ⟨le_max_right _ _, le_add_of_nonneg_right h⟩

/-! ## What a run takes -/

theorem advance_computeEnd (c : Clock α) (s : α × α) : (c.advance s).computeEnd = c.computeEnd + c.stall s.1 + s.2 := by
  have hstart : max c.computeEnd (c.loadEnd s.1) = c.computeEnd + c.stall s.1 := by
    rw [stall, ← max_add_add_left, add_zero, add_sub_cancel]
  exact congrArg (· + s.2) hstart

theorem run_computeEnd (c : Clock α) (stages : List (α × α)) :
    (c.run stages).computeEnd = c.computeEnd + (c.stalls stages).sum + (stages.map snd).sum := by
  induction stages generalizing c with
  | nil => simp [run, stalls]
  | cons s stages ih =>
    rw [run_cons, ih, advance_computeEnd, stalls_cons, sum_cons, map_cons, sum_cons]
    abel

theorem Ordered.stall_le (hc : c.Ordered) {load : α} (h : 0 ≤ load) : c.stall load ≤ load := by
  refine max_le h ?_
  rw [hc.loadEnd, sub_le_iff_le_add, add_comm load]
  exact add_le_add_left hc.compute load

theorem Ordered.stall_zero (hc : c.Ordered) : c.stall 0 = 0 := le_antisymm (hc.stall_le le_rfl) (le_max_left _ _)

variable {stages : List (α × α)}

theorem Ordered.sum_stalls_le (hc : c.Ordered) (h : ∀ s ∈ stages, 0 ≤ s.1 ∧ 0 ≤ s.2) :
    (c.stalls stages).sum ≤ (stages.map fst).sum := by
  induction stages generalizing c with
  | nil => simp [stalls]
  | cons s stages ih =>
    have hs := h s mem_cons_self
    rw [stalls_cons, sum_cons, map_cons, sum_cons]
    exact add_le_add (hc.stall_le hs.1) (ih (Ordered.advance hs.2) fun s hs => h s (mem_cons_of_mem _ hs))

theorem Ordered.run_le (hc : c.Ordered) (h : ∀ s ∈ stages, 0 ≤ s.1 ∧ 0 ≤ s.2) :
    (c.run stages).computeEnd ≤ c.computeEnd + (stages.map fst).sum + (stages.map snd).sum := by
  rw [run_computeEnd]
  exact add_le_add_left (add_le_add_right (hc.sum_stalls_le h) _) _

theorem sum_computes_le (c : Clock α) (stages : List (α × α)) :
    c.computeEnd + (stages.map snd).sum ≤ (c.run stages).computeEnd := by
  rw [run_computeEnd]
  exact add_le_add_left (le_add_of_nonneg_right (sum_nonneg (c.stalls_nonneg stages))) _

theorem sum_loads_le (h : ∀ s ∈ stages, 0 ≤ s.2) (hc : c.previousStart ≤ c.computeEnd) :
    c.previousStart + (stages.map fst).sum ≤ (c.run stages).computeEnd := by
  induction stages generalizing c with
  | nil => simpa [run] using hc
  | cons s stages ih =>
    have hst := ih (c := c.advance s) (fun s hs => h s (mem_cons_of_mem _ hs)) (le_add_of_nonneg_right (h s mem_cons_self))
    have hstart : c.previousStart + s.1 ≤ (c.advance s).previousStart :=
      (add_le_add_left (le_max_right _ _) _).trans (le_max_right _ _)
    rw [run_cons, map_cons, sum_cons, ← add_assoc]
    exact (add_le_add_left hstart _).trans hst

/-! ## Shorter loads -/

theorem Le.advance (hc : c.Le c') (hs : s.1 ≤ s'.1 ∧ s.2 ≤ s'.2) : (c.advance s).Le (c'.advance s') := by
  have hld : c.loadEnd s.1 ≤ c'.loadEnd s'.1 := add_le_add (max_le_max hc.copyEnd hc.previousStart) hs.1
  have hstart := max_le_max hc.computeEnd hld
  exact ⟨hld, add_le_add hstart hs.2, hstart⟩

theorem Le.run (hc : c.Le c') {stages' : List (α × α)}
    (h : List.Forall₂ (fun s s' => s.1 ≤ s'.1 ∧ s.2 ≤ s'.2) stages stages') : (c.run stages).Le (c'.run stages') := by
  induction h generalizing c c' with
  | nil => exact hc
  | cons hs _ ih => exact ih (hc.advance hs)

end Clock

end Pipeline
