import ServerlessLLM.Serving.Theorems.Router

/-!
# No call is overtaken

The load balancer keeps a call until it has an instance, and takes the next one from the front of the queue.
-/

namespace ServerlessLLM.Serving.Router.State

open Runs List Option

variable {s s' : State} {kind : Kind} {call : Nat}

/-- The calls that wait, the one of the load balancer first. -/
def line (s : State) : List Nat := s.loadBalancer.held ++ s.requestQueue

theorem line_conclude (call : Nat) (instanceId : String) (answer : Answer) :
    (s.conclude call instanceId answer).line = s.line := by
  have hsa : (s.addRequests instanceId (-1)).line = s.line := by
    unfold addRequests
    split
    · rfl
    · rfl
  exact hsa

/-- A step leaves the line as it is, or puts the newest call behind it, or takes the first one away. -/
theorem line_step {a : Step} (hs : step kind s a = some s') :
    s'.line = s.line ∨ s'.line = s.line ++ [s.calls.length] ∨ ∃ call, s.line = call :: s'.line := by
  by_cases ha : Managing a
  · obtain ⟨-, hque, hlb, -⟩ := calls_of_managing ha hs
    rw [line, line, hlb, hque]
    exact .inl rfl
  cases a with
  | inference action =>
    cases hs
    unfold inference
    split
    · exact .inl rfl
    · exact .inr (.inl (append_assoc _ _ _).symm)
  | take =>
    have htake : s.take = some s' := hs
    unfold take at htake
    split at htake
    · rename_i call rest hlb hque
      cases htake
      rw [line, line, hlb, hque]
      exact .inl rfl
    · cases htake
  | look =>
    have hlook : s.look = some s' := hs
    unfold look at hlook
    split at hlook
    · rename_i call hlb
      cases hlook
      rw [line, line, hlb]
      exact .inl rfl
    · cases hlook
  | assign =>
    obtain ⟨call, instanceOptions, hlb, ⟨index, rfl⟩ | ⟨instanceId, index, -, h', -, -, -, rfl⟩⟩ := assign_cases hs
    · rw [line, line, hlb]
      exact .inl rfl
    · have hline : s.line = call :: s.requestQueue := by
        rw [line, hlb]
        rfl
      exact .inr (.inr ⟨call, hline⟩)
  | lookup call =>
    obtain ⟨action, instanceId, -, ⟨-, rfl⟩ | ⟨-, rfl⟩ | ⟨-, rfl⟩⟩ := lookup_cases hs
    · exact .inl rfl
    · exact .inl (line_conclude _ _ _)
    · exact .inl rfl
  | finish call =>
    obtain ⟨c, instanceId, -, -, rfl⟩ := finish_cases hs
    exact .inl (line_conclude _ _ _)
  | preempt call =>
    obtain ⟨instanceId, -, -, ⟨answer, -, rfl⟩ | ⟨target, rfl⟩⟩ := preempt_cases hs
    · exact .inl rfl
    · exact .inl rfl
  | scale cfg => exact absurd trivial ha
  | adjust cfg => exact absurd trivial ha
  | create cfg instanceId => exact absurd trivial ha
  | started instanceId => exact absurd trivial ha
  | stop => exact absurd trivial ha
  | finishInstance instanceId => exact absurd trivial ha
  | beginMigration sourceInstanceId instanceId => exact absurd trivial ha
  | migrate m => exact absurd trivial ha

/-- The calls wait in the order in which they came. -/
structure InOrder (s : State) : Prop where
  queued : s.Queued
  sorted : s.line.Pairwise (· < ·)

theorem inOrder_step {a : Step} (h : s.InOrder) (hs : step kind s a = some s') : s'.InOrder := by
  refine ⟨queued_step h.queued hs, ?_⟩
  rcases line_step hs with heq | heq | ⟨call, heq⟩
  · exact heq ▸ h.sorted
  · rw [heq, pairwise_append]
    refine ⟨h.sorted, pairwise_singleton _ _, ?_⟩
    intro i hi j hj
    obtain ⟨c, hc, -⟩ := map_eq_some_iff.1 ((h.queued.waiting i).2 hi)
    rw [mem_singleton.1 hj]
    exact (List.getElem?_eq_some_iff.1 hc).1
  · have hsrt := h.sorted
    rw [heq] at hsrt
    exact hsrt.of_cons

/-- In every run: when a step ends the wait of a call, no call that came before it waits. -/
theorem first_come_first_served {as : List Step} (hrun : as.foldlM (step kind) init = some s) {a : Step}
    (hs : step kind s a = some s') {i : Nat} (hi : s.stage? i = some .waiting) (hend : s'.stage? i ≠ some .waiting) {j : Nat}
    (hj : j < i) : s.stage? j ≠ some .waiting := by
  have h : s.InOrder := run_invariant (fun _ _ _ h hs => inOrder_step h hs) ⟨queued_init, Pairwise.nil⟩ hrun
  have hqd := queued_step h.queued hs
  have hin : i ∈ s.line := (h.queued.waiting i).1 hi
  have hout : i ∉ s'.line := fun hmem => hend ((hqd.waiting i).2 hmem)
  intro hwt
  have hjin : j ∈ s.line := (h.queued.waiting j).1 hwt
  rcases line_step hs with heq | heq | ⟨call, heq⟩
  · exact hout (heq ▸ hin)
  · exact hout (heq ▸ mem_append_left _ hin)
  · -- only the first one has left
    have hsrt := h.sorted
    rw [heq] at hin hjin hsrt
    obtain rfl := (mem_cons.1 hin).resolve_right hout
    rcases mem_cons.1 hjin with rfl | hjin
    · exact absurd hj (Nat.lt_irrefl _)
    · have := (pairwise_cons.1 hsrt).1 j hjin
      omega

/-- Two calls, and an instance that is ready for the second one. -/
def queuedRun : List Step :=
  [.inference .generate, .inference .encode, .scale ⟨none, some 1, none, none, none⟩, .adjust oneCall, .create oneCall "i",
    .started "i", .take, .look, .assign, .lookup 0, .finish 0, .take, .look]

theorem first_come_first_served_queuedRun : ∃ s s', queuedRun.foldlM (step .roundRobin) init = some s ∧
    step .roundRobin s .assign = some s' ∧ s.stage? 1 = some .waiting ∧ s'.stage? 1 = some (.allocated "i") ∧
      s.stage? 0 ≠ some .waiting := by
  have hso : (queuedRun.foldlM (step .roundRobin) init).bind (fun s => (step .roundRobin s .assign).map fun s' =>
      (s.stage? 1, s'.stage? 1)) = some (some .waiting, some (.allocated "i")) := by decide +kernel
  obtain ⟨s, hs, hnx⟩ := Option.bind_eq_some_iff.1 hso
  obtain ⟨s', hs', heq⟩ := map_eq_some_iff.1 hnx
  rw [Prod.mk.injEq] at heq
  refine ⟨s, s', hs, hs', heq.1, heq.2, first_come_first_served hs hs' heq.1 ?_ Nat.zero_lt_one⟩
  rw [heq.2]
  exact nofun

end ServerlessLLM.Serving.Router.State
