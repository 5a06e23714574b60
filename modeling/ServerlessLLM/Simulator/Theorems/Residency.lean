import ServerlessLLM.Simulator.Lemmas.MockRuns

/-!
# The residency that the profile is looked up for

The groups of a model that a unified pool holds are its first ones under the prefix policies, and its last ones under `lru`,
before and after every request.
-/

namespace ServerlessLLM

namespace Simulator

namespace MockSegmentMemory

open SegmentMemory Outcome MockSegmentMemory

variable {models : Models} {args : Args} {table : Option PrefixStallTable} {profile : PrefixStallTable} {pipelined : Bool}
  {m m' : MockSegmentMemory}

/-- The groups of a model that the pool holds: from `state` on for `lru`, else those before `state`. -/
def HasResidency (args : Args) (m : MockSegmentMemory) (model : Nat) (t : TensorModel) (state : Nat) : Prop :=
  state ≤ t.groups.length ∧ ∀ g, m.pool.Resident (.weight model g) ↔
    if args.replacementPolicy = .lru then state ≤ g ∧ g < t.groups.length else g < state

/-- The residency of every model is there, and is read. -/
def Profiled (models : Models) (args : Args) (m : MockSegmentMemory) : Prop :=
  ∀ model t, models.byId.get? model = some t →
    ∃ state, m.residencyState models args model = .ok state ∧ HasResidency args m model t state

theorem Steady.profiled (h : m.Steady models args) : m.Profiled models args := by
  intro model t ht
  unfold residencyState HasResidency
  by_cases hp : args.replacementPolicy = .lru
  · simp only [if_pos hp]
    obtain ⟨start, hle, hok, hiff⟩ := h.kept.residentSuffixStart hp ht
    exact ⟨start, hok, hle, hiff⟩
  · simp only [if_neg hp]
    obtain ⟨hok, hiff⟩ := h.kept.residentPrefixCount hp model
    refine ⟨_, hok, ?_, hiff⟩
    by_contra hlt
    obtain ⟨t', ht', hg⟩ := h.kept.known_of_resident ((hiff t.groups.length).2 (not_le.1 hlt))
    rw [ht] at ht'
    rw [Option.some.inj ht'] at hg
    exact Nat.lt_irrefl _ hg

theorem Steady.residencyState (h : m.Steady models args) (model : Nat) :
    Outcome (fun f => f.isInvariant = false)
      (fun state => ∀ t, models.byId.get? model = some t → HasResidency args m model t state)
      (m.residencyState models args model) := by
  cases ht : models.byId.get? model with
  | some t =>
    obtain ⟨state, hok, hres⟩ := h.profiled model t ht
    rw [hok]
    intro t' ht'
    rwa [← Option.some.inj ht']
  | none =>
    unfold MockSegmentMemory.residencyState
    split
    · unfold residentSuffixStart
      rw [ht]
      exact rfl
    · rename_i hp
      rw [(h.kept.residentPrefixCount hp model).1]
      intro t ht
      cases ht

structure RowTrue (models : Models) (args : Args) (profile : PrefixStallTable) (pipelined : Bool) (request : Request)
    (m m' : MockSegmentMemory) (row : ProfileRow) : Prop where
  before : ∀ t, models.byId.get? request.modelId = some t → HasResidency args m request.modelId t row.residencyStateBefore
  after : ∀ t, models.byId.get? request.modelId = some t → HasResidency args m' request.modelId t row.residencyStateAfter
  stall : pipelined = true → ∃ stall, profileStall args profile request row.residencyStateBefore = .ok stall ∧
    row.profileExposedLoadMs = some stall

theorem Steady.executeProfileRequest (h : m.Steady models args) (hpol : args.Profiled) (x : Outlook × Request) :
    Outcome (fun f => f.isInvariant = false)
      (fun r => RowTrue models args profile pipelined x.2 m r.2 r.1 ∧ r.2.Steady models args)
      (m.executeProfileRequest models args table profile pipelined x) := by
  unfold MockSegmentMemory.executeProfileRequest
  refine bind (h.residencyState x.2.modelId) ?_
  intro before hbef
  refine bind (run_requestActions h hpol x) ?_
  rintro ⟨total, m'⟩ h'
  refine bind (liftTable_outcome _) ?_
  intro hotCompute _
  have haft := h'.residencyState x.2.modelId
  cases pipelined with
  | false =>
    refine bind haft ?_
    intro after haft
    exact ⟨⟨hbef, haft, nofun⟩, h'⟩
  | true =>
    have hlu : Outcome (fun f => f.isInvariant = false) (fun _ => True) (profileStall args profile x.2 before) :=
      (liftTable_outcome _).imp fun _ _ => trivial
    change Outcome _ _ ((profileStall args profile x.2 before).map some >>= _)
    cases hsll : profileStall args profile x.2 before with
    | error fault =>
      rw [hsll] at hlu
      exact hlu
    | ok stall =>
      refine bind haft ?_
      intro after haft
      exact ⟨⟨hbef, haft, fun _ => ⟨stall, hsll, rfl⟩⟩, h'⟩

theorem Steady.profileRun (h : m.Steady models args) (hpol : args.Profiled) {requests : List (Outlook × Request)}
    {rows : List ProfileRow} (hrun : m.profileRun models args table profile pipelined requests = .ok (rows, m')) :
    m'.Steady models args := by
  induction requests generalizing m rows with
  | nil =>
    obtain ⟨-, rfl⟩ := Prod.mk.inj (Except.ok.inj hrun)
    exact h
  | cons x requests ih =>
    rw [profileRun] at hrun
    have hx : Outcome _ _ (m.executeProfileRequest models args table profile pipelined x) := h.executeProfileRequest hpol x
    cases hexec : m.executeProfileRequest models args table profile pipelined x with
    | error fault =>
      rw [hexec] at hrun
      cases hrun
    | ok r =>
      obtain ⟨row, m₁⟩ := r
      rw [hexec] at hrun hx
      change (m₁.profileRun models args table profile pipelined requests >>= _) = _ at hrun
      cases hrs : m₁.profileRun models args table profile pipelined requests with
      | error fault =>
        rw [hrs] at hrun
        cases hrun
      | ok r' =>
        obtain ⟨rows', m₂⟩ := r'
        rw [hrs] at hrun
        obtain ⟨-, rfl⟩ := Prod.mk.inj (Except.ok.inj hrun)
        exact ih hx.2 hrs

def modelsOfTwo : Models := modelsFromPrefixBytes ⟨[(0, [0, 4, 6]), (1, [0, 5])], by decide⟩ (by decide)

end MockSegmentMemory

end Simulator

end ServerlessLLM
