import ServerlessLLM.Library.Runs
import ServerlessLLM.Serving.LiveMigration

/-!
# The budget of a request that is migrated

A preempted request is resumed from its own output: the sequences of the target are at most one token ahead of what the source
had when the migration looked at it, and the source has had another token since.
-/

namespace ServerlessLLM.Serving.LiveMigration

open Runs List Option State

variable {tokenize : String → List Token} {request : RequestData} {migrationDelta : Nat}

/-- A result that has the prompt, the tokens that were generated before and at most the budget of completed tokens. -/
def Result.Within (tokenize : String → List Token) (request : RequestData) (before : List Token) : Result → Prop
  | .response r => tokenize request.prompt <+: r.outputs ∧ before <+: r.outputs ∧
      r.outputs.length ≤ (tokenize request.prompt).length + request.budget
  | .missingPrompt => request.prompt = ""
  | .attributeError => False

namespace State

variable {s s' : State}

/-- What the source had generated when it was preempted. -/
def before (s : State) : List Token :=
  match s.source with
  | .preempted currentOutput _ => currentOutput
  | _ => []

def preempted (s : State) : Bool :=
  match s.source with
  | .preempted _ _ => true
  | _ => false

/-- Whatever the model of the target appends, the result of `inference` is within the budget. -/
def Budgeted (tokenize : String → List Token) (request : RequestData) (s : State) : Prop :=
  ∀ appended : List Token, appended.length ≤ s.maxNewTokens request → ∀ result ∈ s.inference tokenize request appended,
    result.Within tokenize request s.before

/-- What holds in every state. -/
structure Consistent (tokenize : String → List Token) (request : RequestData) (s : State) : Prop where
  rounds : s.currentTokens.isSome = true ↔ 0 < s.rounds
  begun : s.source = .begun → s.currentTokens = none
  generating : ∀ intermediate, s.source = .generating intermediate → tokenize request.prompt <+: intermediate ∧
    intermediate.length ≤ (tokenize request.prompt).length + request.budget ∧
      ∀ current ∈ s.currentTokens, current.length ≤ intermediate.length + 1
  preempted : ∀ currentOutput completedTokens, s.source = .preempted currentOutput completedTokens →
    tokenize request.prompt <+: currentOutput ∧ currentOutput.length = (tokenize request.prompt).length + completedTokens ∧
      completedTokens ≤ request.budget ∧ (∀ current ∈ s.currentTokens, current.length ≤ currentOutput.length ∧
        0 < completedTokens) ∧
        s.migration = .shutdown
  returned : ∀ result, s.source = .returned result → result.Within tokenize request []

theorem consistent_init : (init request).Consistent tokenize request := by
  unfold init
  constructor
  case rounds => simp
  case begun => exact fun _ => rfl
  case generating =>
    intro intermediate h
    simp only at h
    split at h
    · cases h
    · cases h
  case preempted =>
    intro currentOutput completedTokens h
    simp only at h
    split at h
    · cases h
    · cases h
  case returned =>
    intro result h
    simp only at h
    split at h
    · rename_i hprm
      cases h
      exact hprm
    · cases h

theorem consistent_putEnd (h : s.Consistent tokenize request) {intermediate : List Token}
    (hprm : tokenize request.prompt <+: intermediate)
    (hlen : intermediate.length ≤ (tokenize request.prompt).length + request.budget)
    (hcur : ∀ current ∈ s.currentTokens, current.length ≤ intermediate.length ∧
      (tokenize request.prompt).length < intermediate.length) :
    (s.putEnd tokenize request intermediate).Consistent tokenize request := by
  have hle := hprm.length_le
  unfold putEnd
  split
  · rename_i hmigration
    refine ⟨h.rounds, nofun, nofun, ?_, nofun⟩
    intro currentOutput completedTokens heq
    cases heq
    refine ⟨hprm, by omega, by omega, ?_, hmigration⟩
    intro current hmem
    obtain ⟨hlt, hlt'⟩ := hcur current hmem
    exact ⟨hlt, by omega⟩
  · refine ⟨h.rounds, nofun, ?_, nofun, nofun⟩
    intro intermediate' heq
    cases heq
    exact ⟨hprm, hlen, fun current hmem => Nat.le_succ_of_le (hcur current hmem).1⟩

theorem consistent_migrate (h : s.Consistent tokenize request) (hlooping : s.migration ≠ .shutdown) (nPreviousTokens : Nat)
    {appended : List Token} (happended : appended.length ≤ 1) :
    (s.migrate migrationDelta nPreviousTokens appended).Consistent tokenize request := by
  have hnot : ∀ currentOutput completedTokens, s.source ≠ .preempted currentOutput completedTokens :=
    fun currentOutput completedTokens heq => hlooping (h.preempted currentOutput completedTokens heq).2.2.2.2
  have hmigrated : ({ s with migration := .migrated } : State).Consistent tokenize request :=
    ⟨h.rounds, h.begun, h.generating, fun c n heq => absurd heq (hnot c n), h.returned⟩
  unfold migrate
  split
  · exact hmigrated
  · rename_i current hcur
    split
    · exact hmigrated
    · have hsrc : s.source = .generating current := by
        unfold getCurrentTokens at hcur
        rw [if_neg hlooping] at hcur
        split at hcur
        · rename_i intermediate hsrc
          cases hcur
          exact hsrc
        · cases hcur
      refine ⟨by simp, ?_, ?_, fun c n heq => absurd heq (hnot c n), h.returned⟩
      · intro hbegun
        cases hsrc.symm.trans hbegun
      · intro intermediate heq
        cases hsrc.symm.trans heq
        obtain ⟨hprm, hlen, -⟩ := h.generating current hsrc
        refine ⟨hprm, hlen, ?_⟩
        rintro _ ⟨⟩
        rw [length_append]
        omega

theorem consistent_step {a : Step} (h : s.Consistent tokenize request)
    (hs : step tokenize request migrationDelta s a = some s') :
    s'.Consistent tokenize request := by
  cases a with
  | putPrompt =>
    simp only [step] at hs
    split at hs
    · rename_i hbegun
      cases hs
      refine consistent_putEnd h (prefix_refl _) (Nat.le_add_right _ _) ?_
      intro current hmem
      rw [h.begun hbegun] at hmem
      cases hmem
    · cases hs
  | put value =>
    simp only [step] at hs
    split at hs
    · rename_i intermediate hsrc
      split at hs
      · rename_i hlt
        cases hs
        obtain ⟨hprm, -, hcur⟩ := h.generating intermediate hsrc
        have hle := hprm.length_le
        have hlen : (intermediate ++ [value]).length = intermediate.length + 1 := by simp
        refine consistent_putEnd h (hprm.trans (prefix_append _ _)) (by omega) ?_
        intro current hmem
        have hbd := hcur current hmem
        exact ⟨by omega, by omega⟩
      · cases hs
    · cases hs
  | finish =>
    simp only [step] at hs
    split at hs
    · rename_i intermediate hsrc
      cases hs
      obtain ⟨hprm, hlen, -⟩ := h.generating intermediate hsrc
      refine ⟨h.rounds, nofun, nofun, nofun, ?_⟩
      rintro result ⟨⟩
      exact ⟨hprm, nil_prefix, hlen⟩
    · cases hs
  | migrate appended =>
    simp only [step] at hs
    split at hs
    · rename_i nPreviousTokens hlooping
      split at hs
      · rename_i happended
        cases hs
        exact consistent_migrate h (by rw [hlooping]; exact nofun) nPreviousTokens happended
      · cases hs
    · cases hs
  | shutdown =>
    simp only [step] at hs
    split at hs
    · cases hs
      refine ⟨h.rounds, h.begun, h.generating, ?_, h.returned⟩
      intro currentOutput completedTokens heq
      obtain ⟨hprm, hlen, hbudget, hcur, -⟩ := h.preempted currentOutput completedTokens heq
      exact ⟨hprm, hlen, hbudget, hcur, rfl⟩
    · cases hs

/-- In every run, the result of a request is within its budget, whatever the target appends, exactly when the request is not
preempted, or has a round of `resume_kv_cache` and brings its `max_tokens`. -/
theorem budgeted_iff {as : List Step} (hrun : as.foldlM (step tokenize request migrationDelta) (init request) = some s) :
    s.Budgeted tokenize request ↔ (s.preempted = true → 0 < s.rounds ∧ request.maxTokens.isSome = true) := by
  have h : s.Consistent tokenize request :=
    run_invariant (I := Consistent tokenize request) (fun _ _ _ h hs => consistent_step h hs) consistent_init hrun
  unfold Budgeted preempted inference maxNewTokens before
  cases hsrc : s.source with
  | begun => simp
  | generating intermediate => simp
  | returned result =>
    refine iff_of_true ?_ nofun
    intro appended _ r hr
    cases hr
    exact h.returned result hsrc
  | preempted currentOutput completedTokens =>
    obtain ⟨hprm, hlen, hbudget, hcur, -⟩ := h.preempted currentOutput completedTokens hsrc
    cases htok : s.currentTokens with
    | none =>
      -- `current_tokens` is not set, and there was no round
      have hrnd : ¬ 0 < s.rounds := by rw [← h.rounds, htok]; exact nofun
      refine iff_of_false ?_ fun himp => hrnd (himp rfl).1
      intro hall
      have hno : s.resumeFrom currentOutput = none := by
        unfold resumeFrom
        rw [htok]
        rfl
      have hwth := hall [] (Nat.zero_le _) .attributeError (by simp [hno])
      exact hwth
    | some current =>
      obtain ⟨hle, hpos⟩ := hcur current htok
      have hrnd : 0 < s.rounds := by rw [← h.rounds, htok]; rfl
      have hstart : s.resumeFrom currentOutput = some currentOutput := by
        unfold resumeFrom
        rw [htok, map_some, if_neg (Nat.not_lt.2 hle)]
      simp only [hstart, mem_def, Option.some.injEq, forall_eq', true_implies]
      cases hmax : request.maxTokens with
      | none =>
        -- the target has a budget of its own
        refine iff_of_false ?_ fun himp => Bool.false_ne_true himp.2
        intro hall
        have hwth := (hall (List.replicate 10 0) (by simp [resumed, RequestData.budget, hmax])).2.2
        simp only [respond, length_append, length_replicate, RequestData.budget, hmax, getD_none] at hwth
        omega
      | some n =>
        refine iff_of_true (fun appended happended => ⟨?_, ?_, ?_⟩) ⟨hrnd, rfl⟩
        · exact hprm.trans (prefix_append _ _)
        · exact prefix_append _ _
        · simp only [resumed, RequestData.budget, hmax, map_some, getD_some, respond, length_append] at *
          omega

def threeTokens (_prompt : String) : List Token := [1, 2, 3]

def promptOnly (maxTokens : Option Nat) : RequestData := ⟨none, "p", maxTokens⟩

/-- The migration has a round after the prompt, and the source is preempted with its second token. -/
def oneRound : List Step := [.putPrompt, .migrate [4], .put 4, .migrate [], .shutdown, .put 5]

/-- The migration finds no more than `migration_delta` tokens, and has no round. -/
def noRound : List Step := [.putPrompt, .migrate [], .shutdown, .put 4]

def afterOneRound : State := ⟨.preempted [1, 2, 3, 4, 5] 2, .shutdown, some [1, 2, 3, 4], 1⟩

def afterNoRound : State := ⟨.preempted [1, 2, 3, 4] 1, .shutdown, none, 0⟩

theorem budgeted_iff_oneRound : afterOneRound.Budgeted threeTokens (promptOnly (some 4)) ↔
    (afterOneRound.preempted = true → 0 < afterOneRound.rounds ∧ (promptOnly (some 4)).maxTokens.isSome = true) :=
  have hrun : oneRound.foldlM (step threeTokens (promptOnly (some 4)) 2) (init (promptOnly (some 4))) =
    some afterOneRound := by decide
  budgeted_iff hrun

/-- Without `max_tokens` the target may append its own ten tokens to the two of the source; without a round it has no
`current_tokens` to resume from. -/
theorem not_budgeted_afterNoRound :
    (oneRound.foldlM (step threeTokens (promptOnly none) 2) (init (promptOnly none)) = some afterOneRound ∧
      ¬ afterOneRound.Budgeted threeTokens (promptOnly none)) ∧
    (noRound.foldlM (step threeTokens (promptOnly (some 4)) 20) (init (promptOnly (some 4))) = some afterNoRound ∧
      ¬ afterNoRound.Budgeted threeTokens (promptOnly (some 4))) := by
  refine ⟨⟨by decide, ?_⟩, ⟨by decide, ?_⟩⟩
  · intro h
    have hlen := (h (List.replicate 10 0) (by decide) _ rfl).2.2
    exact absurd hlen (by decide)
  · intro h
    exact h [] (by decide) .attributeError rfl

end State

end ServerlessLLM.Serving.LiveMigration
