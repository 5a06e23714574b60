import ServerlessLLM.Library.Runs
import ServerlessLLM.Serving.VllmBackend

/-!
# Stopping a vLLM backend

`stop` waits while the trace has entries.
-/

namespace ServerlessLLM.Serving.VllmBackend

open Runs List Dict

namespace State

variable {ω : Type} {s s' : State ω}

/-- The engine is there until every call that was accepted has returned its results, and no `delete_request` has failed. -/
def Kept (s : State ω) : Prop :=
  (s.engine = .deleted → ∀ c ∈ s.calls, c.responded = true) ∧ ∀ c ∈ s.calls, ∀ t ∈ c.tasks, t.2.isFailed = false

instance (s : State ω) : Decidable s.Kept := inferInstanceAs (Decidable (_ ∧ _))

/-- Each call that has not returned has a prompt between its first output and the end of its outputs. -/
def Recorded (s : State ω) : Prop := ∀ c ∈ s.calls, c.answer.isNone = true → ∃ t ∈ c.tasks, t.2.isStreaming = true

instance (s : State ω) : Decidable s.Recorded := inferInstanceAs (Decidable (∀ c ∈ s.calls, _ → ∃ t ∈ c.tasks, _))

/-- No two prompts have the same id while they run, and `stop` looks at the trace only while it has each running call. -/
def Fits (s : State ω) : Step ω → Prop
  | .generate (some request) uuid => s.status = .running → (request.requestIds uuid).Nodup ∧
      ∀ c ∈ s.calls, ∀ t ∈ c.tasks, t.2.isOpen = true → t.1 ∉ request.requestIds uuid
  | .stop => s.status.value < BackendStatus.stopping.value → s.Recorded
  | .poll => s.Recorded
  | _ => True

instance : ∀ (s : State ω) (a : Step ω), Decidable (s.Fits a)
  | s, .generate (some request) uuid => inferInstanceAs (Decidable (s.status = .running → (request.requestIds uuid).Nodup ∧
      ∀ c ∈ s.calls, ∀ t ∈ c.tasks, t.2.isOpen = true → t.1 ∉ request.requestIds uuid))
  | _, .generate none _ => inferInstanceAs (Decidable True)
  | s, .stop => inferInstanceAs (Decidable (s.status.value < BackendStatus.stopping.value → s.Recorded))
  | s, .poll => inferInstanceAs (Decidable s.Recorded)
  | _, .initBackend => inferInstanceAs (Decidable True)
  | _, .output _ _ _ => inferInstanceAs (Decidable True)
  | _, .finish _ _ => inferInstanceAs (Decidable True)
  | _, .gathered _ => inferInstanceAs (Decidable True)

/-! ## The prompts -/

theorem task?_setTask {call prompt : Nat} {old : String × Task ω} (h : s.task? call prompt = some old) (t : String × Task ω)
    (call' prompt' : Nat) :
    (s.setTask call prompt t).task? call' prompt' = if call' = call ∧
      prompt' = prompt then some t else s.task? call' prompt' := by
  obtain ⟨c, hc, hold⟩ := Option.bind_eq_some_iff.1 h
  unfold task? setTask
  simp only [getElem?_modify]
  by_cases hca : call' = call
  · subst hca
    by_cases hprm : prompt' = prompt
    · subst hprm
      have hlt : prompt' < c.tasks.length := (List.getElem?_eq_some_iff.1 hold).1
      simp [hc, hlt]
    · simp [hc, hprm, getElem?_set_ne (Ne.symm hprm)]
  · cases hget : s.calls[call']? with
    | none => simp [hca]
    | some c' => simp [hca, Ne.symm hca]

theorem exists_task? {c : Call ω} {t : String × Task ω} (hc : c ∈ s.calls) (ht : t ∈ c.tasks) :
    ∃ call prompt, s.task? call prompt = some t := by
  obtain ⟨call, hca⟩ := getElem?_of_mem hc
  obtain ⟨prompt, hprm⟩ := getElem?_of_mem ht
  exact ⟨call, prompt, Option.bind_eq_some_iff.2 ⟨c, hca, hprm⟩⟩

theorem mem_of_task? {call prompt : Nat} {t : String × Task ω} (h : s.task? call prompt = some t) :
    ∃ c ∈ s.calls, t ∈ c.tasks := by
  obtain ⟨c, hc, ht⟩ := Option.bind_eq_some_iff.1 h
  exact ⟨c, mem_of_getElem? hc, mem_of_getElem? ht⟩

theorem mem_setTask {call prompt : Nat} {t : String × Task ω} {c : Call ω} (h : c ∈ (s.setTask call prompt t).calls) :
    c ∈ s.calls ∨ ∃ c', s.calls[call]? = some c' ∧ c = { c' with tasks := c'.tasks.set prompt t } := by
  obtain ⟨i, hi⟩ := getElem?_of_mem h
  unfold setTask at hi
  simp only [getElem?_modify, Option.map_eq_map, Option.map_eq_some_iff] at hi
  obtain ⟨c', hc', rfl⟩ := hi
  by_cases hca : call = i
  · subst hca
    exact .inr ⟨c', hc', if_pos rfl⟩
  · rw [if_neg hca]
    exact .inl (mem_of_getElem? hc')

/-! ## The invariant -/

/-- A prompt that is streaming has its entry, the prompts that run have ids of their own, a call that has returned has its
results and no prompt that runs, and there is an engine as long as calls are accepted. -/
structure Traced (s : State ω) : Prop where
  entry : ∀ call prompt id t, s.task? call prompt = some (id, t) → t.isStreaming = true → id ∈ s.requestTrace.keys
  apart : ∀ call prompt call' prompt' id t t', s.task? call prompt = some (id, t) → s.task? call' prompt' = some (id, t') →
    t.isOpen = true → t'.isOpen = true → call = call' ∧ prompt = prompt'
  closed : ∀ c ∈ s.calls, c.responded = true → ∀ t ∈ c.tasks, t.2.isOpen = false
  answered : ∀ c ∈ s.calls, c.answer.isNone = true ∨ c.responded = true
  accepting : s.status.value < BackendStatus.stopping.value → s.engine ≠ .deleted

theorem isOpen_of_isStreaming {t : Task ω} (h : t.isStreaming = true) : t.isOpen = true := by
  cases t with
  | streaming o => rfl
  | waiting => cases h
  | done o => cases h
  | failed => cases h

section SetTask

variable {call prompt : Nat} {id : String} {old : Task ω}

theorem Traced.not_responded (h : s.Traced) (hold : s.task? call prompt = some (id, old))
    (hopen : old.isOpen = true) {c : Call ω}
    (hc : s.calls[call]? = some c) : c.responded = false := by
  obtain ⟨c', hc', ht⟩ := Option.bind_eq_some_iff.1 hold
  rw [hc] at hc'
  cases hc'
  by_contra hne
  have hcl := h.closed c (mem_of_getElem? hc) (by simpa using hne) _ (mem_of_getElem? ht)
  rw [hopen] at hcl
  cases hcl

theorem Traced.setTask (h : s.Traced) (hk : s.Kept) (hold : s.task? call prompt = some (id, old)) (hopen : old.isOpen = true)
    {t : Task ω} (hfl : t.isFailed = false) {trace : Dict String ω}
    (htrace : ∀ call' prompt' id' t', (s.setTask call prompt (id, t)).task? call' prompt' = some (id', t') →
      t'.isStreaming = true → id' ∈ trace.keys) :
    ({ s.setTask call prompt (id, t) with requestTrace := trace } : State ω).Traced ∧
      ({ s.setTask call prompt (id, t) with requestTrace := trace } : State ω).Kept := by
  have htk : ∀ call' prompt' id' t', (s.setTask call prompt (id, t)).task? call' prompt' = some (id', t') →
      t'.isOpen = true → ∃ t'', s.task? call' prompt' = some (id', t'') ∧ t''.isOpen = true := by
    intro call' prompt' id' t' h' hopen'
    rw [task?_setTask hold] at h'
    split at h'
    · rename_i heq
      obtain ⟨rfl, rfl⟩ := heq
      cases h'
      exact ⟨old, hold, hopen⟩
    · exact ⟨t', h', hopen'⟩
  refine ⟨⟨htrace, ?_, ?_, ?_, h.accepting⟩, ?_, ?_⟩
  · intro call₁ prompt₁ call₂ prompt₂ id' t₁ t₂ h₁ h₂ ho₁ ho₂
    obtain ⟨t₁', h₁', ho₁'⟩ := htk call₁ prompt₁ id' t₁ h₁ ho₁
    obtain ⟨t₂', h₂', ho₂'⟩ := htk call₂ prompt₂ id' t₂ h₂ ho₂
    exact h.apart call₁ prompt₁ call₂ prompt₂ id' t₁' t₂' h₁' h₂' ho₁' ho₂'
  · intro c hc hr
    rcases mem_setTask hc with hc | ⟨c', hc', rfl⟩
    · exact h.closed c hc hr
    · have hnot : c'.responded = true := hr
      rw [h.not_responded hold hopen hc'] at hnot
      cases hnot
  · intro c hc
    rcases mem_setTask hc with hc | ⟨c', hc', rfl⟩
    · exact h.answered c hc
    · exact h.answered c' (mem_of_getElem? hc')
  · intro hengine c hc
    rcases mem_setTask hc with hc | ⟨c', hc', rfl⟩
    · exact hk.1 hengine c hc
    · exact hk.1 hengine c' (mem_of_getElem? hc')
  · intro c hc t' ht'
    rcases mem_setTask hc with hc | ⟨c', hc', rfl⟩
    · exact hk.2 c hc t' ht'
    · rcases mem_or_eq_of_mem_set ht' with ht' | rfl
      · exact hk.2 c' (mem_of_getElem? hc') t' ht'
      · exact hfl

end SetTask

/-! ## The steps -/

theorem Traced.of_same (h : s.Traced) (hcls : s'.calls = s.calls) (htrace : s'.requestTrace = s.requestTrace)
    (haccepting : s'.status.value < BackendStatus.stopping.value → s'.engine ≠ .deleted) : s'.Traced := by
  obtain ⟨status', engine', trace', calls', stopper'⟩ := s'
  cases hcls
  cases htrace
  exact ⟨h.entry, h.apart, h.closed, h.answered, haccepting⟩

theorem traced_initBackend (h : s.Traced) (hk : s.Kept) : s.initBackend.Traced ∧ s.initBackend.Kept := by
  unfold initBackend
  split
  · exact ⟨h.of_same rfl rfl fun _ => nofun, nofun, hk.2⟩
  · exact ⟨h, hk⟩

theorem traced_generate {request : Option RequestData} {uuid : Nat → String} (h : s.Traced) (hk : s.Kept)
    (hft : s.Fits (.generate request uuid)) : (s.generate request uuid).Traced ∧ (s.generate request uuid).Kept := by
  unfold generate
  split
  · exact ⟨h, hk⟩
  · rename_i hsts
    have hrun : s.status = .running := not_not.1 hsts
    cases request with
    | none => exact ⟨h, hk⟩
    | some request =>
      obtain ⟨hnd, hnew⟩ := hft hrun
      set call : Call ω := ⟨request.model.getD "vllm-model", (request.requestIds uuid).map fun id =>
        (id, .waiting), none⟩ with hca
      have hengine : s.engine ≠ .deleted := h.accepting (by rw [hrun]; decide)
      have hmem : ∀ t ∈ call.tasks, t.1 ∈ request.requestIds uuid ∧ t.2 = .waiting := by
        rintro t ht
        obtain ⟨id, hid, rfl⟩ := mem_map.1 ht
        exact ⟨hid, rfl⟩
      -- a prompt is one of an earlier call, or of the new one
      have htk : ∀ i j t, ({ s with calls := s.calls ++ [call] } : State ω).task? i j = some t →
          s.task? i j = some t ∨ i = s.calls.length ∧ call.tasks[j]? = some t := by
        intro i j t ht
        obtain ⟨c, hc, ht⟩ := Option.bind_eq_some_iff.1 ht
        rw [getElem?_append] at hc
        split at hc
        · exact .inl (Option.bind_eq_some_iff.2 ⟨c, hc, ht⟩)
        · rw [getElem?_singleton] at hc
          split at hc
          · cases hc
            exact .inr ⟨by omega, ht⟩
          · cases hc
      have hold : ∀ i j id t, s.task? i j = some (id, t) → t.isOpen = true → id ∉ request.requestIds uuid := by
        intro i j id t ht hopen
        obtain ⟨c, hc, hmem⟩ := mem_of_task? ht
        exact hnew c hc _ hmem hopen
      refine ⟨⟨?_, ?_, ?_, ?_, h.accepting⟩, fun he => absurd he hengine, ?_⟩
      · intro i j id t ht hstr
        rcases htk i j _ ht with ht | ⟨-, ht⟩
        · exact h.entry i j id t ht hstr
        · have hwt : t = .waiting := (hmem _ (mem_of_getElem? ht)).2
          rw [hwt] at hstr
          cases hstr
      · intro i j i' j' id t t' ht ht' hopen hopen'
        rcases htk i j _ ht with ht | ⟨hi, ht⟩
        · rcases htk i' j' _ ht' with ht' | ⟨-, ht'⟩
          · exact h.apart i j i' j' id t t' ht ht' hopen hopen'
          · exact absurd (hmem _ (mem_of_getElem? ht')).1 (hold i j id t ht hopen)
        · rcases htk i' j' _ ht' with ht' | ⟨hi', ht'⟩
          · exact absurd (hmem _ (mem_of_getElem? ht)).1 (hold i' j' id t' ht' hopen')
          · rw [hca, getElem?_map] at ht ht'
            obtain ⟨k, hk, heq⟩ := Option.map_eq_some_iff.1 ht
            obtain ⟨k', hk', heq'⟩ := Option.map_eq_some_iff.1 ht'
            cases heq
            cases heq'
            obtain ⟨hlt, hj⟩ := List.getElem?_eq_some_iff.1 hk
            obtain ⟨hlt', hj'⟩ := List.getElem?_eq_some_iff.1 hk'
            exact ⟨hi.trans hi'.symm, (hnd.getElem_inj_iff).1 (hj.trans hj'.symm)⟩
      · intro c hc hr
        rcases mem_append.1 hc with hc | hc
        · exact h.closed c hc hr
        · rw [mem_singleton.1 hc] at hr
          cases hr
      · intro c hc
        rcases mem_append.1 hc with hc | hc
        · exact h.answered c hc
        · rw [mem_singleton.1 hc]
          exact .inl rfl
      · intro c hc t ht
        rcases mem_append.1 hc with hc | hc
        · exact hk.2 c hc t ht
        · rw [mem_singleton.1 hc] at ht
          rw [(hmem t ht).2]
          rfl

theorem traced_output {call prompt : Nat} {o : ω} (h : s.Traced) (hk : s.Kept) (hs : s.output call prompt o = some s') :
    s'.Traced ∧ s'.Kept := by
  unfold output at hs
  split at hs
  · rename_i id t hold
    split at hs
    · rename_i hopen
      cases hs
      refine h.setTask hk hold hopen rfl ?_
      intro call' prompt' id' t' ht hstr
      rw [task?_setTask hold] at ht
      rw [mem_keys_set]
      split at ht
      · cases ht
        exact .inl rfl
      · exact .inr (h.entry call' prompt' id' t' ht hstr)
    · cases hs
  · cases hs

theorem traced_finish {call prompt : Nat} (h : s.Traced) (hk : s.Kept) (hs : s.finish false call prompt = some s') :
    s'.Traced ∧ s'.Kept := by
  unfold finish at hs
  split at hs
  · rename_i id o hold
    have hentry := h.entry call prompt id _ hold rfl
    rw [if_neg Bool.false_ne_true, if_pos hentry] at hs
    cases hs
    refine h.setTask hk hold rfl rfl ?_
    intro call' prompt' id' t' ht hstr
    rw [task?_setTask hold] at ht
    split at ht
    · cases ht
      cases hstr
    · rename_i hne
      -- another prompt with this id would run, too
      have hid : id' ≠ id := by
        rintro rfl
        obtain ⟨h₁, h₂⟩ := h.apart call' prompt' call prompt id' t' _ ht hold (isOpen_of_isStreaming hstr) rfl
        exact hne ⟨h₁, h₂⟩
      obtain ⟨o', ho'⟩ := mem_keys_iff.1 (h.entry call' prompt' id' t' ht hstr)
      refine mem_keys_iff.2 ⟨o', ?_⟩
      rw [get?_erase, if_neg hid]
      exact ho'
  · cases hs

theorem traced_gathered {call : Nat} (h : s.Traced) (hk : s.Kept) (hs : s.gathered call = some s') : s'.Traced ∧ s'.Kept := by
  unfold gathered at hs
  split at hs
  · rename_i c hc
    have hmem := mem_of_getElem? hc
    split at hs
    · rename_i answer hno hgather
      cases hs
      unfold gather? at hgather
      have hany : ¬ (c.tasks.any fun t => t.2.isFailed) = true := by
        rw [any_eq_true]
        rintro ⟨t, ht, hfl⟩
        rw [hk.2 c hmem t ht] at hfl
        cases hfl
      rw [if_neg hany] at hgather
      simp only at hgather
      split at hgather
      · rename_i hall
        cases hgather
        have hdone : ∀ t ∈ c.tasks, t.2.isOpen = false := by
          intro t ht
          have hso := filterMap_length_eq_length.1 hall t ht
          obtain ⟨id, t⟩ := t
          cases t with
          | done o => rfl
          | waiting => cases hso
          | streaming o => cases hso
          | failed => cases hso
        set c' : Call ω := { c with answer := some (.response _) } with hc'
        have htk : ∀ i j, ({ s with calls := s.calls.set call c' } : State ω).task? i j = s.task? i j := by
          intro i j
          unfold task?
          simp only [getElem?_set]
          split
          · rename_i hi
            subst hi
            have hlt := (List.getElem?_eq_some_iff.1 hc).1
            rw [if_pos hlt, hc]
            rfl
          · rfl
        refine ⟨⟨?_, ?_, ?_, ?_, h.accepting⟩, ?_, ?_⟩
        · intro i j id t ht
          rw [htk] at ht
          exact h.entry i j id t ht
        · intro i j i' j' id t t' ht ht'
          rw [htk] at ht ht'
          exact h.apart i j i' j' id t t' ht ht'
        · intro c₁ hc₁ hr
          rcases mem_or_eq_of_mem_set hc₁ with hc₁ | rfl
          · exact h.closed c₁ hc₁ hr
          · exact hdone
        · intro c₁ hc₁
          rcases mem_or_eq_of_mem_set hc₁ with hc₁ | rfl
          · exact h.answered c₁ hc₁
          · exact .inr rfl
        · intro hengine c₁ hc₁
          rcases mem_or_eq_of_mem_set hc₁ with hc₁ | rfl
          · exact hk.1 hengine c₁ hc₁
          · rfl
        · intro c₁ hc₁
          rcases mem_or_eq_of_mem_set hc₁ with hc₁ | rfl
          · exact hk.2 c₁ hc₁
          · exact hk.2 c hmem
      · cases hgather
    · cases hs
  · cases hs

theorem traced_drain (h : s.Traced) (hk : s.Kept) (hrec : s.Recorded) : s.drain.Traced ∧ s.drain.Kept := by
  unfold drain
  split
  · exact ⟨h.of_same rfl rfl h.accepting, hk⟩
  · rename_i hcnt
    have hemp : s.requestTrace.keys = [] := by
      unfold Dict.keys
      rw [length_eq_zero_iff.1 (Nat.eq_zero_of_not_pos hcnt)]
      rfl
    have hrsp : ∀ c ∈ s.calls, c.responded = true := by
      intro c hc
      rcases h.answered c hc with hno | hrsp
      · obtain ⟨t, ht, hstr⟩ := hrec c hc hno
        obtain ⟨call, prompt, htk⟩ := exists_task? hc ht
        have hentry := h.entry call prompt t.1 t.2 htk hstr
        rw [hemp] at hentry
        cases hentry
      · exact hrsp
    unfold shutdown
    split
    · exact ⟨h.of_same rfl rfl h.accepting, hk⟩
    · have hdeleting : ¬ BackendStatus.deleting.value < BackendStatus.stopping.value := by decide
      exact ⟨h.of_same rfl rfl fun hlt => absurd hlt hdeleting, fun _ => hrsp, hk.2⟩

theorem traced_step {a : Step ω} (h : s.Traced ∧ s.Kept) (hft : s.Fits a) (hs : step false s a = some s') :
    s'.Traced ∧ s'.Kept := by
  obtain ⟨h, hk⟩ := h
  cases a with
  | initBackend =>
    cases hs
    exact traced_initBackend h hk
  | generate request uuid =>
    cases hs
    exact traced_generate h hk hft
  | output call prompt o => exact traced_output h hk hs
  | finish call prompt => exact traced_finish h hk hs
  | gathered call => exact traced_gathered h hk hs
  | stop =>
    cases hs
    unfold stop
    split
    · exact ⟨h, hk⟩
    · rename_i hlt
      have hstopping : ({ s with status := .stopping } : State ω).Traced :=
        h.of_same rfl rfl fun hlt' => absurd hlt' (Nat.lt_irrefl _)
      exact traced_drain hstopping hk (hft (Nat.lt_of_not_ge hlt))
  | poll =>
    have hpoll : (if s.stopper = .sleeping then some s.drain else none) = some s' := hs
    split at hpoll
    · cases hpoll
      exact traced_drain h hk hft
    · cases hpoll

theorem traced_init : (init : State ω).Traced ∧ (init : State ω).Kept := by
  refine ⟨⟨?_, ?_, ?_, ?_, ?_⟩, nofun, nofun⟩
  · intro call prompt id t ht
    cases ht
  · intro call prompt call' prompt' id t t' ht
    cases ht
  · exact nofun
  · exact nofun
  · exact fun _ => nofun

/-- In every run in which no two running prompts share an id, and `stop` looks at the trace only while it has each running call,
the engine is kept until all calls have returned their results, and no entry is missing when it is deleted. -/
theorem kept_throughout {as : List (Step ω)} (h : EachStep (step false) Fits init as) :
    Throughout (step false) Kept (init : State ω) as :=
  (throughout_of_eachStep (fun _ _ _ h hft hs => traced_step h hft hs) traced_init h).mono fun _ h => h.2

def promptsOnly (prompts : List String) (requestId : Option String) : RequestData := ⟨none, [], prompts, requestId⟩

/-- Two prompts, of which one has ended when `stop` comes; it waits for the other one. -/
def drainedRun : List (Step Nat) :=
  [.initBackend, .generate (some (promptsOnly ["a", "b"] none)) fun i => toString i, .output 0 0 1, .output 0 1 1, .finish 0 0,
    .stop, .output 0 1 2, .finish 0 1, .gathered 0, .poll]

theorem kept_throughout_drainedRun : EachStep (step false) Fits (init : State Nat) drainedRun ∧
    Throughout (step false) Kept (init : State Nat) drainedRun :=
  have h : EachStep (step false) Fits (init : State Nat) drainedRun := by decide +kernel
  ⟨h, kept_throughout h⟩

/-- `stop` comes before the first output. -/
def earlyStop : List (Step Nat) := [.initBackend, .generate (some (promptsOnly ["a"] none)) fun i => toString i, .stop]

/-- Two prompts of one request share the id that came with it. -/
def sharedId : List (Step Nat) :=
  [.initBackend, .generate (some (promptsOnly ["a", "b"] (some "r"))) fun i => toString i, .output 0 0 1, .output 0 1 1,
    .finish 0 0, .finish 0 1]

/-- The engine is shut down under a call that waits for its first output, and of two prompts with one id the second one fails to
delete the entry. -/
theorem not_kept_earlyStop : ¬ Throughout (step false) Kept (init : State Nat) earlyStop ∧
    ¬ Throughout (step false) Kept (init : State Nat) sharedId := by
  decide +kernel

end State

end ServerlessLLM.Serving.VllmBackend
