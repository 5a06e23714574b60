import ServerlessLLM.Host.Lemmas.PoolRuns
import ServerlessLLM.Host.Lemmas.SectionStates

/-!
# Copies over runs

At most one task at a time takes a model through `ToHost`, and every `ToGpu` has a replica of its own. A step that meets its
guard keeps what the other tasks rely on.
-/

namespace ServerlessLLM

open Option Dict Model

/-- The tasks that take a model through `ToHost`. -/
def Pc.Loader : Pc → Prop
  | .reading _ _ _ => True
  | .failing _ _ => True
  | _ => False

def Pc.At (k : Nat) (m : Model) : Pc → Prop
  | .reading id _ _ => m.state = .loading ∧ ∀ pinned, m.pinnedMem = some pinned → pinned.id = id
  | .failing r rest => m.state = .interrupted ∧ m.Waiting (some (r, rest))
  | .running _ r => ∃ replica, m.replicas[r]? = some replica ∧ replica.task = k ∧ replica.Active
  | _ => True

theorem Pc.At.frame {k k' : Nat} {m m' : Model} {pc : Pc} (h : pc.At k' m) (hne : k' ≠ k) (hoth : Model.Others k m m')
    (hquiet : pc.Loader → Quiet m m') : pc.At k' m' := by
  cases pc with
  | reading id left error =>
    obtain ⟨hsta, hpin⟩ := (hquiet trivial).state (.inl h.1)
    refine ⟨hsta.trans h.1, fun pinned hp => h.2 pinned ?_⟩
    rwa [hpin] at hp
  | failing r rest =>
    obtain ⟨hsta, -⟩ := (hquiet trivial).state (.inr h.1)
    refine ⟨hsta.trans h.1, ?_⟩
    intro r' replica hr hact
    obtain ⟨replica', hr', hact'⟩ := (hquiet trivial).active h.1 r' replica hr hact
    exact h.2 r' replica' hr' hact'
  | running uuid r =>
    obtain ⟨replica, hr, htk, hact⟩ := h
    obtain ⟨replica', hr', htk', hact'⟩ := hoth r replica hr (by rwa [htk]) hact
    exact ⟨replica', hr', htk'.trans htk, hact'⟩
  | _ => trivial

theorem Pc.At.state {k : Nat} {m : Model} {pc : Pc} (h : pc.At k m) (hldr : pc.Loader) :
    m.state = .loading ∨ m.state = .interrupted := by
  cases pc with
  | reading id left error => exact .inl h.1
  | failing r rest => exact .inr h.1
  | _ => cases hldr

namespace Store

/-- What a section of task `k` does. -/
structure Advances (k : Nat) (m : Model) (pc : Pc) (m' : Model) (pc' : Pc) : Prop where
  reads : m'.Reads
  others : Others k m m'
  at' : pc'.At k m'
  quiet : ¬pc.Loader → Quiet m m'
  loader : pc'.Loader → pc.Loader ∨ m.state = .allocated

variable {k : Nat} {m m' : Model} {pool pool' : PinnedMemoryPool} {pc pc' : Pc}

theorem advances_settles (h : Model.Settles m m') (hat : pc'.At k m') (hldr : ¬pc'.Loader) : Advances k m pc m' pc' :=
  ⟨h.reads, .of_eq h.replicas, hat, fun _ => h.quiet, fun hl => absurd hl hldr⟩

theorem advances_afterFree {ret : Option Int} {freed : Model.FreeWait ⊕ Int} (h : Model.Settles m m') :
    Advances k m pc m' (afterFree ret freed) := by
  cases freed with
  | inl wait => exact advances_settles h trivial id
  | inr n => exact advances_settles h trivial id

theorem advances_afterInterrupt {wait : Option (Nat × List Nat)} (hpc : pc.Loader) (h : Model.Interrupts k m m' wait) :
    Advances k m pc m' (afterInterrupt wait) := by
  refine ⟨h.reads, h.others, ?_, fun hl => absurd hpc hl, fun _ => .inl hpc⟩
  cases wait with
  | none => trivial
  | some w => exact h.state w.1 w.2 rfl

variable {uuid : String} {r id : Nat} {left : List Nat} {error : Bool} {now : Nat} {choice : Choice}

section

variable (hrds : m.Reads)

include hrds

theorem advances_onReplica {f : GpuReplica → SectionEnd (Pc × GpuReplica)} (hat : (Pc.running uuid r).At k m)
    (hf : ∀ replica pc' replica', m.replicas[r]? = some replica → replica.Active → f replica = .ok (pc', replica') →
      (pc' = .running uuid r ∧ replica'.state = replica.state ∧ replica'.task = replica.task ∧ Changes m replica replica') ∨
      (¬replica'.Active ∧ ¬pc'.Loader ∧ ∀ m', pc'.At k m'))
    (h : onReplica m r f pool = .ok (pc', m', pool')) : Advances k m (.running uuid r) m' pc' := by
  obtain ⟨replica, hr, htk, hact⟩ := hat
  unfold onReplica at h
  rw [hr] at h
  dsimp only at h
  split at h
  · cases h
  · cases h
  · rename_i pc₁ replica' heq
    cases h
    have hoth := others_setReplica_of_task (f := fun _ => replica') hr htk
    rcases hf replica _ replica' hr hact heq with ⟨rfl, hsta, htk', hchanges⟩ | ⟨hdone, hldr, hat'⟩
    · have hact' : replica'.Active := by
        unfold GpuReplica.Active
        rw [hsta]
        exact hact
      refine ⟨hrds.setReplica ?_, hoth, ?_, fun _ => ⟨fun _ => ⟨rfl, rfl⟩, ?_⟩, fun hl => hl.elim⟩
      · intro replica₁ hr₁ _
        cases hr.symm.trans hr₁
        exact hchanges
      · exact ⟨replica', getElem?_setReplica hr, htk'.trans htk, hact'⟩
      · intro _ r' replica₁ hr' hact₁
        obtain ⟨replica₂, hr₂, ⟨rfl, -⟩ | ⟨-, rfl⟩⟩ := replicas_setReplica hr'
        · exact ⟨replica, hr, hact⟩
        · exact ⟨_, hr₂, hact₁⟩
    · refine ⟨hrds.setReplica fun _ _ hact' => absurd hact' hdone, hoth, hat' _, ?_, fun hl => absurd hl hldr⟩
      intro _
      exact quiet_setReplica fun _ hact' => absurd hact' hdone

theorem advances_toHost {opens : Bool} (h : modelSection k m pool .toHost (.opens opens) = .ok (pc', m', pool')) :
    Advances k m .toHost m' pc' := by
  simp only [modelSection] at h
  rcases m.toHostStart_cases opens with ⟨ret, heq⟩ | ⟨hsta, pinned, hpin, heq⟩
  · rw [heq] at h
    dsimp only at h
    split at h
    · cases h
      exact advances_settles hrds.settles trivial id
    · cases h
      exact advances_settles hrds.settles trivial id
  · rw [heq] at h
    cases h
    refine ⟨hrds.toHostStart hsta hpin _, .of_eq rfl, ⟨rfl, ?_⟩, fun _ => .of_eq ?_ rfl, fun _ => .inr hsta⟩
    · intro pinned' hpin'
      cases hpin.symm.trans hpin'
      rfl
    · rw [hsta]
      rintro (hs | hs)
      · cases hs
      · cases hs

theorem advances_read {chunkIdx : Nat} {ok : Bool} (hat : (Pc.reading id left error).At k m)
    (h : modelSection k m pool (.reading id left error) (.read chunkIdx ok) = .ok (pc', m', pool')) :
    Advances k m (.reading id left error) m' pc' := by
  simp only [modelSection] at h
  split at h
  · split at h
    · split at h
      · rename_i heq
        cases h
        obtain ⟨hrds', hrps, hat'⟩ := hrds.readChunk hat.1 hat.2 heq
        exact ⟨hrds', .of_eq hrps, hat', fun hl => absurd trivial hl, fun _ => .inl trivial⟩
      · cases h
      · cases h
    · cases h
      exact ⟨hrds, .of_eq rfl, hat, fun _ => hrds.settles.quiet, fun _ => .inl trivial⟩
  · cases h

theorem advances_finish {order : List Nat} (hat : (Pc.reading id left error).At k m)
    (h : modelSection k m pool (.reading id left error) (.finish order) = .ok (pc', m', pool')) :
    Advances k m (.reading id left error) m' pc' := by
  simp only [modelSection] at h
  split at h
  · split at h
    · rename_i wait _ _ heq
      obtain ⟨hint, hno⟩ := toHostEnd_spec (k := k) hrds hat.1 heq
      cases h
      split
      · exact advances_afterInterrupt trivial hint
      · exact ⟨hint.reads, hint.others, trivial, fun hl => absurd trivial hl, fun _ => .inl trivial⟩
    · cases h
    · cases h
  · cases h

theorem advances_failing {rest : List Nat} (hat : (Pc.failing r rest).At k m)
    (h : modelSection k m pool (.failing r rest) (.go now) = .ok (pc', m', pool')) : Advances k m (.failing r rest) m' pc' := by
  simp only [modelSection] at h
  split at h
  · rename_i hdone
    have hspec := interrupt_spec k pool rest hrds hat.1 fun r' replica hr hact => by
      rcases List.mem_cons.1 (hat.2 r' replica hr hact) with rfl | hmem
      · exact absurd hact (not_active_of_replicaDone hdone hr)
      · exact hmem
    rw [SectionEnd.ok.injEq, Prod.mk.injEq] at h
    rw [← h.1, show m' = (m.interrupt pool rest).2.1 by rw [h.2]]
    exact advances_afterInterrupt trivial hspec
  · cases h

theorem advances_toGpu {devices : List Int} {pieces : List (Int × Nat)}
    (hguard : guardedSection m (.toGpu uuid devices pieces) = true)
    (h : modelSection k m pool (.toGpu uuid devices pieces) (.go now) = .ok (pc', m', pool')) :
    Advances k m (.toGpu uuid devices pieces) m' pc' := by
  simp only [modelSection] at h
  rcases m.toGpuStart_cases k uuid devices pieces with ⟨ret, heq⟩ | ⟨huuid, heq⟩
  · rw [heq] at h
    cases h
    exact advances_settles hrds.settles trivial id
  · rw [heq] at h
    cases h
    have hsta : m.state = .loading ∨ m.state = .loaded := by simpa [guardedSection, huuid] using hguard
    refine ⟨hrds.toGpuStart hsta huuid rfl ?_, ?_, ⟨_, List.getElem?_concat_length, rfl, .inl rfl⟩,
      fun _ => ⟨fun _ => ⟨rfl, rfl⟩, ?_⟩,
      fun hl => hl.elim⟩
    · rintro chunkIdx ⟨d, queue, hget, hmem⟩
      rw [get?_emptyQueues (fun _ _ h => by cases h) hget] at hmem
      cases hmem
    · intro r replica hr _ hact
      exact ⟨replica, (List.getElem?_append_left (List.getElem?_eq_some_iff.1 hr).1).trans hr, rfl, hact⟩
    · intro hs
      rw [hs] at hsta
      rcases hsta with hs' | hs'
      · cases hs'
      · cases hs'

theorem advances_freeGpu
    (h : modelSection k m pool (.freeGpu uuid) (.go now) = .ok (pc', m', pool')) : Advances k m (.freeGpu uuid) m' pc' := by
  simp only [modelSection, freeGpu] at h
  cases hget : m.gpuReplicas.get? uuid with
  | none =>
    rw [hget] at h
    cases h
    exact advances_settles hrds.settles trivial id
  | some r =>
    rw [hget] at h
    dsimp only at h
    by_cases hlod : m.replicaState r = .loading
    · rw [if_pos hlod] at h
      cases h
      exact advances_settles hrds.settles trivial id
    · rw [if_neg hlod] at h
      cases h
      have hers := hrds.erase uuid fun r' hr' => by
        cases hget.symm.trans hr'
        exact hlod
      exact ⟨hers, .of_eq rfl, trivial, fun _ => .of_eq (fun _ => ⟨rfl, rfl⟩) rfl, fun hl => hl.elim⟩

theorem advances_freeGpuWait (hguard : guardedSection m (.freeGpuWait uuid r) = true)
    (h : modelSection k m pool (.freeGpuWait uuid r) (.go now) = .ok (pc', m', pool')) :
    Advances k m (.freeGpuWait uuid r) m' pc' := by
  simp only [modelSection, freeGpuAwake] at h
  split at h
  · rename_i heq
    cases h
    split at heq
    · cases heq
      have hers := hrds.erase uuid fun r' hr' => by
        simpa [guardedSection, hr'] using hguard
      exact ⟨hers, .of_eq rfl, trivial, fun _ => .of_eq (fun _ => ⟨rfl, rfl⟩) rfl, fun hl => hl.elim⟩
    · cases heq
  · cases h
  · cases h

theorem advances_running (hat : (Pc.running uuid r).At k m)
    (h : modelSection k m pool (.running uuid r) choice = .ok (pc', m', pool')) : Advances k m (.running uuid r) m' pc' := by
  cases choice with
  | dispatch =>
    refine advances_onReplica hrds hat (fun replica pc₁ replica' hr hact hf => .inl ?_) h
    split at hf
    · rename_i heq
      cases hf
      obtain ⟨hsta, htk, hqd⟩ := dispatch_cases heq
      exact ⟨rfl, hsta, htk, hrds.changes hr hact hsta hqd⟩
    · cases hf
    · cases hf
  | consume d =>
    refine advances_onReplica hrds hat (fun replica pc₁ replica' hr hact hf => .inl ?_) h
    split at hf
    · rename_i heq
      cases hf
      obtain ⟨hsta, htk, hqd⟩ := consume_cases heq
      exact ⟨rfl, hsta, htk, hrds.changes hr hact hsta fun chunkIdx hq => .inl (hqd chunkIdx hq)⟩
    · cases hf
    · cases hf
  | finish order =>
    refine advances_onReplica hrds hat (fun replica pc₁ replica' hr hact hf => .inr ?_) h
    split at hf
    · rename_i heq
      cases hf
      refine ⟨toGpuEnd_cases heq, ?_⟩
      split
      · exact ⟨id, fun _ => trivial⟩
      · exact ⟨id, fun _ => trivial⟩
    · cases hf
    · cases hf
  | _ => cases h

theorem advances_modelSection (hat : pc.At k m) (hguard : guardedSection m pc = true)
    (h : modelSection k m pool pc choice = .ok (pc', m', pool')) : Advances k m pc m' pc' := by
  cases pc with
  | toHost =>
    cases choice with
    | opens opens => exact advances_toHost hrds h
    | _ => cases h
  | reading id left error =>
    cases choice with
    | read chunkIdx ok => exact advances_read hrds hat h
    | finish order => exact advances_finish hrds hat h
    | _ => cases h
  | failing r rest =>
    cases choice with
    | go now => exact advances_failing hrds hat h
    | _ => cases h
  | freeHost ret =>
    cases choice with
    | replicas order =>
      simp only [modelSection] at h
      split at h
      · rename_i heq
        cases h
        exact advances_afterFree (hrds.settles_freeHost hguard heq)
      · cases h
      · cases h
    | _ => cases h
  | freeWait ret wait =>
    cases choice with
    | replicas order =>
      simp only [modelSection] at h
      split at h
      · rename_i heq
        cases h
        exact advances_afterFree (hrds.settles_freeHostAwake hguard heq)
      · cases h
      · cases h
    | _ => cases h
  | toGpu uuid devices pieces =>
    cases choice with
    | go now => exact advances_toGpu hrds hguard h
    | _ => cases h
  | running uuid r => exact advances_running hrds hat h
  | freeGpu uuid =>
    cases choice with
    | go now => exact advances_freeGpu hrds h
    | _ => cases h
  | freeGpuWait uuid r =>
    cases choice with
    | go now => exact advances_freeGpuWait hrds hguard h
    | _ => cases h
  | _ => cases choice <;> cases h

end

/-- At most one task at a time takes a model through `ToHost`. -/
def OneLoader (tasks : List Task) : Prop :=
  ∀ (k k' : Nat) (task task' : Task), tasks[k]? = some task → tasks[k']? = some task' →
    task.modelPath = task'.modelPath → task.pc.Loader → task'.pc.Loader → k = k'

theorem OneLoader.set {tasks : List Task} (h : OneLoader tasks) {t : Task}
    (hnew : t.pc.Loader → ∀ (k' : Nat) (task : Task), k' ≠ k → tasks[k']? = some task → task.modelPath = t.modelPath →
      ¬task.pc.Loader) : OneLoader (tasks.set k t) := by
  intro k₁ k₂ task₁ task₂ h₁ h₂ hpa hl₁ hl₂
  rcases tasks_set_cases h₁ with ⟨rfl, rfl⟩ | ⟨hne₁, hold₁⟩
  · rcases tasks_set_cases h₂ with ⟨rfl, rfl⟩ | ⟨hne₂, hold₂⟩
    · rfl
    · exact absurd hl₂ (hnew hl₁ k₂ task₂ hne₂ hold₂ hpa.symm)
  · rcases tasks_set_cases h₂ with ⟨rfl, rfl⟩ | ⟨-, hold₂⟩
    · exact absurd hl₁ (hnew hl₂ k₁ task₁ hne₁ hold₁ hpa)
    · exact h k₁ k₂ task₁ task₂ hold₁ hold₂ hpa hl₁ hl₂

structure CopyInv (s : Store) : Prop where
  models : ∀ modelPath m, s.modelMap.get? modelPath = some m → m.Reads
  tasks : ∀ (k : Nat) (task : Task), s.tasks[k]? = some task → ∀ m, s.modelMap.get? task.modelPath = some m → task.pc.At k m
  loaders : OneLoader s.tasks

variable {s s' : Store}

/-- The task has nothing to rely on. -/
structure Free (k : Nat) (task : Task) : Prop where
  at' : ∀ m, task.pc.At k m
  loader : ¬task.pc.Loader

variable {task : Task} {modelPath : String} {order : List String} {now : Nat} {choice : Choice}

theorem free_of_isCall (h : task.pc.isCall = true) : Free k task := by
  unfold Pc.isCall at h
  split at h
  · rename_i hpc
    exact ⟨fun _ => by rw [hpc]; trivial, by rw [hpc]; exact id⟩
  · rename_i hpc
    exact ⟨fun _ => by rw [hpc]; trivial, by rw [hpc]; exact id⟩
  · rename_i hpc
    exact ⟨fun _ => by rw [hpc]; trivial, by rw [hpc]; exact id⟩
  · cases h

section

variable (hinv : s.CopyInv)

include hinv

theorem CopyInv.goto {times : Dict String Nat} {lockedBy : Option Nat} (h : Free k task) :
    CopyInv { s with modelLastAccessTime := times, lockedBy := lockedBy, tasks := s.tasks.set k task } :=
  ⟨hinv.models, forall_tasks_set (fun k' task' _ htk' => hinv.tasks k' task' htk') fun m _ => h.at' m,
    hinv.loaders.set fun hl => absurd hl h.loader⟩

theorem CopyInv.settles {pool : PinnedMemoryPool} {times : Dict String Nat}
    {lockedBy : Option Nat} (hm : s.modelMap.get? modelPath = some m) (hsettles : Settles m m') (h : Free k task) :
    CopyInv { s with
      memoryPool := pool, modelMap := s.modelMap.set modelPath m', modelLastAccessTime := times, lockedBy := lockedBy
      tasks := s.tasks.set k task } := by
  refine ⟨models_set hinv.models hsettles.reads, forall_tasks_set ?_ fun m _ => h.at' m,
    hinv.loaders.set fun hl => absurd hl h.loader⟩
  intro k' task' hne htk' m₁ hm₁
  dsimp only at hm₁
  rw [get?_set] at hm₁
  split at hm₁
  · rename_i heq
    cases hm₁
    rw [← heq] at hm
    exact (hinv.tasks k' task' htk' m hm).frame hne (.of_eq hsettles.replicas) fun _ => hsettles.quiet
  · exact hinv.tasks k' task' htk' m₁ hm₁

theorem CopyInv.advances {pool : PinnedMemoryPool}
    (htk : s.tasks[k]? = some ⟨modelPath, pc⟩) (hm : s.modelMap.get? modelPath = some m) (h : Advances k m pc m' pc') :
    CopyInv { s with
      memoryPool := pool, modelMap := s.modelMap.set modelPath m', tasks := s.tasks.set k ⟨modelPath, pc'⟩ } := by
  -- the other tasks that take the model through ToHost, when this one does not
  have hother : ∀ (k' : Nat) (task : Task), k' ≠ k → s.tasks[k']? = some task → task.modelPath = modelPath → task.pc.Loader →
      ¬pc.Loader := fun k' task hne htk' hpa hl hl' => hne (hinv.loaders k' k task _ htk' htk hpa hl hl')
  refine ⟨models_set hinv.models h.reads, forall_tasks_set ?_ ?_, hinv.loaders.set ?_⟩
  · intro k' task' hne htk' m₁ hm₁
    dsimp only at hm₁
    rw [get?_set] at hm₁
    split at hm₁
    · rename_i heq
      cases hm₁
      rw [← heq] at hm
      exact (hinv.tasks k' task' htk' m hm).frame hne h.others fun hl => h.quiet (hother k' task' hne htk' heq hl)
    · exact hinv.tasks k' task' htk' m₁ hm₁
  · intro m₁ hm₁
    dsimp only at hm₁
    rw [get?_set_self] at hm₁
    cases hm₁
    exact h.at'
  · intro hl k' task' hne htk' hpa hl'
    rcases h.loader hl with hold | hsta
    · exact hother k' task' hne htk' hpa hl' hold
    · dsimp only at hpa
      rw [← hpa] at hm
      rcases (hinv.tasks k' task' htk' m hm).state hl' with hs | hs
      · rw [hsta] at hs
        cases hs
      · rw [hsta] at hs
        cases hs

theorem CopyInv.crash : CopyInv { s with crashed := true } := ⟨hinv.models, hinv.tasks, hinv.loaders⟩

theorem CopyInv.allocate (h : s.allocate k modelPath order now = some s') : s'.CopyInv := by
  obtain ⟨-, -, m, hm, pc, lockedBy, times, -, rfl, hcases⟩ := allocate_cases h
  refine hinv.settles hm ((hinv.models _ m hm).settles_allocate _) ?_
  rcases hcases with ⟨-, rfl, -⟩ | ⟨-, rfl | rfl⟩
  · exact ⟨fun _ => trivial, id⟩
  · exact ⟨fun _ => trivial, id⟩
  · exact ⟨fun _ => trivial, id⟩

theorem CopyInv.allocateAgain (h : s.allocateAgain k modelPath now = some s') : s'.CopyInv := by
  obtain ⟨m, hm, pc, times, -, rfl, hpc⟩ := allocateAgain_cases h
  refine hinv.settles hm ((hinv.models _ m hm).settles_allocate _) ?_
  rcases hpc with rfl | rfl
  · exact ⟨fun _ => trivial, id⟩
  · exact ⟨fun _ => trivial, id⟩

theorem CopyInv.evict {memChunksNeeded : Int}
    (hguard : ∀ victim rest m, order = victim :: rest → s.modelMap.get? victim = some m → m.leavesInterrupted = true)
    (h : s.evict k modelPath order memChunksNeeded = some s') : s'.CopyInv := by
  rcases evict_cases h with rfl | ⟨-, -, rfl⟩ | ⟨-, -, rfl⟩ | ⟨victim, rest, m, freed, m', pool, hord, hm, htry, pc, rfl, hpc⟩
  · exact hinv.crash
  · exact hinv.goto ⟨fun _ => trivial, id⟩
  · exact hinv.goto ⟨fun _ => trivial, id⟩
  · refine hinv.settles hm ((hinv.models _ m hm).settles_tryFreeHost (hguard victim rest m hord hm) htry) ?_
    rcases hpc with ⟨-, -, rfl⟩ | ⟨-, rfl⟩ | ⟨-, rfl⟩
    · exact ⟨fun _ => trivial, id⟩
    · exact ⟨fun _ => trivial, id⟩
    · exact ⟨fun _ => trivial, id⟩

theorem CopyInv.inModel (htk : s.tasks[k]? = some ⟨modelPath, pc⟩)
    (hguard : ∀ m, s.modelMap.get? modelPath = some m → guardedSection m pc = true)
    (h : s.inModel k modelPath pc choice = some s') : s'.CopyInv := by
  obtain ⟨m, hm, ⟨-, rfl⟩ | ⟨pc', m', pool, hsec, rfl⟩⟩ := inModel_cases h
  · exact hinv.crash
  · exact hinv.advances htk hm (advances_modelSection (hinv.models _ m hm) (hinv.tasks k _ htk m hm) (hguard m hm) hsec)

end

theorem guarded_evict {victim : String} {rest : List String} {n : Int}
    (htk : s.tasks[k]? = some ⟨modelPath, .evict (victim :: rest) n⟩) (h : s.guarded (.step k choice) = true)
    (hm : s.modelMap.get? victim = some m) : m.leavesInterrupted = true := by
  simpa [guarded, htk, hm] using h

theorem guarded_section (htk : s.tasks[k]? = some ⟨modelPath, pc⟩)
    (hpc : ∀ order n, pc ≠ .evict order n) (h : s.guarded (.step k choice) = true)
    (hm : s.modelMap.get? modelPath = some m) : guardedSection m pc = true := by
  simp only [guarded, htk] at h
  split at h
  · exact absurd rfl (hpc _ _)
  · simpa [hm] using h

theorem CopyInv.step (hinv : s.CopyInv) {a : Action} (hguard : s.guarded a = true) (h : s.step a = some s') : s'.CopyInv := by
  rcases step_cases h with ⟨task, -, hca, rfl⟩ | ⟨freeList, -, hpm, rfl⟩ | ⟨k, choice, ⟨modelPath, pc⟩, rfl, htk, hst⟩
  · have hspl : ∀ (k : Nat) (task' : Task), (s.tasks ++ [task])[k]? = some task' → s.tasks[k]? = some task' ∨ task' = task := by
      intro k task' htk'
      rw [List.getElem?_append] at htk'
      split at htk'
      · exact .inl htk'
      · have := List.mem_of_getElem? htk'
        exact .inr (by simpa using this)
    refine ⟨hinv.models, ?_, ?_⟩
    · intro k task' htk' m hm
      rcases hspl k task' htk' with hold | rfl
      · exact hinv.tasks k task' hold m hm
      · exact (free_of_isCall hca).at' m
    · intro k k' task₁ task₂ h₁ h₂ hpa hl₁ hl₂
      rcases hspl k task₁ h₁ with hold₁ | rfl
      · rcases hspl k' task₂ h₂ with hold₂ | rfl
        · exact hinv.loaders k k' task₁ task₂ hold₁ hold₂ hpa hl₁ hl₂
        · exact absurd hl₂ (free_of_isCall (k := k) hca).loader
      · exact absurd hl₁ (free_of_isCall (k := k) hca).loader
  · exact ⟨hinv.models, hinv.tasks, hinv.loaders⟩
  · rcases taskStep_cases hst with ⟨-, pc', times, hstd, -, rfl⟩ | ⟨-, order, now, hala⟩ |
      ⟨order, n, hpc, hevict⟩ | ⟨hpc, now, hala⟩ | hsec
    · cases hstd <;> exact hinv.goto ⟨fun _ => trivial, id⟩
    · exact hinv.allocate hala
    · dsimp only at hpc
      subst hpc
      refine hinv.evict ?_ hevict
      intro victim rest m hord hm
      subst hord
      exact guarded_evict htk hguard hm
    · exact hinv.allocateAgain hala
    · refine hinv.inModel htk ?_ hsec
      intro m hm
      cases pc with
      | evict order n => rfl
      | _ => exact guarded_section htk (fun _ _ hpc => by cases hpc) hguard hm

theorem CopyInv.run (hinv : s.CopyInv) {actions : List Action} (hguard : s.guardedRun actions = true)
    (h : s.run actions = some s') : s'.CopyInv := by
  induction actions generalizing s with
  | nil =>
    cases h
    exact hinv
  | cons a actions ih =>
    unfold Store.run at h
    rw [List.foldlM_cons, bind_eq_bind, bind_eq_some_iff] at h
    obtain ⟨s₁, hst, hrs⟩ := h
    rw [guardedRun, Bool.and_eq_true, hst, all_some] at hguard
    exact ih (hinv.step hguard.1 hst) hguard.2 hrs

theorem CopyInv.copiesRead (hinv : s.CopyInv) : s.CopiesRead := by
  intro k modelPath uuid r m replica htk hm hr
  have hrds := hinv.models _ m hm
  obtain ⟨replica', hr', -, hact⟩ := hinv.tasks k _ htk m hm
  cases hr.symm.trans hr'
  obtain ⟨pinned, v, hpin, hv, -⟩ := hrds.chunks (hrds.active r replica hr hact)
  refine ⟨fun _ => by simp [hpin], fun _ _ => by simp [hv], fun d chunkIdx hcopies => ⟨pinned, hpin, ?_⟩⟩
  refine hrds.queued r replica hr hact pinned chunkIdx hpin ?_
  unfold copies at hcopies
  split at hcopies
  · rename_i _ hque
    split at hcopies
    · cases hcopies
    · cases hcopies
      exact ⟨d, _, hque, List.mem_cons_self⟩
  · cases hcopies

end Store

end ServerlessLLM
