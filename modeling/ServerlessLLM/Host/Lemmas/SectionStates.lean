import Mathlib.Data.List.TakeWhile
import ServerlessLLM.Host.Store

/-!
# States of a model

While a replica is copied to the devices the model has its chunks: it is loading, loaded or interrupted, and the chunks of
`host_ptr_vector_` and of the queues were read into the memory that it has.
-/

namespace ServerlessLLM

open List Dict Bool

/-- A replica that is on its way to the devices. -/
def GpuReplica.Active (replica : GpuReplica) : Prop := replica.state = .loading ∨ replica.state = .cancelled

/-- A model with chunks that can be copied, from the start of `ToHost` on. -/
def MemoryState.HasChunks (state : MemoryState) : Prop := state = .loading ∨ state = .loaded ∨ state = .interrupted

def GpuReplica.Queued (replica : GpuReplica) (chunkIdx : Nat) : Prop :=
  ∃ d queue, replica.queues.get? d = some queue ∧ some chunkIdx ∈ queue

namespace Model

structure Reads (m : Model) : Prop where
  chunks : m.state.HasChunks → ∃ pinned v, m.pinnedMem = some pinned ∧ m.hostPtrVector = some v ∧
    ∀ batch ∈ v.items, batch.chunkId ∈ pinned.chunksRead
  active : ∀ (r : Nat) (replica : GpuReplica), m.replicas[r]? = some replica → replica.Active → m.state.HasChunks
  queued : ∀ (r : Nat) (replica : GpuReplica), m.replicas[r]? = some replica → replica.Active →
    ∀ pinned chunkIdx, m.pinnedMem = some pinned → replica.Queued chunkIdx → chunkIdx ∈ pinned.chunksRead
  cancelled : ∀ (r : Nat) (replica : GpuReplica), m.replicas[r]? = some replica → replica.state = .cancelled →
    m.state = .interrupted
  registered : ∀ (r : Nat) (replica : GpuReplica), m.replicas[r]? = some replica → replica.state = .loading →
    ∃ uuid, m.gpuReplicas.get? uuid = some r

def Still (m : Model) : Prop := ∀ (r : Nat) (replica : GpuReplica), m.replicas[r]? = some replica → ¬replica.Active

/-- The replicas of the other tasks that are on their way stay so. -/
def Others (k : Nat) (m m' : Model) : Prop :=
  ∀ (r : Nat) (replica : GpuReplica), m.replicas[r]? = some replica → replica.task ≠ k → replica.Active →
    ∃ replica' : GpuReplica, m'.replicas[r]? = some replica' ∧ replica'.task = replica.task ∧ replica'.Active

/-- What a `ToHost` of another task relies on. -/
structure Quiet (m m' : Model) : Prop where
  state : m.state = .loading ∨ m.state = .interrupted → m'.state = m.state ∧ m'.pinnedMem = m.pinnedMem
  active : m.state = .interrupted → ∀ (r : Nat) (replica : GpuReplica), m'.replicas[r]? = some replica → replica.Active →
    ∃ replica' : GpuReplica, m.replicas[r]? = some replica' ∧ replica'.Active

variable {m m' : Model} {k : Nat}

theorem Others.of_eq (h : m'.replicas = m.replicas) : Others k m m' := by
  intro r replica hr _ hact
  rw [h]
  exact ⟨replica, hr, rfl, hact⟩

theorem Quiet.of_eq (hsta : m.state = .loading ∨ m.state = .interrupted → m'.state = m.state ∧ m'.pinnedMem = m.pinnedMem)
    (h : m'.replicas = m.replicas) : Quiet m m' := by
  refine ⟨hsta, ?_⟩
  intro _ r replica hr hact
  rw [h] at hr
  exact ⟨replica, hr, hact⟩

theorem Reads.still (h : m.Reads) (hsta : ¬m.state.HasChunks) : m.Still :=
  fun r replica hr hact => hsta (h.active r replica hr hact)

theorem Reads.still_of_idle (h : m.Reads) (hsta : m.state ≠ .interrupted) (hlod : m.hasLoading = false) : m.Still := by
  rintro r replica hr (hact | hact)
  · obtain ⟨uuid, huuid⟩ := h.registered r replica hr hact
    unfold hasLoading at hlod
    rw [any_eq_false] at hlod
    refine hlod (uuid, r) (mem_entries_iff.2 huuid) ?_
    simp [replicaState, hr, hact]
  · exact hsta (h.cancelled r replica hr hact)

theorem Still.reads (h : m.Still) (hsta : ¬m.state.HasChunks) : m.Reads :=
  ⟨fun hs => absurd hs hsta, fun r replica hr hact => absurd hact (h r replica hr),
    fun r replica hr hact => absurd hact (h r replica hr), fun r replica hr hs => absurd (.inr hs) (h r replica hr),
    fun r replica hr hs => absurd (.inl hs) (h r replica hr)⟩

theorem Others.trans {m'' : Model} (h : Others k m m') (h' : Others k m' m'') : Others k m m'' := by
  intro r replica hr htk hact
  obtain ⟨replica', hr', htk', hact'⟩ := h r replica hr htk hact
  obtain ⟨replica'', hr'', htk'', hact''⟩ := h' r replica' hr' (by rwa [htk']) hact'
  exact ⟨replica'', hr'', htk''.trans htk', hact''⟩

/-! ## A replica changes -/

variable {r : Nat} {f : GpuReplica → GpuReplica} {replica' replica : GpuReplica} {pool pool' : PinnedMemoryPool}
  {order : List Nat}

theorem replicas_setReplica {r' : Nat} (h : (m.setReplica r f).replicas[r']? = some replica') :
    ∃ replica, m.replicas[r']? = some replica ∧ ((r' = r ∧ replica' = f replica) ∨ (r' ≠ r ∧ replica' = replica)) := by
  unfold setReplica at h
  dsimp only at h
  rw [getElem?_modify] at h
  obtain ⟨replica, hr, heq⟩ := Option.map_eq_some_iff.1 h
  refine ⟨replica, hr, ?_⟩
  by_cases hrr : r = r'
  · rw [if_pos hrr] at heq
    exact .inl ⟨hrr.symm, heq.symm⟩
  · rw [if_neg hrr] at heq
    exact .inr ⟨Ne.symm hrr, heq.symm⟩

theorem getElem?_setReplica (h : m.replicas[r]? = some replica) : (m.setReplica r f).replicas[r]? = some (f replica) := by
  unfold setReplica
  dsimp only
  rw [getElem?_modify, h]
  simp

theorem getElem?_setReplica_of_ne {r' : Nat} (f : GpuReplica → GpuReplica) (h : r' ≠ r) :
    (m.setReplica r f).replicas[r']? = m.replicas[r']? := by
  unfold setReplica
  dsimp only
  rw [getElem?_modify]
  simp [Ne.symm h]

/-- What a change of a replica keeps. -/
structure Changes (m : Model) (replica replica' : GpuReplica) : Prop where
  active : replica.Active
  cancelled : replica'.state = .cancelled → m.state = .interrupted
  loading : replica'.state = .loading → replica.state = .loading
  queued : ∀ pinned chunkIdx, m.pinnedMem = some pinned → replica'.Queued chunkIdx → chunkIdx ∈ pinned.chunksRead

theorem Reads.setReplica (h : m.Reads)
    (hf : ∀ replica, m.replicas[r]? = some replica → (f replica).Active → Changes m replica (f replica)) :
    (m.setReplica r f).Reads := by
  refine ⟨h.chunks, ?_, ?_, ?_, ?_⟩
  · intro r' replica' hr' hact
    obtain ⟨replica, hr, ⟨rfl, rfl⟩ | ⟨-, rfl⟩⟩ := replicas_setReplica hr'
    · exact h.active _ _ hr (hf _ hr hact).active
    · exact h.active _ _ hr hact
  · intro r' replica' hr' hact
    obtain ⟨replica, hr, ⟨rfl, rfl⟩ | ⟨-, rfl⟩⟩ := replicas_setReplica hr'
    · exact (hf _ hr hact).queued
    · exact h.queued _ _ hr hact
  · intro r' replica' hr' hsta
    obtain ⟨replica, hr, ⟨rfl, rfl⟩ | ⟨-, rfl⟩⟩ := replicas_setReplica hr'
    · exact (hf _ hr (.inr hsta)).cancelled hsta
    · exact h.cancelled _ _ hr hsta
  · intro r' replica' hr' hsta
    obtain ⟨replica, hr, ⟨rfl, rfl⟩ | ⟨-, rfl⟩⟩ := replicas_setReplica hr'
    · exact h.registered _ _ hr ((hf _ hr (.inl hsta)).loading hsta)
    · exact h.registered _ _ hr hsta

theorem others_setReplica_of_task
    (hr : m.replicas[r]? = some replica) (htk : replica.task = k) : Others k m (m.setReplica r f) := by
  intro r' replica' hr' htk' hact
  have hne : r' ≠ r := by
    rintro rfl
    rw [hr] at hr'
    cases hr'
    exact htk' htk
  exact ⟨replica', (getElem?_setReplica_of_ne f hne).trans hr', rfl, hact⟩

theorem quiet_setReplica (hf : ∀ replica, (f replica).Active → replica.Active) : Quiet m (m.setReplica r f) := by
  refine ⟨fun _ => ⟨rfl, rfl⟩, ?_⟩
  intro _ r' replica' hr' hact
  obtain ⟨replica, hr, ⟨rfl, rfl⟩ | ⟨-, rfl⟩⟩ := replicas_setReplica hr'
  · exact ⟨replica, hr, hf _ hact⟩
  · exact ⟨_, hr, hact⟩

/-! ## The error path of ToHost -/

def cancel (replica : GpuReplica) : GpuReplica :=
    if replica.state = .loading then { replica with state := .cancelled } else replica

theorem cancel_active : (cancel replica).Active ↔ replica.Active := by
  unfold cancel GpuReplica.Active
  split
  · rename_i h
    simp [h]
  · rfl

theorem Reads.cancelled_one (h : m.Reads) (hsta : m.state = .interrupted) (r : Nat) : (m.setReplica r cancel).Reads := by
  refine h.setReplica fun replica hr hact => ⟨cancel_active.1 hact, fun _ => hsta, ?_, ?_⟩
  · intro hlod
    unfold cancel at hlod
    split at hlod
    · cases hlod
    · exact hlod
  · intro pinned chunkIdx hpin hqd
    refine h.queued r replica hr (cancel_active.1 hact) pinned chunkIdx hpin ?_
    unfold cancel at hqd
    split at hqd
    · exact hqd
    · exact hqd

theorem others_cancel (k r : Nat) : Others k m (m.setReplica r cancel) := by
  intro r' replica hr _ hact
  by_cases hrr : r' = r
  · subst hrr
    refine ⟨_, getElem?_setReplica hr, ?_, cancel_active.2 hact⟩
    unfold cancel
    split
    · rfl
    · rfl
  · exact ⟨replica, (getElem?_setReplica_of_ne _ hrr).trans hr, rfl, hact⟩

theorem not_active_of_replicaDone (hdone : m.replicaDone r = true) (hr : m.replicas[r]? = some replica) : ¬replica.Active := by
  unfold replicaDone replicaState at hdone
  rw [hr] at hdone
  unfold GpuReplica.Active
  intro hact
  rcases hact with h | h
  · simp [h] at hdone
  · simp [h] at hdone

/-- Where the error path waits. -/
def Waiting (m : Model) : Option (Nat × List Nat) → Prop
  | some (r, rest) => ∀ (r' : Nat) (replica : GpuReplica), m.replicas[r']? = some replica → replica.Active → r' ∈ r :: rest
  | none => m.Still

theorem cancelReplicas_spec (k : Nat) (rs : List Nat) (h : m.Reads) (hsta : m.state = .interrupted)
    (hall : ∀ (r : Nat) (replica : GpuReplica), m.replicas[r]? = some replica → replica.Active → r ∈ rs) :
    (cancelReplicas rs m).1.Reads ∧ (cancelReplicas rs m).1.state = .interrupted ∧ Others k m (cancelReplicas rs m).1 ∧
      (cancelReplicas rs m).1.Waiting (cancelReplicas rs m).2 := by
  induction rs generalizing m with
  | nil => exact ⟨h, hsta, .of_eq rfl, fun r replica hr hact => not_mem_nil (hall r replica hr hact)⟩
  | cons r rest ih =>
    -- after the replica was cancelled, what is on its way is on its way before
    have hall' : ∀ (r' : Nat) (replica : GpuReplica), (m.setReplica r cancel).replicas[r']? = some replica → replica.Active →
        r' ∈ r :: rest := by
      intro r' replica' hr' hact
      obtain ⟨replica, hr, ⟨rfl, rfl⟩ | ⟨-, rfl⟩⟩ := replicas_setReplica hr'
      · exact mem_cons_self
      · exact hall r' _ hr hact
    have hcancel : cancelReplicas (r :: rest) m = if (m.setReplica r cancel).replicaDone r then
        cancelReplicas rest (m.setReplica r cancel) else (m.setReplica r cancel, some (r, rest)) := rfl
    rw [hcancel]
    split
    · rename_i hdone
      obtain ⟨hrds, hsta', hoth, hwait⟩ := ih (h.cancelled_one hsta r) hsta fun r' replica hr' hact => by
        rcases mem_cons.1 (hall' r' replica hr' hact) with rfl | hmem
        · exact absurd hact (not_active_of_replicaDone hdone hr')
        · exact hmem
      exact ⟨hrds, hsta', (others_cancel k r).trans hoth, hwait⟩
    · exact ⟨h.cancelled_one hsta r, hsta, others_cancel k r, hall'⟩

/-- What a section makes of the model, for the `ToHost` that fails. -/
structure Interrupts (k : Nat) (m m' : Model) (wait : Option (Nat × List Nat)) : Prop where
  reads : m'.Reads
  others : Others k m m'
  state : ∀ r rest, wait = some (r, rest) → m'.state = .interrupted ∧ m'.Waiting wait

theorem interrupt_spec (k : Nat) (pool : PinnedMemoryPool) (rs : List Nat) (h : m.Reads) (hsta : m.state = .interrupted)
    (hall : ∀ (r : Nat) (replica : GpuReplica), m.replicas[r]? = some replica → replica.Active → r ∈ rs) :
    Interrupts k m (m.interrupt pool rs).2.1 (m.interrupt pool rs).1 := by
  obtain ⟨hrds, hsta', hoth, hwait⟩ := cancelReplicas_spec k rs h hsta hall
  unfold interrupt
  split
  · rename_i m' wait heq
    rw [heq] at hrds hsta' hoth hwait
    exact ⟨hrds, hoth, fun r rest hwait' => ⟨hsta', hwait⟩⟩
  · rename_i m' heq
    rw [heq] at hrds hsta' hoth hwait
    refine ⟨Still.reads hwait ?_, hoth.trans (.of_eq rfl), fun r rest hwait' => by cases hwait'⟩
    simp [resetPinned, MemoryState.HasChunks]

/-! ## ToHost -/

theorem toHostStart_cases (m : Model) (opens : Bool) : (∃ ret, m.toHostStart opens = (.inl ret, m)) ∨
    (m.state = .allocated ∧ ∃ pinned, m.pinnedMem = some pinned ∧ m.toHostStart opens =
      (.inr pinned, { m with hostPtrVector := some (.new pinned.buffers.length), state := .loading })) := by
  unfold toHostStart
  split
  · split
    · exact .inl ⟨0, rfl⟩
    · exact .inl ⟨-1, rfl⟩
  · rename_i hsta
    split
    · exact .inl ⟨-1, rfl⟩
    · split
      · exact .inl ⟨1, rfl⟩
      · rename_i pinned hpin
        split
        · exact .inl ⟨1, rfl⟩
        · exact .inr ⟨not_not.1 hsta, pinned, hpin, rfl⟩

theorem Reads.toHostStart (h : m.Reads) (hsta : m.state = .allocated) {pinned : PinnedMemory}
    (hpin : m.pinnedMem = some pinned) (n : Nat) :
    Reads { m with hostPtrVector := some (.new n), state := .loading } := by
  have hstill : m.Still := h.still (by simp [hsta, MemoryState.HasChunks])
  refine ⟨fun _ => ⟨pinned, _, hpin, rfl, fun batch hbat => by cases hbat⟩, fun r replica hr hact => ?_,
    fun r replica hr hact => ?_, fun r replica hr hcnl => ?_, fun r replica hr hlod => ?_⟩
  · exact absurd hact (hstill r replica hr)
  · exact absurd hact (hstill r replica hr)
  · exact absurd (.inr hcnl) (hstill r replica hr)
  · exact absurd (.inl hlod) (hstill r replica hr)

theorem mem_items_enqueue {α : Type} {v : ConcurrentVector α} {key : Nat} {item item' : α}
    (h : item' ∈ (v.enqueue key item).items) :
    item' ∈ v.items ∨ item' = item := by
  unfold ConcurrentVector.enqueue at h
  split at h
  · exact .inl h
  · simpa using h

theorem Reads.readChunk (h : m.Reads) {chunkSize id chunkIdx : Nat} (hsta : m.state = .loading)
    (hid : ∀ pinned, m.pinnedMem = some pinned → pinned.id = id) (heq : m.readChunk chunkSize id chunkIdx = .ok m') :
    m'.Reads ∧ m'.replicas = m.replicas ∧ m'.state = .loading ∧ ∀ pinned, m'.pinnedMem = some pinned → pinned.id = id := by
  obtain ⟨pinned, v, hpin, hv, hits⟩ := h.chunks (.inl hsta)
  unfold Model.readChunk at heq
  rw [hv] at heq
  cases heq
  have hpin' : (m.pinnedMem.map fun pinned =>
      if pinned.id = id then { pinned with chunksRead := chunkIdx :: pinned.chunksRead } else pinned) =
      some { pinned with chunksRead := chunkIdx :: pinned.chunksRead } := by
    rw [hpin, Option.map_some, if_pos (hid pinned hpin)]
  refine ⟨⟨fun _ => ⟨_, _, hpin', rfl, ?_⟩, h.active, ?_, h.cancelled, h.registered⟩, rfl, hsta, ?_⟩
  · intro batch hbat
    rcases mem_items_enqueue hbat with hold | rfl
    · exact mem_cons_of_mem _ (hits batch hold)
    · exact mem_cons_self
  · intro r replica hr hact pinned' chunk hp hqd
    cases hpin'.symm.trans hp
    exact mem_cons_of_mem _ (h.queued r replica hr hact pinned chunk hpin hqd)
  · intro pinned' hpin''
    cases hpin'.symm.trans hpin''
    exact hid pinned hpin

theorem toHostEnd_spec {k : Nat} {error : Bool} {wait : Option (Nat × List Nat)}
    (h : m.Reads) (hsta : m.state = .loading) (heq : m.toHostEnd pool error order = .ok (wait, m', pool')) :
    Interrupts k m m' wait ∧ (error = false → wait = none) := by
  unfold toHostEnd at heq
  split at heq
  · cases heq
  · split at heq
    · rename_i herr
      split at heq
      · rename_i hpm
        have hrds : Reads { m with state := .interrupted } :=
          ⟨fun _ => h.chunks (.inl hsta), fun r replica hr hact => .inr (.inr rfl), h.queued, fun _ _ _ _ => rfl, h.registered⟩
        rw [SectionEnd.ok.injEq] at heq
        have hspec := interrupt_spec k pool order hrds rfl fun r replica hr hact => by
          rcases hact with hlod | hcnl
          · obtain ⟨uuid, huuid⟩ := h.registered r replica hr hlod
            exact (isPerm_iff.1 hpm).mem_iff.2 (mem_map.2 ⟨(uuid, r), mem_entries_iff.2 huuid, rfl⟩)
          · have := h.cancelled r replica hr hcnl
            rw [hsta] at this
            cases this
        rw [heq] at hspec
        exact ⟨⟨hspec.reads, hspec.others, hspec.state⟩, fun hfal => by rw [herr] at hfal; cases hfal⟩
      · cases heq
    · cases heq
      refine ⟨⟨⟨fun _ => h.chunks (.inl hsta), fun _ _ _ _ => .inr (.inl rfl), h.queued, fun r replica hr hcnl => ?_,
        h.registered⟩, .of_eq rfl, fun _ _ hwait => by cases hwait⟩, fun _ => rfl⟩
      have := h.cancelled r replica hr hcnl
      rw [hsta] at this
      cases this

/-! ## Allocate and free -/

/-- A section that leaves the replicas as they are, and the model too while a `ToHost` is at work. -/
structure Settles (m m' : Model) : Prop where
  reads : m'.Reads
  replicas : m'.replicas = m.replicas
  state : m.state = .loading ∨ m.state = .interrupted → m' = m

theorem Reads.settles (h : m.Reads) : Settles m m := ⟨h, rfl, fun _ => rfl⟩

theorem Settles.quiet (h : Settles m m') : Quiet m m' := by
  refine .of_eq ?_ h.replicas
  intro hsta
  rw [h.state hsta]
  exact ⟨rfl, rfl⟩

theorem Reads.settles_allocate (h : m.Reads) (pool : PinnedMemoryPool) : Settles m (m.allocatePinnedMemory pool).2.1 := by
  unfold allocatePinnedMemory
  split
  · exact h.settles
  · split
    · exact h.settles
    · rename_i hun
      have hun : m.state = .unallocated := not_not.1 hun
      have hstill : m.Still := h.still (by simp [hun, MemoryState.HasChunks])
      have hother : ¬(m.state = .loading ∨ m.state = .interrupted) := by simp [hun]
      dsimp only
      split
      · exact ⟨Still.reads hstill (by simp [hun, MemoryState.HasChunks]), rfl, fun hs => absurd hs hother⟩
      · split
        · exact ⟨Still.reads hstill (by simp [hun, MemoryState.HasChunks]), rfl, fun hs => absurd hs hother⟩
        · exact ⟨Still.reads hstill (by simp [MemoryState.HasChunks]), rfl, fun hs => absurd hs hother⟩

theorem Reads.settles_resetPinned (h : m.Reads) (pool : PinnedMemoryPool) (hlod : m.state ≠ .loading)
    (hint : m.state ≠ .interrupted) (hrps : m.hasLoading = false) : Settles m (m.resetPinned pool).1 := by
  refine ⟨Still.reads (h.still_of_idle hint hrps) ?_, rfl, ?_⟩
  · simp [resetPinned, MemoryState.HasChunks]
  · rintro (hs | hs)
    · exact absurd hs hlod
    · exact absurd hs hint

theorem leavesInterrupted_eq {m : Model} (h : m.leavesInterrupted = true) (hlod : m.hasLoading = false) :
    m.state ≠ .interrupted := by
  unfold leavesInterrupted at h
  rw [hlod, Bool.or_false] at h
  exact of_decide_eq_true h

theorem Reads.settles_tryFreeHost (h : m.Reads) {ret : Int} (hguard : m.leavesInterrupted = true)
    (heq : m.tryFreeHost pool = .ok (ret, m', pool')) : Settles m m' := by
  unfold tryFreeHost at heq
  split at heq
  · cases heq
    exact h.settles
  · split at heq
    · cases heq
      exact h.settles
    · rename_i hlod
      split at heq
      · cases heq
        exact h.settles
      · rename_i hrps
        have hrps := eq_false_of_ne_true hrps
        split at heq
        · cases heq
        · cases heq
          exact h.settles_resetPinned pool hlod (leavesInterrupted_eq hguard hrps) hrps

theorem freeReplicas_cases {rs : List Nat} {freed : FreeWait ⊕ Int} (heq : m.freeReplicas pool rs = .ok (freed, m', pool')) :
    m' = m ∨ (m' = (m.resetPinned pool).1 ∧ ∀ r ∈ rs, m.replicaState r ≠ .loading) := by
  unfold freeReplicas at heq
  split at heq
  · cases heq
    exact .inl rfl
  · rename_i hnil
    split at heq
    · cases heq
    · cases heq
      refine .inr ⟨rfl, ?_⟩
      intro r hr
      simpa using dropWhile_eq_nil_iff.1 hnil r hr

theorem Reads.settles_freeReplicas (h : m.Reads) {freed : FreeWait ⊕ Int}
    (hsta : m.state ≠ .loading) (hguard : m.leavesInterrupted = true)
    (hpm : order.isPerm (m.gpuReplicas.entries.map Prod.snd) = true)
    (heq : m.freeReplicas pool order = .ok (freed, m', pool')) : Settles m m' := by
  rcases freeReplicas_cases heq with rfl | ⟨rfl, hno⟩
  · exact h.settles
  · have hrps : m.hasLoading = false := by
      unfold hasLoading
      rw [any_eq_false]
      intro e he
      simpa using hno e.2 ((isPerm_iff.1 hpm).mem_iff.2 (mem_map_of_mem he))
    exact h.settles_resetPinned pool hsta (leavesInterrupted_eq hguard hrps) hrps

theorem Reads.settles_freeHost (h : m.Reads) {freed : FreeWait ⊕ Int}
    (hguard : m.leavesInterrupted = true) (heq : m.freeHost pool order = .ok (freed, m', pool')) : Settles m m' := by
  unfold freeHost at heq
  split at heq
  · cases heq
    exact h.settles
  · split at heq
    · cases heq
      exact h.settles
    · rename_i hlod
      split at heq
      · rename_i hpm
        exact h.settles_freeReplicas hlod hguard hpm heq
      · cases heq

theorem Reads.settles_freeHostAwake (h : m.Reads) {ret : Option Int}
    {wait : FreeWait} {freed : FreeWait ⊕ Int} (hguard : Store.guardedSection m (.freeWait ret wait) = true)
    (heq : m.freeHostAwake pool order wait = .ok (freed, m', pool')) : Settles m m' := by
  cases wait with
  | load =>
    simp only [freeHostAwake] at heq
    split at heq
    · rename_i hawake
      refine h.settles_freeReplicas ?_ hguard hawake.2 heq
      rcases hawake.1 with hs | hs
      · simp [hs]
      · simp [hs]
    · cases heq
  | replica r rest =>
    simp only [freeHostAwake] at heq
    split at heq
    · rcases freeReplicas_cases heq with rfl | ⟨rfl, hno⟩
      · exact h.settles
      · simp only [Store.guardedSection, atWork, or_eq_true, any_eq_true, decide_eq_true_eq, not_eq_true',
          or_eq_false_iff, decide_eq_false_iff_not] at hguard
        rcases hguard with ⟨r', hr', hlod⟩ | ⟨⟨hlod, hint⟩, hrps⟩
        · exact absurd hlod (hno r' hr')
        · exact h.settles_resetPinned pool hlod hint hrps
    · cases heq

/-! ## ToGpu -/

theorem toGpuStart_cases (m : Model) (task : Nat) (replicaUuid : String) (devices : List Int) (pieces : List (Int × Nat)) :
    (∃ ret, m.toGpuStart task replicaUuid devices pieces = (.inl ret, m)) ∨
    (replicaUuid ∉ m.gpuReplicas.keys ∧ m.toGpuStart task replicaUuid devices pieces =
      (.inr m.replicas.length, { m with
        replicas := m.replicas ++ [⟨task, .loading, pieces, .created, devices.foldl (fun d i => d.set i []) .empty,
          devices.foldl (fun d i => d.set i .created) .empty⟩]
        gpuReplicas := m.gpuReplicas.set replicaUuid m.replicas.length })) := by
  unfold toGpuStart
  split
  · exact .inl ⟨-1, rfl⟩
  · split
    · exact .inl ⟨-1, rfl⟩
    · rename_i huuid
      exact .inr ⟨huuid, rfl⟩

theorem get?_emptyQueues {devices : List Int} {d : Int} {queue : List (Option Nat)} {dict : Dict Int (List (Option Nat))}
    (hdict : ∀ d queue, dict.get? d = some queue → queue = [])
    (h : (devices.foldl (fun d i => d.set i []) dict).get? d = some queue) : queue = [] := by
  induction devices generalizing dict with
  | nil => exact hdict d queue h
  | cons i devices ih =>
    refine ih ?_ h
    intro d queue hget
    rw [get?_set] at hget
    split at hget
    · cases hget
      rfl
    · exact hdict d queue hget

theorem Reads.toGpuStart (h : m.Reads) {replicaUuid : String} (hsta : m.state = .loading ∨ m.state = .loaded)
    (huuid : replicaUuid ∉ m.gpuReplicas.keys) (hnew : replica.state = .loading) (hqs : ∀ chunkIdx, ¬replica.Queued chunkIdx) :
    Reads { m with
      replicas := m.replicas ++ [replica], gpuReplicas := m.gpuReplicas.set replicaUuid m.replicas.length } := by
  have hchs : m.state.HasChunks := by
    rcases hsta with hs | hs
    · exact .inl hs
    · exact .inr (.inl hs)
  have hspl : ∀ (r : Nat) (replica' : GpuReplica), (m.replicas ++ [replica])[r]? = some replica' →
      m.replicas[r]? = some replica' ∨ (r = m.replicas.length ∧ replica' = replica) := by
    intro r replica' hr
    rw [getElem?_append] at hr
    split at hr
    · exact .inl hr
    · rename_i hlen
      rw [getElem?_singleton] at hr
      split at hr
      · cases hr
        exact .inr ⟨by omega, rfl⟩
      · cases hr
  refine ⟨h.chunks, fun _ _ _ _ => hchs, ?_, ?_, ?_⟩
  · intro r replica' hr hact
    rcases hspl r replica' hr with hr' | ⟨-, rfl⟩
    · exact h.queued r replica' hr' hact
    · exact fun _ chunkIdx _ hqd => absurd hqd (hqs chunkIdx)
  · intro r replica' hr hcnl
    rcases hspl r replica' hr with hr' | ⟨-, rfl⟩
    · exact h.cancelled r replica' hr' hcnl
    · rw [hnew] at hcnl
      cases hcnl
  · intro r replica' hr hlod
    rcases hspl r replica' hr with hr' | ⟨rfl, -⟩
    · obtain ⟨uuid, hget⟩ := h.registered r replica' hr' hlod
      refine ⟨uuid, (get?_set_of_ne _ _ ?_).trans hget⟩
      rintro rfl
      exact huuid (mem_keys_iff.2 ⟨r, hget⟩)
    · exact ⟨replicaUuid, get?_set_self _ _ _⟩

theorem Reads.changes (h : m.Reads) (hr : m.replicas[r]? = some replica)
    (hact : replica.Active) (hsta : replica'.state = replica.state) (hqd : ∀ chunkIdx, replica'.Queued chunkIdx →
      replica.Queued chunkIdx ∨ ∃ v batch, m.hostPtrVector = some v ∧ batch ∈ v.items ∧ batch.chunkId = chunkIdx) :
    Changes m replica replica' := by
  refine ⟨hact, fun hs => h.cancelled r replica hr (hsta ▸ hs), fun hs => hsta ▸ hs, ?_⟩
  intro pinned chunkIdx hpin hq
  rcases hqd chunkIdx hq with hold | ⟨v, batch, hv, hbat, rfl⟩
  · exact h.queued r replica hr hact pinned chunkIdx hpin hold
  · obtain ⟨pinned', v', hpin', hv', hits⟩ := h.chunks (h.active r replica hr hact)
    cases hpin.symm.trans hpin'
    cases hv.symm.trans hv'
    exact hits batch hbat

theorem dispatch_cases (heq : m.dispatch replica = .ok replica') :
    replica'.state = replica.state ∧ replica'.task = replica.task ∧ ∀ chunkIdx, replica'.Queued chunkIdx →
      replica.Queued chunkIdx ∨ ∃ v batch, m.hostPtrVector = some v ∧ batch ∈ v.items ∧ batch.chunkId = chunkIdx := by
  unfold dispatch at heq
  split at heq
  · split at heq
    · cases heq
    · cases heq
      exact ⟨rfl, rfl, fun chunkIdx hq => .inl hq⟩
  · rename_i i _
    split at heq
    · cases heq
    · rename_i v hv
      split at heq
      · cases heq
        refine ⟨rfl, rfl, fun chunkIdx hq => .inl ?_⟩
        obtain ⟨d, queue, hget, hmem⟩ := hq
        rw [get?_mapValues, Option.map_eq_some_iff] at hget
        obtain ⟨queue', hget', rfl⟩ := hget
        exact ⟨d, queue', hget', by simpa using hmem⟩
      · split at heq
        · cases heq
        · rename_i dataChunk hitem
          cases heq
          refine ⟨rfl, rfl, ?_⟩
          intro chunkIdx hq
          obtain ⟨d, queue, hget, hmem⟩ := hq
          rw [get?_mapValues, Option.map_eq_some_iff] at hget
          obtain ⟨queue', hget', rfl⟩ := hget
          split at hmem
          · rw [mem_append, mem_singleton] at hmem
            rcases hmem with hold | hnew
            · exact .inl ⟨d, queue', hget', hold⟩
            · exact .inr ⟨v, dataChunk, hv, mem_of_getElem? hitem, (Option.some.inj hnew).symm⟩
          · exact .inl ⟨d, queue', hget', hmem⟩
  · cases heq

theorem consume_cases {d : Int} (heq : m.consume replica d = .ok replica') :
    replica'.state = replica.state ∧ replica'.task = replica.task ∧ ∀ chunkIdx, replica'.Queued chunkIdx →
      replica.Queued chunkIdx := by
  have hpop : ∀ (b : Option Nat) queue, replica.queues.get? d = some (b :: queue) → ∀ chunkIdx,
      (∃ d' queue', (replica.queues.set d queue).get? d' = some queue' ∧ some chunkIdx ∈ queue') → replica.Queued chunkIdx := by
    rintro b queue hget chunkIdx ⟨d', queue', hget', hmem⟩
    rw [get?_set] at hget'
    split at hget'
    · cases hget'
      exact ⟨d, _, hget, mem_cons_of_mem _ hmem⟩
    · exact ⟨d', queue', hget', hmem⟩
  unfold consume at heq
  split at heq
  · split at heq
    · cases heq
      exact ⟨rfl, rfl, fun _ hq => hq⟩
    · cases heq
      exact ⟨rfl, rfl, fun _ hq => hq⟩
  · rename_i queue _ hque
    cases heq
    exact ⟨rfl, rfl, hpop _ _ hque⟩
  · rename_i c queue _ hque
    split at heq
    · cases heq
      exact ⟨rfl, rfl, hpop _ _ hque⟩
    · cases heq
      exact ⟨rfl, rfl, hpop _ _ hque⟩
  · cases heq

theorem toGpuEnd_cases {ret : Int} (heq : m.toGpuEnd replica = .ok (ret, replica')) : ¬replica'.Active := by
  unfold toGpuEnd at heq
  split at heq
  · cases heq
  · split at heq
    · cases heq
    · split at heq
      · cases heq
        simp [GpuReplica.Active]
      · cases heq
        simp [GpuReplica.Active]

theorem Reads.erase (h : m.Reads) (replicaUuid : String)
    (hguard : ∀ r, m.gpuReplicas.get? replicaUuid = some r → m.replicaState r ≠ .loading) :
    Reads { m with gpuReplicas := m.gpuReplicas.erase replicaUuid } := by
  refine ⟨h.chunks, h.active, h.queued, h.cancelled, ?_⟩
  intro r replica hr hlod
  obtain ⟨uuid, hget⟩ := h.registered r replica hr hlod
  refine ⟨uuid, ?_⟩
  rw [get?_erase, if_neg ?_]
  · exact hget
  · rintro rfl
    have hr' : m.replicas[r]? = some replica := hr
    exact hguard r hget (by simp [replicaState, hr', hlod])

end Model

end ServerlessLLM
