import ServerlessLLM.Host.Store

/-!
# What a step of the store does

Each kind of step with its effect: the tasks, the lock, the pool and one model.

`Allocate` takes the buffers from the free list and `Deallocate` puts them back.
-/

namespace ServerlessLLM

open Option Dict Model

namespace PinnedMemoryPool

variable (p : PinnedMemoryPool)

/-- Buffers that can be given back: each once, of the pool, not free. -/
def Holds (bs : List Nat) : Prop := (p.freeList ++ bs).Nodup ∧ ∀ b ∈ bs, b ∈ p.pool

variable {p}

theorem deallocate_eq {bs : List Nat} (h : p.Holds bs) :
    p.deallocate bs = (0, { p with freeList := bs.reverse ++ p.freeList }) := by
  induction bs generalizing p with
  | nil => rfl
  | cons b bs ih =>
    obtain ⟨hnd, hpo⟩ := h
    have hfe : b ∉ p.freeList := fun hb => (List.nodup_append.1 hnd).2.2 b hb b List.mem_cons_self rfl
    have hrs : PinnedMemoryPool.Holds { p with freeList := b :: p.freeList } bs := by
      refine ⟨?_, fun b' hb' => hpo b' (List.mem_cons_of_mem _ hb')⟩
      exact (List.perm_middle.nodup_iff).1 hnd
    rw [deallocate, if_neg (not_not.2 (hpo b List.mem_cons_self)), if_neg hfe, ih hrs]
    simp

theorem allocate_cases (p : PinnedMemoryPool) (size : Nat) : (size = 0 ∧ p.allocate size = (-1, [], p)) ∨
    ((p.numBuffersNeeded size < 0 ∨ (p.freeList.length : Int) < p.numBuffersNeeded size) ∧
      p.allocate size = (toInt (p.numBuffersNeeded size - p.freeList.length), [], p)) ∨
    (0 ≤ p.numBuffersNeeded size ∧ p.numBuffersNeeded size ≤ p.freeList.length ∧
      p.allocate size = (0, p.freeList.take (p.numBuffersNeeded size).toNat,
        { p with freeList := p.freeList.drop (p.numBuffersNeeded size).toNat })) := by
  unfold allocate
  by_cases hsz : size = 0
  · exact .inl ⟨hsz, if_pos hsz⟩
  · rw [if_neg hsz]
    by_cases hneed : p.numBuffersNeeded size < 0 ∨ (p.freeList.length : Int) < p.numBuffersNeeded size
    · exact .inr (.inl ⟨hneed, if_pos hneed⟩)
    · rw [not_or, Int.not_lt, Int.not_lt] at hneed
      exact .inr (.inr ⟨hneed.1, hneed.2, if_neg (by omega)⟩)

theorem allocate_spec (p : PinnedMemoryPool) (size : Nat) :
    ∃ ret bs free, p.allocate size = (ret, bs, { p with freeList := free }) ∧ p.freeList = bs ++ free := by
  rcases p.allocate_cases size with ⟨-, h⟩ | ⟨-, h⟩ | ⟨-, -, h⟩
  · exact ⟨_, [], p.freeList, h, rfl⟩
  · exact ⟨_, [], p.freeList, h, rfl⟩
  · exact ⟨_, _, _, h, (List.take_append_drop _ _).symm⟩

end PinnedMemoryPool

/-- What a section other than `AllocatePinnedMemory` does to the buffers. -/
structure Keeps (m : Model) (pool : PinnedMemoryPool) (m' : Model) (pool' : PinnedMemoryPool) : Prop where
  modelSize : m'.modelSize = m.modelSize
  initialized : m.state ≠ .uninitialized → m'.state ≠ .uninitialized
  buffers : (m'.buffers = m.buffers ∧ pool' = pool) ∨ (m'.buffers = [] ∧ pool' = (pool.deallocate m.buffers).2)

namespace Model

variable (m : Model) (pool : PinnedMemoryPool)

theorem keeps_self : Keeps m pool m pool := ⟨rfl, id, .inl ⟨rfl, rfl⟩⟩

theorem keeps_resetPinned : Keeps m pool (m.resetPinned pool).1 (m.resetPinned pool).2 :=
  ⟨rfl, fun _ => by simp [resetPinned], .inr ⟨rfl, rfl⟩⟩

variable {m pool}

theorem keeps_tryFreeHost {ret : Int} {m' : Model} {pool' : PinnedMemoryPool} (h : m.tryFreeHost pool = .ok (ret, m', pool')) :
    Keeps m pool m' pool' ∧ (0 < ret → ret = m.buffers.length ∧ pool' = (pool.deallocate m.buffers).2) := by
  unfold tryFreeHost at h
  split at h
  · cases h
    exact ⟨keeps_self m pool, fun h => absurd h (by decide)⟩
  · split at h
    · cases h
      exact ⟨keeps_self m pool, fun h => absurd h (by decide)⟩
    · split at h
      · cases h
        exact ⟨keeps_self m pool, fun h => absurd h (by decide)⟩
      · split at h
        · cases h
        · rename_i pinned hpin
          cases h
          refine ⟨keeps_resetPinned m pool, fun _ => ⟨?_, rfl⟩⟩
          simp [buffers, hpin]

theorem keeps_freeReplicas {rs : List Nat} {freed : FreeWait ⊕ Int} {m' : Model} {pool' : PinnedMemoryPool}
    (h : m.freeReplicas pool rs = .ok (freed, m', pool')) : Keeps m pool m' pool' := by
  unfold freeReplicas at h
  split at h
  · cases h
    exact keeps_self m pool
  · split at h
    · cases h
    · cases h
      exact keeps_resetPinned m pool

theorem keeps_freeHost {order : List Nat} {freed : FreeWait ⊕ Int} {m' : Model} {pool' : PinnedMemoryPool}
    (h : m.freeHost pool order = .ok (freed, m', pool')) : Keeps m pool m' pool' := by
  unfold freeHost at h
  split at h
  · cases h
    exact keeps_self m pool
  · split at h
    · cases h
      exact keeps_self m pool
    · split at h
      · exact keeps_freeReplicas h
      · cases h

theorem keeps_freeHostAwake {order : List Nat} {wait : FreeWait} {freed : FreeWait ⊕ Int} {m' : Model}
    {pool' : PinnedMemoryPool}
    (h : m.freeHostAwake pool order wait = .ok (freed, m', pool')) : Keeps m pool m' pool' := by
  cases wait with
  | load =>
    simp only [freeHostAwake] at h
    split at h
    · exact keeps_freeReplicas h
    · cases h
  | replica r rest =>
    simp only [freeHostAwake] at h
    split at h
    · exact keeps_freeReplicas h
    · cases h

theorem keeps_toHostStart (m : Model) (pool : PinnedMemoryPool) (opens : Bool) : Keeps m pool (m.toHostStart opens).2 pool := by
  unfold toHostStart
  split
  · split
    · exact keeps_self m pool
    · exact keeps_self m pool
  · split
    · exact keeps_self m pool
    · split
      · exact keeps_self m pool
      · split
        · exact keeps_self m pool
        · exact ⟨rfl, fun _ => by simp, .inl ⟨rfl, rfl⟩⟩

theorem keeps_readChunk {chunkSize id chunkIdx : Nat} {m' : Model} (h : m.readChunk chunkSize id chunkIdx = .ok m') :
    Keeps m pool m' pool := by
  unfold readChunk at h
  split at h
  · cases h
  · cases h
    refine ⟨rfl, fun h => h, .inl ⟨?_, rfl⟩⟩
    cases hpin : m.pinnedMem with
    | none => simp [buffers, hpin]
    | some pinned =>
      simp only [buffers, hpin, map_some]
      split
      · rfl
      · rfl

theorem keeps_setReplica (r : Nat) (f : GpuReplica → GpuReplica) : Keeps m pool (m.setReplica r f) pool :=
  ⟨rfl, id, .inl ⟨rfl, rfl⟩⟩

theorem cancelReplicas_eq (rs : List Nat) (m : Model) :
    ∃ replicas, (cancelReplicas rs m).1 = { m with replicas := replicas } := by
  induction rs generalizing m with
  | nil => exact ⟨m.replicas, rfl⟩
  | cons r rs ih =>
    unfold cancelReplicas
    dsimp only
    split
    · obtain ⟨replicas, h⟩ := ih (m.setReplica r _)
      exact ⟨replicas, h⟩
    · exact ⟨_, rfl⟩

theorem keeps_interrupt (m : Model) (pool : PinnedMemoryPool) (rs : List Nat) : Keeps m pool (m.interrupt pool rs).2.1
    (m.interrupt pool rs).2.2 := by
  obtain ⟨replicas, h⟩ := cancelReplicas_eq rs m
  unfold interrupt
  split
  · rename_i m' wait heq
    rw [heq] at h
    dsimp only at h ⊢
    rw [h]
    exact ⟨rfl, id, .inl ⟨rfl, rfl⟩⟩
  · rename_i m' heq
    rw [heq] at h
    dsimp only at h ⊢
    rw [h]
    exact ⟨rfl, fun _ => by simp [resetPinned], .inr ⟨rfl, rfl⟩⟩

theorem keeps_toHostEnd {error : Bool} {order : List Nat} {wait : Option (Nat × List Nat)} {m' : Model}
    {pool' : PinnedMemoryPool}
    (h : m.toHostEnd pool error order = .ok (wait, m', pool')) : Keeps m pool m' pool' := by
  unfold toHostEnd at h
  split at h
  · cases h
  · split at h
    · split at h
      · have hkps := keeps_interrupt { m with state := .interrupted } pool order
        rw [SectionEnd.ok.injEq] at h
        rw [h] at hkps
        exact ⟨hkps.modelSize, fun _ => hkps.initialized (by simp), hkps.buffers⟩
      · cases h
    · cases h
      exact ⟨rfl, fun _ => by simp, .inl ⟨rfl, rfl⟩⟩

theorem keeps_toGpuStart (m : Model) (pool : PinnedMemoryPool) (task : Nat) (replicaUuid : String) (devices : List Int)
    (pieces : List (Int × Nat)) :
    Keeps m pool (m.toGpuStart task replicaUuid devices pieces).2 pool := by
  unfold toGpuStart
  split
  · exact keeps_self m pool
  · split
    · exact keeps_self m pool
    · exact ⟨rfl, id, .inl ⟨rfl, rfl⟩⟩

theorem keeps_freeGpu (m : Model) (pool : PinnedMemoryPool) (replicaUuid : String) :
    Keeps m pool (m.freeGpu replicaUuid).2 pool := by
  unfold freeGpu
  split
  · exact keeps_self m pool
  · split
    · exact keeps_self m pool
    · exact ⟨rfl, id, .inl ⟨rfl, rfl⟩⟩

theorem keeps_freeGpuAwake {replicaUuid : String} {r : Nat} {m' : Model} (h : m.freeGpuAwake replicaUuid r = .ok m') :
    Keeps m pool m' pool := by
  unfold freeGpuAwake at h
  split at h
  · cases h
    exact ⟨rfl, id, .inl ⟨rfl, rfl⟩⟩
  · cases h

end Model

namespace Store

variable {m m' : Model} {pool pool' : PinnedMemoryPool}

theorem keeps_onReplica {r : Nat} {f : GpuReplica → SectionEnd (Pc × GpuReplica)} {pc : Pc}
    (h : onReplica m r f pool = .ok (pc, m', pool')) : Keeps m pool m' pool' := by
  unfold onReplica at h
  split at h
  · cases h
  · split at h
    · cases h
    · cases h
    · cases h
      exact keeps_setReplica r _

theorem keeps_modelSection {k : Nat} {pc pc' : Pc} {choice : Choice}
    (h : modelSection k m pool pc choice = .ok (pc', m', pool')) : Keeps m pool m' pool' := by
  unfold modelSection at h
  split at h
  case h_1 opens =>
    have hkps := keeps_toHostStart m pool opens
    split at h
    · rename_i heq
      rw [heq] at hkps
      split at h
      · cases h
        exact hkps
      · cases h
        exact hkps
    · rename_i heq
      rw [heq] at hkps
      cases h
      exact hkps
  case h_2 =>
    split at h
    · split at h
      · split at h
        · rename_i heq
          cases h
          exact keeps_readChunk heq
        · cases h
        · cases h
      · cases h
        exact keeps_self m pool
    · cases h
  case h_3 =>
    split at h
    · split at h
      · rename_i heq
        cases h
        exact keeps_toHostEnd heq
      · cases h
      · cases h
    · cases h
  case h_4 r rest _ =>
    split at h
    · have hkps := keeps_interrupt m pool rest
      rw [SectionEnd.ok.injEq, Prod.mk.injEq] at h
      rwa [h.2] at hkps
    · cases h
  case h_5 =>
    split at h
    · rename_i heq
      cases h
      exact keeps_freeHost heq
    · cases h
    · cases h
  case h_6 =>
    split at h
    · rename_i heq
      cases h
      exact keeps_freeHostAwake heq
    · cases h
    · cases h
  case h_7 replicaUuid devices pieces _ =>
    have hkps := keeps_toGpuStart m pool k replicaUuid devices pieces
    split at h
    · rename_i heq
      rw [heq] at hkps
      cases h
      exact hkps
    · rename_i heq
      rw [heq] at hkps
      cases h
      exact hkps
  case h_8 => exact keeps_onReplica h
  case h_9 => exact keeps_onReplica h
  case h_10 => exact keeps_onReplica h
  case h_11 replicaUuid _ =>
    have hkps := keeps_freeGpu m pool replicaUuid
    split at h
    · rename_i heq
      rw [heq] at hkps
      cases h
      exact hkps
    · rename_i heq
      rw [heq] at hkps
      cases h
      exact hkps
  case h_12 =>
    split at h
    · rename_i heq
      cases h
      exact keeps_freeGpuAwake heq
    · cases h
    · cases h
  case h_13 => cases h

end Store

/-- Where a call is after the look-up. -/
inductive Pc.Started : Pc → Prop
  | allocate : Started .allocate
  | toGpu (replicaUuid : String) (devices : List Int) (pieces : List (Int × Nat)) : Started (.toGpu replicaUuid devices pieces)
  | freeHost : Started (.freeHost none)
  | returned (ret : Int) : Started (.returned ret)

namespace Store

variable {s s' : Store}

/-! ## A task and a model that change -/

variable {k : Nat} {modelPath : String}

variable {tasks : List Task} {t task : Task} {pc : Pc} {choice : Choice} {order : List String} {now : Nat}

theorem tasks_set_cases {k' : Nat} (h : (tasks.set k t)[k']? = some task) :
    (k' = k ∧ task = t) ∨ (k' ≠ k ∧ tasks[k']? = some task) := by
  rw [List.getElem?_set] at h
  split at h
  · rename_i heq
    split at h
    · exact .inl ⟨heq.symm, (some.inj h).symm⟩
    · cases h
  · rename_i hne
    exact .inr ⟨Ne.symm hne, h⟩

theorem forall_tasks_set {P : Nat → Task → Prop} (hrs : ∀ k' task, k' ≠ k → tasks[k']? = some task →
    P k' task) (hself : P k t) :
    ∀ k' task, (tasks.set k t)[k']? = some task → P k' task := by
  intro k' task htk
  rcases tasks_set_cases htk with ⟨rfl, rfl⟩ | ⟨hne, hold⟩
  · exact hself
  · exact hrs k' task hne hold

theorem models_set {models : Dict String Model} {m' : Model} {P : Model → Prop}
    (h : ∀ path m, models.get? path = some m → P m) (hself : P m') :
    ∀ path m, (models.set modelPath m').get? path = some m → P m := by
  intro path m hm
  rw [get?_set] at hm
  split at hm
  · cases hm
    exact hself
  · exact h path m hm

/-! ## Steps -/

def Touches (s : Store) (modelPath : String) (times : Dict String Nat) : Prop :=
  times = s.modelLastAccessTime ∨ (modelPath ∈ s.modelMap.keys ∧ ∃ now, times = s.modelLastAccessTime.set modelPath now)

theorem step_cases {a : Action} (h : s.step a = some s') :
    (∃ task, a = .call task ∧ task.pc.isCall = true ∧ s' = { s with tasks := s.tasks ++ [task] }) ∨
    (∃ freeList, a = .reorder freeList ∧ freeList.Perm s.memoryPool.freeList ∧
      s' = { s with memoryPool := { s.memoryPool with freeList := freeList } }) ∨
    (∃ k choice task, a = .step k choice ∧ s.tasks[k]? = some task ∧ s.taskStep k task choice = some s') := by
  cases a with
  | call task =>
    simp only [step] at h
    split at h
    · rename_i hca
      exact .inl ⟨task, rfl, hca.2, (some.inj h).symm⟩
    · cases h
  | step k choice =>
    simp only [step] at h
    split at h
    · cases h
    · split at h
      · cases h
      · rename_i task htk
        exact .inr (.inr ⟨k, choice, task, rfl, htk, h⟩)
  | reorder freeList =>
    simp only [step] at h
    split at h
    · rename_i hpm
      exact .inr (.inl ⟨freeList, rfl, List.isPerm_iff.1 hpm, (some.inj h).symm⟩)
    · cases h

theorem lookup_eq {ret : Int} (h : s.lookup k modelPath ret pc = some s') :
    s' = s.goto k modelPath pc ∨ s' = s.goto k modelPath (.returned ret) := by
  unfold lookup at h
  split at h
  · split at h
    · exact .inl (some.inj h).symm
    · exact .inr (some.inj h).symm
  · cases h

theorem taskStep_cases (h : s.taskStep k task choice = some s') :
    (task.pc.isCall = true ∧ ∃ pc times, Pc.Started pc ∧ s.Touches task.modelPath times ∧
      s' = { s with modelLastAccessTime := times }.goto k task.modelPath pc) ∨
    (task.pc = .allocate ∧ ∃ order now, s.allocate k task.modelPath order now = some s') ∨
    (∃ order memChunksNeeded, task.pc = .evict order memChunksNeeded ∧
      s.evict k task.modelPath order memChunksNeeded = some s') ∨
    (task.pc = .allocateAgain ∧ ∃ now, s.allocateAgain k task.modelPath now = some s') ∨
    s.inModel k task.modelPath task.pc choice = some s' := by
  unfold taskStep at h
  split at h
  case h_1 hpc =>
    refine .inl ⟨by rw [hpc]; rfl, ?_⟩
    rcases lookup_eq h with rfl | rfl
    · exact ⟨_, s.modelLastAccessTime, .allocate, .inl rfl, rfl⟩
    · exact ⟨_, s.modelLastAccessTime, .returned _, .inl rfl, rfl⟩
  case h_2 order now hpc => exact .inr (.inl ⟨hpc, order, now, h⟩)
  case h_3 order n hpc => exact .inr (.inr (.inl ⟨order, n, hpc, h⟩))
  case h_4 now hpc => exact .inr (.inr (.inr (.inl ⟨hpc, now, h⟩)))
  case h_5 uuid devices pieces now hpc =>
    refine .inl ⟨by rw [hpc]; rfl, ?_⟩
    rw [map_eq_some_iff] at h
    obtain ⟨s₁, hlu, rfl⟩ := h
    rcases lookup_eq hlu with rfl | rfl
    · split
      · rename_i hmem
        exact ⟨_, _, .toGpu uuid devices pieces, .inr ⟨hmem, now, rfl⟩, rfl⟩
      · exact ⟨_, s.modelLastAccessTime, .toGpu uuid devices pieces, .inl rfl, rfl⟩
    · split
      · rename_i hmem
        exact ⟨_, _, .returned _, .inr ⟨hmem, now, rfl⟩, rfl⟩
      · exact ⟨_, s.modelLastAccessTime, .returned _, .inl rfl, rfl⟩
  case h_6 hpc =>
    refine .inl ⟨by rw [hpc]; rfl, ?_⟩
    rcases lookup_eq h with rfl | rfl
    · exact ⟨_, s.modelLastAccessTime, .freeHost, .inl rfl, rfl⟩
    · exact ⟨_, s.modelLastAccessTime, .returned _, .inl rfl, rfl⟩
  case h_7 => exact .inr (.inr (.inr (.inr h)))

theorem allocate_cases (h : s.allocate k modelPath order now = some s') :
    s.lockedBy = none ∧ s.evictionOrder order = true ∧ ∃ m, s.modelMap.get? modelPath = some m ∧ ∃ pc lockedBy times,
      s.Touches modelPath times ∧ s' = { s with
        memoryPool := (m.allocatePinnedMemory s.memoryPool).2.2
        modelMap := s.modelMap.set modelPath (m.allocatePinnedMemory s.memoryPool).2.1
        modelLastAccessTime := times, lockedBy := lockedBy, tasks := s.tasks.set k ⟨modelPath, pc⟩ } ∧
      ((0 < (m.allocatePinnedMemory s.memoryPool).1 ∧ pc = .evict order (m.allocatePinnedMemory s.memoryPool).1 ∧
          lockedBy = some k) ∨
        (lockedBy = none ∧ (pc = .toHost ∨ pc = .returned (-1)))) := by
  unfold allocate at h
  split at h
  · cases h
  · rename_i m hm
    split at h
    · rename_i hguard
      refine ⟨hguard.1, hguard.2, m, hm, ?_⟩
      dsimp only at h
      split at h
      · obtain rfl := some.inj h
        exact ⟨_, s.lockedBy, s.modelLastAccessTime, .inl rfl, rfl, .inr ⟨hguard.1, .inr rfl⟩⟩
      · split at h
        · rename_i hpos
          obtain rfl := some.inj h
          exact ⟨_, some k, s.modelLastAccessTime, .inl rfl, rfl, .inl ⟨hpos, rfl, rfl⟩⟩
        · obtain rfl := some.inj h
          exact ⟨_, s.lockedBy, _, .inr ⟨mem_keys_iff.2 ⟨m, hm⟩, now, rfl⟩, rfl, .inr ⟨hguard.1, .inl rfl⟩⟩
    · cases h

theorem evict_cases {memChunksNeeded : Int} (h : s.evict k modelPath order memChunksNeeded = some s') :
    s' = { s with crashed := true } ∨
    (order = [] ∧ 0 < memChunksNeeded ∧ s' = { s with lockedBy := none }.goto k modelPath (.returned (-1))) ∨
    (order = [] ∧ memChunksNeeded ≤ 0 ∧ s' = s.goto k modelPath .allocateAgain) ∨
    (∃ victim rest m freedChunks m' pool, order = victim :: rest ∧ s.modelMap.get? victim = some m ∧
      m.tryFreeHost s.memoryPool = .ok (freedChunks, m', pool) ∧ ∃ pc,
        s' = { s with memoryPool := pool, modelMap := s.modelMap.set victim m', tasks := s.tasks.set k ⟨modelPath, pc⟩ } ∧
        ((0 < freedChunks ∧ memChunksNeeded - freedChunks ≤ 0 ∧ pc = .allocateAgain) ∨
          (0 < freedChunks ∧ pc = .evict rest (memChunksNeeded - freedChunks)) ∨
          (freedChunks ≤ 0 ∧ pc = .evict rest memChunksNeeded))) := by
  unfold evict at h
  split at h
  · split at h
    · rename_i hpos
      exact .inr (.inl ⟨rfl, hpos, (some.inj h).symm⟩)
    · rename_i hpos
      exact .inr (.inr (.inl ⟨rfl, by omega, (some.inj h).symm⟩))
  · rename_i victim rest
    split at h
    · exact .inl (some.inj h).symm
    · rename_i m hm
      split at h
      · rename_i freedChunks m' pool htry
        refine .inr (.inr (.inr ⟨victim, rest, m, freedChunks, m', pool, rfl, hm, htry, ?_⟩))
        dsimp only at h
        split at h
        · rename_i hfreed
          obtain rfl := some.inj h
          exact ⟨_, rfl, .inl ⟨hfreed.1, hfreed.2, rfl⟩⟩
        · obtain rfl := some.inj h
          refine ⟨_, rfl, .inr ?_⟩
          split
          · rename_i hpos
            exact .inl ⟨hpos, rfl⟩
          · rename_i hpos
            exact .inr ⟨by omega, rfl⟩
      · exact .inl (some.inj h).symm

theorem allocateAgain_cases (h : s.allocateAgain k modelPath now = some s') :
    ∃ m, s.modelMap.get? modelPath = some m ∧ ∃ pc times, s.Touches modelPath times ∧
      s' = { s with
        memoryPool := (m.allocatePinnedMemory s.memoryPool).2.2
        modelMap := s.modelMap.set modelPath (m.allocatePinnedMemory s.memoryPool).2.1
        modelLastAccessTime := times, lockedBy := none, tasks := s.tasks.set k ⟨modelPath, pc⟩ } ∧
      (pc = .toHost ∨ pc = .returned (-1)) := by
  unfold allocateAgain at h
  split at h
  · cases h
  · rename_i m hm
    refine ⟨m, hm, ?_⟩
    dsimp only at h
    split at h
    · obtain rfl := some.inj h
      exact ⟨_, s.modelLastAccessTime, .inl rfl, rfl, .inr rfl⟩
    · obtain rfl := some.inj h
      exact ⟨_, _, .inr ⟨mem_keys_iff.2 ⟨m, hm⟩, now, rfl⟩, rfl, .inl rfl⟩

theorem inModel_cases (h : s.inModel k modelPath pc choice = some s') :
    ∃ m, s.modelMap.get? modelPath = some m ∧
      ((modelSection k m s.memoryPool pc choice = .crashed ∧ s' = { s with crashed := true }) ∨
        ∃ pc' m' pool, modelSection k m s.memoryPool pc choice = .ok (pc', m', pool) ∧
          s' = { s with
            memoryPool := pool, modelMap := s.modelMap.set modelPath m', tasks := s.tasks.set k ⟨modelPath, pc'⟩ }) := by
  unfold inModel at h
  split at h
  · cases h
  · rename_i m hm
    refine ⟨m, hm, ?_⟩
    split at h
    · rename_i pc' m' pool hsec
      exact .inr ⟨pc', m', pool, hsec, (some.inj h).symm⟩
    · rename_i hsec
      exact .inl ⟨hsec, (some.inj h).symm⟩
    · cases h

end Store

end ServerlessLLM
