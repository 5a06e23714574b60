import ServerlessLLM.Host.Lemmas.CopyRuns

/-!
# Chunks and copies over whole runs

No chunk is lost or in two places, and a copy reads a chunk that was read from its partition.
-/

namespace ServerlessLLM

open List Option Dict Model

namespace Store

structure Conserved (s : Store) : Prop where
  freeList_nodup : s.memoryPool.freeList.Nodup
  buffers_nodup : ∀ modelPath m, s.modelMap.get? modelPath = some m → m.buffers.Nodup
  freeList_disjoint : ∀ modelPath m, s.modelMap.get? modelPath = some m → s.memoryPool.freeList.Disjoint m.buffers
  buffers_disjoint : ∀ modelPath modelPath' m m', modelPath ≠ modelPath' → s.modelMap.get? modelPath = some m →
    s.modelMap.get? modelPath' = some m' → m.buffers.Disjoint m'.buffers
  mem_pool_iff : ∀ b, b ∈ s.memoryPool.pool ↔
    b ∈ s.memoryPool.freeList ∨ ∃ modelPath m, s.modelMap.get? modelPath = some m ∧ b ∈ m.buffers

theorem mem_held_iff {s : Store} {b : Nat} : b ∈ s.held ↔ ∃ modelPath m, s.modelMap.get? modelPath = some m ∧
    b ∈ m.buffers := by
  unfold held
  rw [mem_flatMap]
  constructor
  · rintro ⟨e, he, hb⟩
    exact ⟨e.1, e.2, mem_entries_iff.1 he, hb⟩
  · rintro ⟨modelPath, m, hm, hb⟩
    exact ⟨(modelPath, m), mem_entries_iff.2 hm, hb⟩

theorem buffers_disjoint_of_nodup {s : Store} (hnd : s.held.Nodup) {modelPath modelPath' : String} {m m' : Model}
    (hne : modelPath ≠ modelPath') (hm : s.modelMap.get? modelPath = some m) (hm' : s.modelMap.get? modelPath' = some m') :
    m.buffers.Disjoint m'.buffers := by
  obtain ⟨l, l', hspl, -⟩ := entries_set_of_get? hm
  have hmem := mem_entries_iff.2 hm'
  unfold held at hnd
  rw [hspl, (perm_middle.flatMap_right _).nodup_iff, flatMap_cons, nodup_append] at hnd
  rw [hspl, perm_middle.mem_iff, mem_cons] at hmem
  intro b hb hb'
  rcases hmem with heq | hmem
  · exact hne (Prod.mk.inj heq).1.symm
  · exact hnd.2.2 b hb b (mem_flatMap.2 ⟨_, hmem, hb'⟩) rfl

theorem PoolInv.conserved {s : Store} {buffers : List Nat} (hinv : s.PoolInv buffers) : s.Conserved := by
  have hnd := hinv.perm.nodup_iff.2 hinv.nodup
  have hprs := nodup_append.1 hnd
  refine ⟨hprs.1, ?_, ?_, ?_, ?_⟩
  · intro _ m hm
    exact (nodup_append.1 (hinv.holds hm).1.1).2.1
  · intro _ m hm b hb hb'
    exact (nodup_append.1 (hinv.holds hm).1.1).2.2 b hb b hb' rfl
  · intro _ _ _ _ hne hm hm'
    exact buffers_disjoint_of_nodup hprs.2.1 hne hm hm'
  · intro b
    rw [hinv.pool, ← hinv.perm.mem_iff, mem_append, mem_held_iff]

theorem Initial.poolInv {s : Store} (h : s.Initial) : s.PoolInv s.memoryPool.pool := by
  have hhe : s.held = [] := by
    unfold held
    rw [flatMap_eq_nil_iff]
    intro e he
    obtain ⟨_, _, heq⟩ := h.models e.1 e.2 (mem_entries_iff.1 he)
    rw [heq]
    rfl
  refine ⟨rfl, h.nodup, ?_, ?_, ?_⟩
  · rw [hhe, append_nil]
    exact h.freeList
  · intro modelPath m hm
    obtain ⟨_, _, rfl⟩ := h.models modelPath m hm
    simp [initial]
  · intro k task htk
    rw [h.tasks] at htk
    cases htk

/-- In every run the pool stays as it is, each of its buffers is free or has one owner, no buffer is given back twice, and the
allocation after an eviction succeeds. -/
theorem run_conserved {s s' : Store} {actions : List Action} (hinit : s.Initial) (hrun : s.run actions = some s') :
    s'.memoryPool.pool = s.memoryPool.pool ∧ s'.Conserved ∧
      (∀ modelPath m, s'.modelMap.get? modelPath = some m → (s'.memoryPool.deallocate m.buffers).1 = 0) ∧
      ∀ (k : Nat) (modelPath : String), s'.tasks[k]? = some (⟨modelPath, .allocateAgain⟩ : Task) →
        ∃ m, s'.modelMap.get? modelPath = some m ∧ (m.allocatePinnedMemory s'.memoryPool).1 = 0 ∧
          (m.allocatePinnedMemory s'.memoryPool).2.1.state ≠ .unallocated := by
  have hinv := hinit.poolInv.run hrun
  refine ⟨hinv.pool, hinv.conserved, ?_, ?_⟩
  · intro modelPath m hm
    rw [PinnedMemoryPool.deallocate_eq (hinv.holds hm).1]
  · intro k modelPath htk
    obtain ⟨-, m, hm, hpos, hle⟩ := hinv.waits k _ htk 0 rfl
    obtain ⟨hhld, hlen⟩ := hinv.holds hm
    exact ⟨m, hm, allocatePinnedMemory_enough (hinv.initialized _ m hm) hhld hlen hpos (by omega)⟩

def twoModels : Store where
  memoryPool := ⟨1, [0, 1], [0, 1], by decide, by decide⟩
  modelMap := (Dict.empty.set "a" (.initial 2 (by decide))).set "b" (.initial 1 (by decide))
  modelLastAccessTime := .empty
  lockedBy := none
  tasks := []
  crashed := false

/-- The first model is loaded, and evicted for the second one. -/
def evicting : List Action :=
  [.call ⟨"a", .lookupDisk⟩, .step 0 (.go 1), .step 0 (.models [] 1), .step 0 (.opens true), .step 0 (.read 1 true),
    .step 0 (.read 0 true), .step 0 (.finish []), .call ⟨"b", .lookupDisk⟩, .step 1 (.go 2), .step 1 (.models ["a"] 2),
    .step 1 (.go 3)]

theorem twoModels_initial : twoModels.Initial := by
  refine ⟨by decide, by decide, fun modelPath m hm => ?_, rfl, rfl⟩
  rw [← mem_entries_iff] at hm
  have hmem : (modelPath, m) ∈ [("a", initial 2 (by decide)), ("b", initial 1 (by decide))] := hm
  rw [mem_pair] at hmem
  rcases hmem with heq | heq
  · exact ⟨_, _, (Prod.mk.inj heq).2⟩
  · exact ⟨_, _, (Prod.mk.inj heq).2⟩

theorem run_conserved_twoModels : ∃ s', twoModels.run evicting = some s' ∧
    s'.tasks[1]? = some (⟨"b", .allocateAgain⟩ : Task) ∧ s'.Conserved ∧
    ∃ m, s'.modelMap.get? "b" = some m ∧ (m.allocatePinnedMemory s'.memoryPool).1 = 0 := by
  have hso : (twoModels.run evicting).isSome = true := by decide +kernel
  obtain ⟨s', hrun⟩ := isSome_iff_exists.1 hso
  have htk : s'.tasks[1]? = some (⟨"b", .allocateAgain⟩ : Task) := by
    have h : (twoModels.run evicting).bind (fun s => s.tasks[1]?) = some (⟨"b", .allocateAgain⟩ : Task) := by decide +kernel
    rwa [hrun] at h
  obtain ⟨-, hconserved, -, hagain⟩ := run_conserved twoModels_initial hrun
  obtain ⟨m, hm, hret, -⟩ := hagain 1 "b" htk
  exact ⟨s', hrun, htk, hconserved, m, hm, hret⟩

theorem Initial.copyInv {s : Store} (h : s.Initial) : s.CopyInv := by
  refine ⟨?_, ?_, ?_⟩
  · intro modelPath m hm
    obtain ⟨_, _, rfl⟩ := h.models modelPath m hm
    exact Still.reads (fun r replica hr => by cases hr) (by simp [initial, MemoryState.HasChunks])
  · intro k task htk
    rw [h.tasks] at htk
    cases htk
  · intro k k' task task' htk
    rw [h.tasks] at htk
    cases htk

/-- In every run whose steps meet the condition, `DispatchToGpu` finds the memory and the chunks of its model, and what is
copied was read. -/
theorem run_copiesRead {s s' : Store} {actions : List Action} (hinit : s.Initial) (hguard : s.guardedRun actions = true)
    (hrun : s.run actions = some s') : s'.CopiesRead :=
  (hinit.copyInv.run hguard hrun).copiesRead

/-- A model is copied to a device while it is read from disk. -/
def copying : List Action :=
  [.call ⟨"a", .lookupDisk⟩, .step 0 (.go 1), .step 0 (.models [] 1), .step 0 (.opens true),
    .call ⟨"a", .lookupMem "u" [0] [(0, 1)]⟩, .step 1 (.go 2), .step 1 (.go 2), .step 1 .dispatch, .step 1 (.consume 0),
    .step 0 (.read 1 true), .step 1 .dispatch]

def nextCopy (s : Store) (k : Nat) (modelPath : String) (d : Int) :
    Option (Task × Option PinnedMemory × Dispatcher × Option Nat) :=
  (s.tasks[k]?).bind fun task => (s.modelMap.get? modelPath).bind fun m => (m.replicas[0]?).map fun replica =>
    (task, m.pinnedMem, replica.dispatcher, copies replica d)

theorem nextCopy_cases {s : Store} {k : Nat} {modelPath : String} {d : Int} {task : Task} {pinned : Option PinnedMemory}
    {dispatcher : Dispatcher} {chunk : Option Nat} (h : s.nextCopy k modelPath d = some (task, pinned, dispatcher, chunk)) :
    s.tasks[k]? = some task ∧ ∃ m replica, s.modelMap.get? modelPath = some m ∧ m.replicas[0]? = some replica ∧
      m.pinnedMem = pinned ∧ replica.dispatcher = dispatcher ∧ copies replica d = chunk := by
  unfold nextCopy at h
  obtain ⟨task', htk, h⟩ := bind_eq_some_iff.1 h
  obtain ⟨m, hm, h⟩ := bind_eq_some_iff.1 h
  obtain ⟨replica, hr, h⟩ := map_eq_some_iff.1 h
  cases h
  exact ⟨htk, m, replica, hm, hr, rfl, rfl, rfl⟩

theorem run_copiesRead_copying : ∃ s', twoModels.run copying = some s' ∧ s'.CopiesRead ∧
    ∃ pinned, s'.nextCopy 1 "a" 0 = some (⟨"a", .running "u" 0⟩, some pinned, .dequeues 1, some 1) ∧ 1 ∈ pinned.chunksRead := by
  have hnx : (twoModels.run copying).bind (fun s => s.nextCopy 1 "a" 0) =
      some (⟨"a", .running "u" 0⟩, some ⟨0, [0, 1], [1]⟩, .dequeues 1, some 1) := by decide +kernel
  obtain ⟨s', hrun, hnx⟩ := bind_eq_some_iff.1 hnx
  exact ⟨s', hrun, run_copiesRead twoModels_initial (by decide +kernel) hrun, _, hnx, by decide⟩

/-- The model is not in the host memory. -/
def copyingEarly : List Action := [.call ⟨"a", .lookupMem "u" [0] [(0, 1)]⟩, .step 0 (.go 1), .step 0 (.go 1)]

/-- The model is loaded, evicted, and has memory again that nothing was read into yet. -/
def copyingStale : List Action :=
  evicting ++ [.step 1 (.go 3), .step 1 (.opens true), .step 1 (.read 0 true), .step 1 (.finish []),
    .call ⟨"a", .lookupDisk⟩, .step 2 (.go 4), .step 2 (.models ["a", "b"] 4), .step 2 (.go 4),
      .step 2 (.go 4), .step 2 (.go 5),
    .call ⟨"a", .lookupMem "u" [0] [(0, 1)]⟩, .step 3 (.go 6), .step 3 (.go 6), .step 3 .dispatch, .step 3 (.consume 0),
    .step 3 .dispatch]

theorem copies_unread : twoModels.Initial ∧ (∃ s', twoModels.run copyingEarly = some s' ∧ ¬s'.CopiesRead) ∧
    ∃ s', twoModels.run copyingStale = some s' ∧ ¬s'.CopiesRead := by
  refine ⟨twoModels_initial, ?_, ?_⟩
  · have hnx : (twoModels.run copyingEarly).bind (fun s => s.nextCopy 0 "a" 0) =
        some (⟨"a", .running "u" 0⟩, none, .created, none) := by decide +kernel
    obtain ⟨s', hrun, hnx⟩ := bind_eq_some_iff.1 hnx
    obtain ⟨htk, m, replica, hm, hr, hpin, hdispatcher, -⟩ := nextCopy_cases hnx
    exact ⟨s', hrun, fun h => (h 0 "a" "u" 0 m replica htk hm hr).1 hdispatcher hpin⟩
  · have hnx : (twoModels.run copyingStale).bind (fun s => s.nextCopy 3 "a" 0) =
        some (⟨"a", .running "u" 0⟩, some ⟨2, [1, 0], []⟩, .dequeues 1, some 1) := by decide +kernel
    obtain ⟨s', hrun, hnx⟩ := bind_eq_some_iff.1 hnx
    obtain ⟨htk, m, replica, hm, hr, hpin, -, hcopies⟩ := nextCopy_cases hnx
    refine ⟨s', hrun, ?_⟩
    intro h
    obtain ⟨pinned, hpin', hrd⟩ := (h 3 "a" "u" 0 m replica htk hm hr).2.2 0 1 hcopies
    cases hpin.symm.trans hpin'
    cases hrd

end Store

end ServerlessLLM
