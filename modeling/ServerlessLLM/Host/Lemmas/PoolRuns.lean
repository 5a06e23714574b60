import ServerlessLLM.Library.Runs
import ServerlessLLM.Host.Lemmas.StoreOps

/-!
# The pool over runs

The free list and the buffers of the models are the pool in every state.
-/

namespace ServerlessLLM

open List Dict PinnedMemoryPool Model

namespace PinnedMemoryPool

/-- What a section does to the free list and to the buffers of its model, together. -/
structure Balanced (p : PinnedMemoryPool) (bs : List Nat) (p' : PinnedMemoryPool) (bs' : List Nat) : Prop where
  chunkSize : p'.chunkSize = p.chunkSize
  pool : p'.pool = p.pool
  perm : (p'.freeList ++ bs').Perm (p.freeList ++ bs)

variable {p : PinnedMemoryPool}

theorem balanced_deallocate {bs : List Nat} (h : p.Holds bs) : p.Balanced bs (p.deallocate bs).2 [] := by
  rw [deallocate_eq h]
  refine ⟨rfl, rfl, ?_⟩
  rw [append_nil]
  exact perm_append_comm.trans ((reverse_perm bs).append_left _)

theorem toInt_range (n : Int) : -2147483648 ≤ toInt n ∧ toInt n < 2147483648 :=
  ⟨Int.le_bmod (by decide), Int.bmod_lt (by decide)⟩

theorem toInt_of_range {n : Int} (hlow : -4294967296 ≤ n) (hhigh : n < 2147483648) :
    toInt n = if n < -2147483648 then n + 4294967296 else n := by
  have hpow : (2 : Nat) ^ 32 = 4294967296 := by decide
  unfold toInt Int.bmod
  rw [hpow]
  dsimp only
  split <;> split <;> omega

/-- The number of free buffers with which `Allocate` succeeds. What is negative in an `int` is a large `size_t`. -/
def target (p : PinnedMemoryPool) (size : Nat) : Int :=
  if 0 ≤ p.numBuffersNeeded size then p.numBuffersNeeded size else p.numBuffersNeeded size + 4294967296

theorem target_congr {p p' : PinnedMemoryPool} (h : p'.chunkSize = p.chunkSize) (size : Nat) :
    p'.target size = p.target size := by
  unfold target numBuffersNeeded
  rw [h]

theorem target_of_missing {size : Nat} (hfe : p.freeList.length < 2147483648)
    (h : 0 < toInt (p.numBuffersNeeded size - p.freeList.length)) :
    p.target size = p.freeList.length + toInt (p.numBuffersNeeded size - p.freeList.length) := by
  obtain ⟨hlow, hhigh⟩ : -2147483648 ≤ p.numBuffersNeeded size ∧ p.numBuffersNeeded size < 2147483648 := toInt_range _
  unfold target
  generalize p.numBuffersNeeded size = n at *
  rw [toInt_of_range (by omega) (by omega)] at h ⊢
  split at h
  · rw [if_neg (by omega)]
    omega
  · rw [if_pos (by omega)]
    omega

theorem allocate_missing (size : Nat) (hle : p.freeList.length ≤ p.pool.length) (h : 0 < (p.allocate size).1) :
    p.target size = p.freeList.length + (p.allocate size).1 ∧ (p.allocate size).2.2 = p := by
  have hfe : p.freeList.length < 2147483648 := Nat.lt_of_le_of_lt hle p.countable
  rcases p.allocate_cases size with ⟨-, heq⟩ | ⟨-, heq⟩ | ⟨-, -, heq⟩
  · simp [heq] at h
  · rw [heq] at h ⊢
    dsimp only at h ⊢
    exact ⟨target_of_missing hfe h, rfl⟩
  · simp [heq] at h

theorem allocate_enough {size : Nat} (hsz : 0 < size) (hle : p.freeList.length ≤ p.pool.length) (hpos : 0 < p.target size)
    (h : p.target size ≤ p.freeList.length) : (p.allocate size).1 = 0 ∧ (p.allocate size).2.1 ≠ [] := by
  have hfe : p.freeList.length < 2147483648 := Nat.lt_of_le_of_lt hle p.countable
  obtain ⟨hlow, hhigh⟩ : -2147483648 ≤ p.numBuffersNeeded size ∧ p.numBuffersNeeded size < 2147483648 := toInt_range _
  have hneed : 0 < p.numBuffersNeeded size ∧ p.numBuffersNeeded size ≤ p.freeList.length := by
    unfold target at hpos h
    split at h
    · rename_i hnn
      rw [if_pos hnn] at hpos
      exact ⟨hpos, h⟩
    · omega
  rcases p.allocate_cases size with ⟨hzero, -⟩ | ⟨hmis, -⟩ | ⟨-, -, heq⟩
  · omega
  · omega
  · rw [heq]
    dsimp only
    refine ⟨rfl, ?_⟩
    intro hnil
    have hlen := congrArg length hnil
    rw [length_take, length_nil] at hlen
    omega

end PinnedMemoryPool

/-! ## The sections of a model -/

theorem Keeps.balanced {m m' : Model} {pool pool' : PinnedMemoryPool} (h : Keeps m pool m' pool')
    (hhld : pool.Holds m.buffers) :
    pool.Balanced m.buffers pool' m'.buffers ∧ pool.freeList.length ≤ pool'.freeList.length := by
  rcases h.buffers with ⟨hbuf, rfl⟩ | ⟨hbuf, rfl⟩
  · rw [hbuf]
    exact ⟨⟨rfl, rfl, List.Perm.refl _⟩, Nat.le_refl _⟩
  · rw [hbuf]
    refine ⟨balanced_deallocate hhld, ?_⟩
    rw [deallocate_eq hhld]
    simp

namespace Model

variable {m : Model} {pool : PinnedMemoryPool}

theorem allocatePinnedMemory_cases (m : Model) (pool : PinnedMemoryPool) (hsta : m.state ≠ .uninitialized) :
    (m.state ≠ .unallocated ∧ m.allocatePinnedMemory pool = (0, m, pool)) ∨
    (m.state = .unallocated ∧ ∃ ret bs pool' state, (pool.deallocate m.buffers).2.allocate m.modelSize = (ret, bs, pool') ∧
      state ≠ .uninitialized ∧
      m.allocatePinnedMemory pool = (if ret = 0 ∧ bs = [] then -1 else ret,
        { m with pinnedMem := some ⟨m.allocations, bs, []⟩, allocations := m.allocations + 1, state := state }, pool') ∧
      (ret = 0 → bs ≠ [] → state = .allocated)) := by
  unfold allocatePinnedMemory
  rw [if_neg hsta]
  by_cases hun : m.state = .unallocated
  · refine .inr ⟨hun, ?_⟩
    rw [if_neg (not_not.2 hun)]
    obtain ⟨ret, bs, pool', heq⟩ : ∃ ret bs pool', (pool.deallocate m.buffers).2.allocate m.modelSize = (ret, bs, pool') :=
      ⟨_, _, _, rfl⟩
    rw [heq]
    dsimp only
    by_cases hret : ret = 0
    · by_cases hbs : bs = []
      · exact ⟨ret, bs, pool', m.state, rfl, hsta, by simp [hret, hbs], fun _ h => absurd hbs h⟩
      · exact ⟨ret, bs, pool', .allocated, rfl, by simp, by simp [hret, hbs], fun _ _ => rfl⟩
    · exact ⟨ret, bs, pool', m.state, rfl, hsta, by simp [hret], fun h => absurd h hret⟩
  · exact .inl ⟨hun, if_pos hun⟩

theorem balanced_allocatePinnedMemory (hsta : m.state ≠ .uninitialized) (hhld : pool.Holds m.buffers) :
    pool.Balanced m.buffers (m.allocatePinnedMemory pool).2.2 (m.allocatePinnedMemory pool).2.1.buffers ∧
      (m.allocatePinnedMemory pool).2.1.modelSize = m.modelSize ∧
      (m.allocatePinnedMemory pool).2.1.state ≠ .uninitialized := by
  rcases m.allocatePinnedMemory_cases pool hsta with ⟨-, heq⟩ | ⟨-, ret, bs, pool', state, halloc, hsta', heq, -⟩
  · rw [heq]
    exact ⟨⟨rfl, rfl, List.Perm.refl _⟩, rfl, hsta⟩
  · rw [heq]
    obtain ⟨_, _, free, hspec, hfe⟩ := (pool.deallocate m.buffers).2.allocate_spec m.modelSize
    rw [halloc] at hspec
    cases hspec
    obtain ⟨hchunk, hpo, hpm⟩ := balanced_deallocate hhld
    refine ⟨⟨hchunk, hpo, ?_⟩, rfl, hsta'⟩
    rw [hfe, append_nil] at hpm
    exact perm_append_comm.trans hpm

theorem length_deallocate_le {bs : List Nat} (hhld : pool.Holds bs) (hle : (pool.freeList ++ bs).length ≤ pool.pool.length) :
    (pool.deallocate bs).2.freeList.length ≤ (pool.deallocate bs).2.pool.length := by
  rw [deallocate_eq hhld]
  simpa [Nat.add_comm] using hle

theorem allocatePinnedMemory_missing (hsta : m.state ≠ .uninitialized) (hhld : pool.Holds m.buffers)
    (hle : (pool.freeList ++ m.buffers).length ≤ pool.pool.length) (h : 0 < (m.allocatePinnedMemory pool).1) :
    (m.allocatePinnedMemory pool).2.2.target m.modelSize =
      (m.allocatePinnedMemory pool).2.2.freeList.length + (m.allocatePinnedMemory pool).1 := by
  rcases m.allocatePinnedMemory_cases pool hsta with ⟨-, heq⟩ | ⟨-, ret, bs, pool', state, halloc, -, heq, -⟩
  · simp [heq] at h
  · rw [heq] at h ⊢
    dsimp only at h ⊢
    split at h
    · simp at h
    · rename_i hret
      rw [if_neg hret]
      have hmis := allocate_missing m.modelSize (length_deallocate_le hhld hle)
      rw [halloc] at hmis
      dsimp only at hmis
      obtain ⟨htgt, hpo⟩ := hmis h
      rw [hpo]
      exact htgt

theorem allocatePinnedMemory_enough (hsta : m.state ≠ .uninitialized) (hhld : pool.Holds m.buffers)
    (hle : (pool.freeList ++ m.buffers).length ≤ pool.pool.length) (hpos : 0 < pool.target m.modelSize)
    (h : pool.target m.modelSize ≤ pool.freeList.length) :
    (m.allocatePinnedMemory pool).1 = 0 ∧ (m.allocatePinnedMemory pool).2.1.state ≠ .unallocated := by
  rcases m.allocatePinnedMemory_cases pool hsta with ⟨halc, heq⟩ | ⟨-, ret, bs, pool', state, halloc, -, heq, hdone⟩
  · rw [heq]
    exact ⟨rfl, halc⟩
  · have htgt := target_congr (balanced_deallocate hhld).chunkSize m.modelSize
    have hfe : pool.freeList.length ≤ (pool.deallocate m.buffers).2.freeList.length := by
      rw [deallocate_eq hhld]
      simp
    have hen := allocate_enough (p := (pool.deallocate m.buffers).2) m.size_pos
      (length_deallocate_le hhld hle) (by omega) (by omega)
    rw [halloc] at hen
    obtain ⟨hret, hbs⟩ := hen
    dsimp only at hret hbs
    rw [heq, if_neg (fun hnil => hbs hnil.2), hdone hret hbs]
    exact ⟨hret, by simp⟩

end Model

namespace Store

def held (s : Store) : List Nat := s.modelMap.entries.flatMap fun e => e.2.buffers

theorem flatMap_buffers_set {models : Dict String Model} {modelPath : String} {m : Model} (h : models.get? modelPath = some m) :
    ∃ others, (models.entries.flatMap fun e => e.2.buffers).Perm (m.buffers ++ others) ∧
      ∀ m' : Model, ((models.set modelPath m').entries.flatMap fun e => e.2.buffers).Perm (m'.buffers ++ others) := by
  obtain ⟨l, l', hspl, hset⟩ := entries_set_of_get? h
  have hpm : ∀ m' : Model, ((l ++ (modelPath, m') :: l').flatMap fun e => e.2.buffers).Perm
      (m'.buffers ++ (l ++ l').flatMap fun e => e.2.buffers) := fun m' => perm_middle.flatMap_right _
  refine ⟨(l ++ l').flatMap fun e => e.2.buffers, ?_, ?_⟩
  · rw [hspl]
    exact hpm m
  · intro m'
    rw [hset]
    exact hpm m'

/-- The chunks that a `LoadModelFromDisk` with the lock still needs. -/
def pending : Pc → Option Int
  | .evict _ memChunksNeeded => some memChunksNeeded
  | .allocateAgain => some 0
  | _ => none

/-- A task that needs chunks has the lock, and with them its model has enough. -/
def Waits (s : Store) (k : Nat) (task : Task) : Prop :=
  ∀ n, pending task.pc = some n → s.lockedBy = some k ∧ ∃ m, s.modelMap.get? task.modelPath = some m ∧
    0 < s.memoryPool.target m.modelSize ∧ s.memoryPool.target m.modelSize ≤ s.memoryPool.freeList.length + n

structure PoolInv (s : Store) (buffers : List Nat) : Prop where
  pool : s.memoryPool.pool = buffers
  nodup : buffers.Nodup
  perm : (s.memoryPool.freeList ++ s.held).Perm buffers
  initialized : ∀ modelPath m, s.modelMap.get? modelPath = some m → m.state ≠ .uninitialized
  waits : ∀ k task, s.tasks[k]? = some task → s.Waits k task

/-- What those who wait rely on. -/
structure Grows (s s' : Store) : Prop where
  lockedBy : s'.lockedBy = s.lockedBy
  chunkSize : s'.memoryPool.chunkSize = s.memoryPool.chunkSize
  freeList : s.memoryPool.freeList.length ≤ s'.memoryPool.freeList.length
  models : ∀ modelPath m, s.modelMap.get? modelPath = some m →
    ∃ m', s'.modelMap.get? modelPath = some m' ∧ m'.modelSize = m.modelSize

variable {s s' : Store} {buffers : List Nat}

variable {k : Nat} {task : Task} {modelPath : String} {m m' : Model} {pool : PinnedMemoryPool} {pc : Pc}

theorem Waits.grows (h : s.Waits k task) (hgro : s.Grows s') : s'.Waits k task := by
  intro n hn
  obtain ⟨hlock, m, hm, hpos, hle⟩ := h n hn
  obtain ⟨m', hm', hsz⟩ := hgro.models _ m hm
  have hfe := hgro.freeList
  refine ⟨hgro.lockedBy.trans hlock, m', hm', ?_, ?_⟩
  · rw [hsz, target_congr hgro.chunkSize]
    exact hpos
  · rw [hsz, target_congr hgro.chunkSize]
    omega

theorem waits_of_pending_none (h : pending task.pc = none) : s.Waits k task := by
  intro n hn
  rw [h] at hn
  cases hn

section

variable (hinv : s.PoolInv buffers)

include hinv

theorem PoolInv.holds (hm : s.modelMap.get? modelPath = some m) :
    s.memoryPool.Holds m.buffers ∧ (s.memoryPool.freeList ++ m.buffers).length ≤ s.memoryPool.pool.length := by
  obtain ⟨others, hhe, -⟩ := flatMap_buffers_set hm
  have hpm : (s.memoryPool.freeList ++ m.buffers ++ others).Perm s.memoryPool.pool := by
    rw [append_assoc, hinv.pool]
    exact (hhe.symm.append_left _).trans hinv.perm
  have hnd := hpm.nodup_iff.2 (hinv.pool ▸ hinv.nodup)
  refine ⟨⟨(nodup_append.1 hnd).1, fun b hb => hpm.subset ?_⟩, ?_⟩
  · exact mem_append_left _ (mem_append_right _ hb)
  · have hlen := hpm.length_eq
    rw [length_append] at hlen
    omega

theorem PoolInv.perm_set (hm : s.modelMap.get? modelPath = some m) (hbal : s.memoryPool.Balanced m.buffers pool m'.buffers) :
    (pool.freeList ++ ((s.modelMap.set modelPath m').entries.flatMap fun e => e.2.buffers)).Perm buffers := by
  obtain ⟨others, hhe, hset⟩ := flatMap_buffers_set hm
  refine List.Perm.trans ?_ hinv.perm
  calc (pool.freeList ++ ((s.modelMap.set modelPath m').entries.flatMap fun e => e.2.buffers)).Perm
        (pool.freeList ++ (m'.buffers ++ others)) := (hset m').append_left _
    _ = pool.freeList ++ m'.buffers ++ others := (append_assoc _ _ _).symm
    List.Perm _ (s.memoryPool.freeList ++ m.buffers ++ others) := hbal.perm.append_right _
    _ = s.memoryPool.freeList ++ (m.buffers ++ others) := append_assoc _ _ _
    List.Perm _ (s.memoryPool.freeList ++ s.held) := hhe.symm.append_left _

theorem PoolInv.pending_none (htk : s.tasks[k]? = some task) (hlock : s.lockedBy ≠ some k) : pending task.pc = none := by
  cases hpen : pending task.pc with
  | none => rfl
  | some n => exact absurd (hinv.waits k task htk n hpen).1 hlock

theorem PoolInv.grows (hm : s.modelMap.get? modelPath = some m) (hkps : Keeps m s.memoryPool m' pool) (tasks : List Task) :
    s.Grows { s with memoryPool := pool, modelMap := s.modelMap.set modelPath m', tasks := tasks } := by
  obtain ⟨hbal, hfe⟩ := hkps.balanced (hinv.holds hm).1
  refine ⟨rfl, hbal.chunkSize, hfe, ?_⟩
  intro path m₀ hm₀
  simp only [get?_set]
  split
  · rename_i heq
    subst heq
    rw [hm] at hm₀
    cases hm₀
    exact ⟨m', rfl, hkps.modelSize⟩
  · exact ⟨m₀, hm₀, rfl⟩

theorem PoolInv.keeps {k : Nat} {task : Task}
    (hm : s.modelMap.get? modelPath = some m) (hkps : Keeps m s.memoryPool m' pool) (hwaits : Waits { s with
      memoryPool := pool, modelMap := s.modelMap.set modelPath m', tasks := s.tasks.set k task } k task) :
    PoolInv { s with memoryPool := pool, modelMap := s.modelMap.set modelPath m', tasks := s.tasks.set k task } buffers := by
  obtain ⟨hbal, -⟩ := hkps.balanced (hinv.holds hm).1
  refine ⟨hbal.pool.trans hinv.pool, hinv.nodup, hinv.perm_set hm hbal, ?_, ?_⟩
  · exact models_set hinv.initialized (hkps.initialized (hinv.initialized _ m hm))
  · refine forall_tasks_set ?_ hwaits
    intro k' task' _ htk'
    exact (hinv.waits k' task' htk').grows (hinv.grows hm hkps _)

theorem PoolInv.allocated {task : Task} {times : Dict String Nat}
    {lockedBy : Option Nat} (hm : s.modelMap.get? modelPath = some m) (hlock : ∀ k', k' ≠ k → s.lockedBy ≠ some k')
    (hwaits : Waits { s with
      memoryPool := (m.allocatePinnedMemory s.memoryPool).2.2
      modelMap := s.modelMap.set modelPath (m.allocatePinnedMemory s.memoryPool).2.1
      modelLastAccessTime := times, lockedBy := lockedBy, tasks := s.tasks.set k task } k task) :
    PoolInv { s with
      memoryPool := (m.allocatePinnedMemory s.memoryPool).2.2
      modelMap := s.modelMap.set modelPath (m.allocatePinnedMemory s.memoryPool).2.1
      modelLastAccessTime := times, lockedBy := lockedBy, tasks := s.tasks.set k task } buffers := by
  have hsta := hinv.initialized _ m hm
  obtain ⟨hbal, -, hsta'⟩ := balanced_allocatePinnedMemory hsta (hinv.holds hm).1
  refine ⟨hbal.pool.trans hinv.pool, hinv.nodup, hinv.perm_set hm hbal, models_set hinv.initialized hsta', ?_⟩
  refine forall_tasks_set ?_ hwaits
  intro k' task' hne htk'
  exact waits_of_pending_none (hinv.pending_none htk' (hlock k' hne))

theorem PoolInv.goto {k : Nat} {modelPath : String} {pc : Pc} {times : Dict String Nat}
    (hpc : pending pc = none) : PoolInv ({ s with modelLastAccessTime := times }.goto k modelPath pc) buffers :=
  ⟨hinv.pool, hinv.nodup, hinv.perm, hinv.initialized, forall_tasks_set (fun k' task' _ htk' => hinv.waits k' task' htk')
    (waits_of_pending_none hpc)⟩

end

theorem pending_of_isCall (h : pc.isCall = true) : pending pc = none := by
  unfold Pc.isCall at h
  split at h
  · rfl
  · rfl
  · rfl
  · cases h

variable {pool' : PinnedMemoryPool} {choice : Choice} {order : List String} {now : Nat}

theorem pending_onReplica {r : Nat} {f : GpuReplica → SectionEnd (Pc × GpuReplica)}
    (hf : ∀ replica pc replica', f replica = .ok (pc, replica') → pending pc = none)
    (h : onReplica m r f pool = .ok (pc, m', pool')) : pending pc = none := by
  unfold onReplica at h
  split at h
  · cases h
  · split at h
    · cases h
    · cases h
    · rename_i heq
      cases h
      exact hf _ _ _ heq

theorem pending_modelSection {pc' : Pc} (h : modelSection k m pool pc choice = .ok (pc', m', pool')) : pending pc' = none := by
  unfold modelSection at h
  split at h
  case h_1 =>
    split at h
    · split at h
      · cases h
        rfl
      · cases h
        rfl
    · cases h
      rfl
  case h_2 =>
    split at h
    · split at h
      · split at h
        · cases h
          rfl
        · cases h
        · cases h
      · cases h
        rfl
    · cases h
  case h_3 =>
    split at h
    · split at h
      · rename_i wait _ _ _
        cases h
        split
        · cases wait <;> rfl
        · rfl
      · cases h
      · cases h
    · cases h
  case h_4 r rest _ =>
    split at h
    · rw [SectionEnd.ok.injEq, Prod.mk.injEq] at h
      rw [← h.1]
      cases (m.interrupt pool rest).1 <;> rfl
    · cases h
  case h_5 =>
    split at h
    · rename_i freed _ _ _
      cases h
      cases freed <;> rfl
    · cases h
    · cases h
  case h_6 =>
    split at h
    · rename_i freed _ _ _
      cases h
      cases freed <;> rfl
    · cases h
    · cases h
  case h_7 =>
    split at h
    · cases h
      rfl
    · cases h
      rfl
  case h_8 =>
    refine pending_onReplica ?_ h
    intro replica pc replica' hf
    split at hf <;> cases hf
    rfl
  case h_9 =>
    refine pending_onReplica ?_ h
    intro replica pc replica' hf
    split at hf <;> cases hf
    rfl
  case h_10 =>
    refine pending_onReplica ?_ h
    intro replica pc replica' hf
    split at hf <;> cases hf
    split <;> rfl
  case h_11 =>
    split at h
    · cases h
      rfl
    · cases h
      rfl
  case h_12 =>
    split at h
    · cases h
      rfl
    · cases h
    · cases h
  case h_13 => cases h

section

variable (hinv : s.PoolInv buffers)

include hinv

theorem PoolInv.allocate (h : s.allocate k modelPath order now = some s') : s'.PoolInv buffers := by
  obtain ⟨hlock, -, m, hm, pc, lockedBy, times, -, rfl, hcases⟩ := allocate_cases h
  refine hinv.allocated hm (fun k' _ => by simp [hlock]) ?_
  rcases hcases with ⟨hpos, rfl, rfl⟩ | ⟨-, rfl | rfl⟩
  · have hsta := hinv.initialized _ m hm
    obtain ⟨hhld, hle⟩ := hinv.holds hm
    obtain ⟨-, hsz, -⟩ := balanced_allocatePinnedMemory hsta hhld
    have hmis := allocatePinnedMemory_missing hsta hhld hle hpos
    intro n hn
    cases hn
    refine ⟨rfl, _, get?_set_self _ _ _, ?_⟩
    dsimp only
    rw [hsz]
    omega
  · exact waits_of_pending_none rfl
  · exact waits_of_pending_none rfl

theorem PoolInv.evict {memChunksNeeded : Int} (htk : s.tasks[k]? = some ⟨modelPath, .evict order memChunksNeeded⟩)
    (h : s.evict k modelPath order memChunksNeeded = some s') : s'.PoolInv buffers := by
  obtain ⟨hlock, m₀, hm₀, hpos, hle⟩ := hinv.waits k _ htk memChunksNeeded rfl
  rcases evict_cases h with rfl | ⟨-, -, rfl⟩ | ⟨-, hneeded, rfl⟩ |
    ⟨victim, rest, m, freedChunks, m', pool, -, hm, htry, pc, rfl, hpc⟩
  · exact ⟨hinv.pool, hinv.nodup, hinv.perm, hinv.initialized, hinv.waits⟩
  · refine ⟨hinv.pool, hinv.nodup, hinv.perm, hinv.initialized, forall_tasks_set ?_ ?_⟩
    · intro k' task' hne htk'
      refine waits_of_pending_none (hinv.pending_none htk' fun hlock' => hne ?_)
      rw [hlock] at hlock'
      exact (Option.some.inj hlock').symm
    · exact waits_of_pending_none rfl
  · refine ⟨hinv.pool, hinv.nodup, hinv.perm, hinv.initialized,
      forall_tasks_set (fun k' task' _ htk' => hinv.waits k' task' htk') ?_⟩
    intro n hn
    cases hn
    exact ⟨hlock, m₀, hm₀, hpos, by dsimp only [Store.goto]; omega⟩
  · obtain ⟨hkps, hfreed⟩ := keeps_tryFreeHost htry
    refine hinv.keeps hm hkps ?_
    -- the chunks of the victim, if it was freed, are in the free list now
    obtain ⟨hlock', m₁, hm₁, hpos₁, hle₁⟩ := Waits.grows (hinv.waits k _ htk)
      (hinv.grows hm hkps (s.tasks.set k ⟨modelPath, pc⟩)) memChunksNeeded rfl
    have hgain : 0 < freedChunks → pool.freeList.length = s.memoryPool.freeList.length + freedChunks := by
      intro hpos
      obtain ⟨hret, rfl⟩ := hfreed hpos
      rw [deallocate_eq (hinv.holds hm).1, hret]
      simp [Int.add_comm]
    obtain ⟨m₂, hm₂, hsz⟩ := (hinv.grows hm hkps (s.tasks.set k ⟨modelPath, pc⟩)).models _ m₀ hm₀
    have htgt : pool.target m₂.modelSize = s.memoryPool.target m₀.modelSize := by
      rw [hsz]
      exact target_congr (hkps.balanced (hinv.holds hm).1).1.chunkSize _
    rcases hpc with ⟨hpos', hdone, rfl⟩ | ⟨hpos', rfl⟩ | ⟨-, rfl⟩
    · intro n hn
      cases hn
      have := hgain hpos'
      exact ⟨hlock', m₂, hm₂, by dsimp only; omega, by dsimp only; omega⟩
    · intro n hn
      cases hn
      have := hgain hpos'
      exact ⟨hlock', m₂, hm₂, by dsimp only; omega, by dsimp only; omega⟩
    · intro n hn
      cases hn
      exact ⟨hlock', m₁, hm₁, hpos₁, hle₁⟩

theorem PoolInv.allocateAgain (htk : s.tasks[k]? = some ⟨modelPath, .allocateAgain⟩)
    (h : s.allocateAgain k modelPath now = some s') : s'.PoolInv buffers := by
  obtain ⟨hlock, -⟩ := hinv.waits k _ htk 0 rfl
  obtain ⟨m, hm, pc, times, -, rfl, hpc⟩ := allocateAgain_cases h
  refine hinv.allocated hm (fun k' hne hlock' => hne ?_) ?_
  · rw [hlock] at hlock'
    exact (Option.some.inj hlock').symm
  · rcases hpc with rfl | rfl
    · exact waits_of_pending_none rfl
    · exact waits_of_pending_none rfl

theorem PoolInv.inModel (h : s.inModel k modelPath pc choice = some s') : s'.PoolInv buffers := by
  obtain ⟨m, hm, ⟨-, rfl⟩ | ⟨pc', m', pool, hsec, rfl⟩⟩ := inModel_cases h
  · exact ⟨hinv.pool, hinv.nodup, hinv.perm, hinv.initialized, hinv.waits⟩
  · exact hinv.keeps hm (keeps_modelSection hsec) (waits_of_pending_none (pending_modelSection hsec))

theorem PoolInv.step {a : Action} (h : s.step a = some s') : s'.PoolInv buffers := by
  rcases step_cases h with ⟨task, -, hca, rfl⟩ | ⟨freeList, -, hpm, rfl⟩ | ⟨k, choice, ⟨modelPath, pc⟩, -, htk, hst⟩
  · refine ⟨hinv.pool, hinv.nodup, hinv.perm, hinv.initialized, ?_⟩
    intro k task' htk'
    rw [getElem?_append] at htk'
    split at htk'
    · exact hinv.waits k task' htk'
    · obtain rfl : task = task' := by
        have := mem_of_getElem? htk'
        simpa [eq_comm] using this
      exact waits_of_pending_none (pending_of_isCall hca)
  · refine ⟨hinv.pool, hinv.nodup, (hpm.append_right _).trans hinv.perm, hinv.initialized, ?_⟩
    intro k task htk
    exact (hinv.waits k task htk).grows ⟨rfl, rfl, Nat.le_of_eq hpm.length_eq.symm, fun _ m hm => ⟨m, hm, rfl⟩⟩
  · rcases taskStep_cases hst with ⟨-, pc', times, hstd, -, rfl⟩ | ⟨-, order, now, hala⟩ |
      ⟨order, n, hpc, hevict⟩ | ⟨hpc, now, hala⟩ | hsec
    · cases hstd <;> exact hinv.goto rfl
    · exact hinv.allocate hala
    · dsimp only at hpc
      subst hpc
      exact hinv.evict htk hevict
    · dsimp only at hpc
      subst hpc
      exact hinv.allocateAgain htk hala
    · exact hinv.inModel hsec

theorem PoolInv.run {actions : List Action} (h : s.run actions = some s') : s'.PoolInv buffers :=
  Runs.run_invariant (I := fun s : Store => s.PoolInv buffers) (fun _ _ _ hinv hst => hinv.step hst) hinv h

end

end Store

end ServerlessLLM
