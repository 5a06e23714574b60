import ServerlessLLM.Host.Lemmas.PoolRuns
import ServerlessLLM.ModelPool.Pool

/-!
# The accounting of the host side

`UnloadModel` returns the size of the model as an `int`.
-/

namespace ServerlessLLM.ModelPool

open List Function Prod CpuPool

/-- The models from the least recently used one on have at least one byte and fewer than 2^31, until `need` bytes are free. -/
def EvictsSmall (need : Nat) : Nat → List RegisteredModel → Prop
  | _, [] => True
  | free, m :: ms => need ≤ free ∨ (0 < m.modelSize ∧ m.modelSize < 2 ^ 31 ∧ EvictsSmall need (free + m.modelSize) ms)

instance decidableEvictsSmall (need : Nat) : ∀ free ms, Decidable (EvictsSmall need free ms)
  | _, [] => inferInstanceAs (Decidable True)
  | free, m :: ms =>
    have := decidableEvictsSmall need (free + m.modelSize) ms
    inferInstanceAs (Decidable (need ≤ free ∨
      (0 < m.modelSize ∧ m.modelSize < 2 ^ 31 ∧ EvictsSmall need (free + m.modelSize) ms)))

namespace CpuPool

/-- The keys of `in_cpu_models`. -/
def keys (c : CpuPool) : List String := c.inCpuModels.lruList.map Prod.fst

/-- The bytes of the models in `in_cpu_models`. -/
def total (c : CpuPool) : Nat := (c.inCpuModels.lruList.map fun e => e.2.modelSize).sum

def StepEvictsSmall (models : Dict String RegisteredModel) (c : CpuPool) (path : String) : Prop :=
  ∀ m ∈ models.get? path, EvictsSmall m.modelSize (c.poolSize - c.allocated) (c.inCpuModels.lruList.reverse.map snd)

instance (models : Dict String RegisteredModel) (c : CpuPool) (path : String) : Decidable (StepEvictsSmall models c path) :=
  inferInstanceAs (Decidable (∀ m ∈ models.get? path, _))

/-- So are those of all steps. -/
def RunEvictsSmall (models : Dict String RegisteredModel) : CpuPool → List (String × DiskOutcome) → Prop
  | _, [] => True
  | c, e :: steps => StepEvictsSmall models c e.1 ∧ RunEvictsSmall models (c.loadStep models e.1 e.2).2 steps

instance decidableRunEvictsSmall (models : Dict String RegisteredModel) : ∀ c steps, Decidable (RunEvictsSmall models c steps)
  | _, [] => inferInstanceAs (Decidable True)
  | c, e :: steps =>
    have := decidableRunEvictsSmall models (c.loadStep models e.1 e.2).2 steps
    inferInstanceAs (Decidable (StepEvictsSmall models c e.1 ∧ RunEvictsSmall models (c.loadStep models e.1 e.2).2 steps))

def Held (models : Dict String RegisteredModel) (keys : List String) (hostPtr : String → Option (List Bool)) : Prop :=
  ∀ path m, models.get? path = some m →
    hostPtr path = if m.modelSize = 0 then none else some (m.tensorGroupIndexes.map fun _ => decide (path ∈ keys))

/-- The counter is the sum of the sizes and within the pool; the buffers of the models in `in_cpu_models` are held, and those of
the others are not. -/
structure Accounting (models : Dict String RegisteredModel) (c : CpuPool) : Prop where
  sum : c.allocated = c.total
  le : c.allocated ≤ c.poolSize
  held : Held models c.keys c.hostPtr

/-- With what the steps need of the list. -/
structure Accounted (models : Dict String RegisteredModel) (c : CpuPool) : Prop extends Accounting models c where
  capacity : c.inCpuModels.capacity = GPUTensorPool.maxInCpuModel
  nodup : c.keys.Nodup
  registered : ∀ e ∈ c.inCpuModels.lruList, models.get? e.1 = some e.2

variable {models : Dict String RegisteredModel} {c c' : CpuPool}

theorem subSize_eq {a b : Nat} (h : b ≤ a) (ha : a < 2 ^ 64) : subSize a b = a - b := by
  unfold subSize
  omega

theorem Held.setBuffers {keys keys' : List String} {path : String} {held : Bool} (h : Held models keys c.hostPtr)
    (hks : ∀ q, q ∈ keys' ↔ if q = path then held = true else q ∈ keys) :
      Held models keys' (c.setBuffers path held).hostPtr := by
  intro q m hq
  have hq' := h q m hq
  have hiff := hks q
  unfold CpuPool.setBuffers
  dsimp only
  by_cases hqp : q = path
  · subst hqp
    rw [if_pos rfl] at hiff
    rw [update_self, hq']
    split
    · rfl
    · simp [hiff]
  · rw [if_neg hqp] at hiff
    rw [update_of_ne hqp, hq']
    simp [hiff]

variable {es : List (String × RegisteredModel)} {path : String} {m : RegisteredModel}
  {steps : List (String × DiskOutcome)}

section

variable (h : Accounted models c)

include h

theorem unloadModel_last
    (hlist : c.inCpuModels.lruList = es ++ [(path, m)]) (hpos : 0 < m.modelSize) (hsml : m.modelSize < 2 ^ 31) :
    ({ c with inCpuModels := { c.inCpuModels with lruList := es } } : CpuPool).unloadModel path m =
      ((m.modelSize : Int), ({ c with inCpuModels := { c.inCpuModels with lruList := es } } :
        CpuPool).setBuffers path false) := by
  have hmem : (path, m) ∈ c.inCpuModels.lruList := by
    rw [hlist]
    simp
  have hkey : path ∈ c.keys := mem_map_of_mem (f := fst) hmem
  have hptr := h.held path m (h.registered _ hmem)
  rw [if_neg (by omega)] at hptr
  unfold unloadModel
  dsimp only
  rw [hptr]
  dsimp only
  rw [if_neg (by simp [hkey]), PinnedMemoryPool.toInt_of_range (by omega) (by omega), if_neg (by omega)]

theorem Accounted.unload (hlist : c.inCpuModels.lruList = es ++ [(path, m)]) :
    Accounted models { ({ c with inCpuModels := { c.inCpuModels with lruList := es } } : CpuPool).setBuffers path false with
      allocated := c.allocated - m.modelSize } := by
  have hks : c.keys = es.map fst ++ [path] := by
    unfold keys
    rw [hlist]
    simp
  have hnd := h.nodup
  rw [hks, nodup_append] at hnd
  have hnot : path ∉ es.map fst := by
    intro hpa
    exact hnd.2.2 path hpa path (by simp) rfl
  refine ⟨⟨?_, ?_, Held.setBuffers h.held ?_⟩, h.capacity, hnd.1, ?_⟩
  · have hsum := h.sum
    unfold total at *
    rw [hlist, map_append, sum_append] at hsum
    dsimp only [setBuffers]
    simp at hsum
    omega
  · have hle := h.le
    dsimp only [setBuffers]
    omega
  · intro q
    change q ∈ es.map fst ↔ _
    rw [hks]
    by_cases hq : q = path
    · subst hq
      rw [if_pos rfl]
      exact ⟨fun hpa => absurd hpa hnot, nofun⟩
    · rw [if_neg hq, mem_append, mem_singleton]
      exact ⟨.inl, fun hpa => hpa.resolve_right hq⟩
  · intro e he
    exact h.registered e (by rw [hlist]; exact mem_append_left _ he)

theorem Accounted.evictModels {need fuel : Nat} (hsz : c.poolSize < 2 ^ 64) (hneed : need ≤ c.poolSize)
    (hsml : EvictsSmall need (c.poolSize - c.allocated) (c.inCpuModels.lruList.reverse.map snd))
    (hfuel : c.inCpuModels.lruList.length < fuel) :
    ∃ c', evictModels need fuel c = (.ok, c') ∧ Accounted models c' ∧ c'.poolSize = c.poolSize ∧
      c'.allocated + need ≤ c.poolSize ∧ c'.keys ⊆ c.keys := by
  induction fuel generalizing c with
  | zero => omega
  | succ fuel ih =>
    rw [evictModels, subSize_eq h.le hsz]
    have hle := h.le
    by_cases hen : c.poolSize - c.allocated < need
    · rw [if_pos hen]
      rcases eq_nil_or_concat c.inCpuModels.lruList with hnil | ⟨es, e, hcct⟩
      · -- nothing is allocated
        have hsum := h.sum
        unfold total at hsum
        rw [hnil] at hsum
        simp at hsum
        omega
      · obtain ⟨path, m⟩ := e
        rw [concat_eq_append] at hcct
        have hsml' : EvictsSmall need (c.poolSize - c.allocated) (m :: es.reverse.map snd) := by
          rw [hcct] at hsml
          simpa using hsml
        obtain ⟨hpos, hlt, hrs⟩ := hsml'.resolve_left (by omega)
        have hget : c.inCpuModels.getandRemoveLRU = some ((path, m), { c.inCpuModels with lruList := es }) := by
          unfold LRUCache.getandRemoveLRU
          rw [hcct]
          simp
        have hunload := h.unload hcct
        have hle' := hunload.le
        have hbyt : m.modelSize ≤ c.allocated := by
          have hsum := h.sum
          unfold total at hsum
          rw [hcct] at hsum
          simp at hsum
          omega
        rw [hget]
        dsimp only
        rw [unloadModel_last h hcct hpos hlt]
        dsimp only
        have hfreed : ¬(m.modelSize : Int) ≤ 0 := by omega
        rw [if_neg hfreed, Int.toNat_natCast]
        have hsub : subSize c.allocated m.modelSize = c.allocated - m.modelSize := subSize_eq hbyt (by omega)
        obtain ⟨c', hrun, hc', hpo, hro, hsubset⟩ := ih hunload hsz hneed (by
          change EvictsSmall need (c.poolSize - (c.allocated - m.modelSize)) (es.reverse.map snd)
          rw [show c.poolSize - (c.allocated - m.modelSize) = c.poolSize - c.allocated + m.modelSize by omega]
          exact hrs) (by
          change es.length < fuel
          rw [hcct] at hfuel
          simp at hfuel
          omega)
        refine ⟨c', ?_, hc', hpo, hro, ?_⟩
        · rw [← hrun]
          exact congrArg (fun n => evictModels need fuel
            { ({ c with inCpuModels := { c.inCpuModels with lruList := es } } :
              CpuPool).setBuffers path false with allocated := n }) hsub
        · intro q hq
          have hes : q ∈ es.map fst := hsubset hq
          unfold keys
          rw [hcct, map_append]
          exact mem_append_left _ hes
    · rw [if_neg hen]
      exact ⟨c, rfl, h, rfl, by omega, List.Subset.refl _⟩

theorem Accounted.put {path : String} {m : RegisteredModel} (hsz : c.poolSize < 2 ^ 64)
    (hcnt : models.entries.length ≤ GPUTensorPool.maxInCpuModel) (hget : models.get? path = some m) (hnew : path ∉ c.keys)
    (hro : c.allocated + m.modelSize ≤ c.poolSize) :
    Accounted models { c.setBuffers path true with
      inCpuModels := (c.setBuffers path true).inCpuModels.put path m
      allocated := addSize (c.setBuffers path true).allocated m.modelSize } := by
  -- the list has room: its keys are keys of other registered models
  have hlen : c.inCpuModels.lruList.length < c.inCpuModels.capacity := by
    have hsub : path :: c.keys ⊆ models.keys := by
      intro q hq
      rcases mem_cons.1 hq with rfl | hq
      · exact Dict.mem_keys_iff.2 ⟨m, hget⟩
      · obtain ⟨e, he, rfl⟩ := mem_map.1 hq
        exact Dict.mem_keys_iff.2 ⟨e.2, h.registered e he⟩
    have hle := (subperm_of_subset (nodup_cons.2 ⟨hnew, h.nodup⟩) hsub).length_le
    have hcap := h.capacity
    simp only [keys, Dict.keys, length_cons, length_map] at hle
    omega
  have hput : (c.setBuffers path true).inCpuModels.put path m =
    { c.inCpuModels with lruList := (path, m) :: c.inCpuModels.lruList } := by
    unfold LRUCache.put setBuffers
    unfold keys at hnew
    dsimp only
    rw [if_neg hnew, if_neg (by omega)]
  have hadd : addSize (c.setBuffers path true).allocated m.modelSize = c.allocated + m.modelSize := by
    unfold addSize setBuffers
    dsimp only
    omega
  rw [hput, hadd]
  refine ⟨⟨?_, hro, Held.setBuffers h.held ?_⟩, h.capacity, nodup_cons.2 ⟨hnew, h.nodup⟩, ?_⟩
  · have hsum := h.sum
    unfold total at *
    simp
    omega
  · intro q
    change q ∈ path :: c.keys ↔ _
    by_cases hq : q = path
    · simp [hq]
    · simp [hq]
  · intro e he
    rcases mem_cons.1 he with rfl | he
    · exact hget
    · exact h.registered e he

theorem Accounted.read {path : String} {m : RegisteredModel} (hsz : c.poolSize < 2 ^ 64)
    (hcnt : models.entries.length ≤ GPUTensorPool.maxInCpuModel) (hget : models.get? path = some m) (hnew : path ∉ c.keys)
    (hro : c.allocated + m.modelSize ≤ c.poolSize) (disk : DiskOutcome) :
    Accounted models (c.readStep path m disk).2 ∧ (c.readStep path m disk).2.poolSize = c.poolSize ∧
      ((c.readStep path m disk).1 = .ok ∨ (c.readStep path m disk).1 = .readFailed) := by
  cases disk with
  | read => exact ⟨h.put hsz hcnt hget hnew hro, rfl, .inl rfl⟩
  | notOpened => exact ⟨h, rfl, .inr rfl⟩
  | readFailed =>
    refine ⟨⟨⟨h.sum, h.le, Held.setBuffers h.held ?_⟩, h.capacity, h.nodup, h.registered⟩, rfl, .inr rfl⟩
    intro q
    change q ∈ c.keys ↔ _
    by_cases hq : q = path
    · simp [hq, hnew]
    · simp [hq]

theorem Accounted.loadStep (hsz : c.poolSize < 2 ^ 64)
    (hcnt : models.entries.length ≤ GPUTensorPool.maxInCpuModel) {path : String} (hsml : StepEvictsSmall models c path)
    (disk : DiskOutcome) :
    Accounted models (c.loadStep models path disk).2 ∧ (c.loadStep models path disk).2.poolSize = c.poolSize ∧
      (c.loadStep models path disk).1 ≠ .unloadFailed ∧ (c.loadStep models path disk).1 ≠ .noMoreModels := by
  cases hget : models.get? path with
  | none =>
    have hst : c.loadStep models path disk = (.notRegistered, c) := by rw [CpuPool.loadStep, hget]
    rw [hst]
    exact ⟨h, rfl, nofun, nofun⟩
  | some m =>
    by_cases hkey : path ∈ c.keys
    · have hst : c.loadStep models path disk = (.contained, c) := by
        rw [CpuPool.loadStep, hget]
        exact if_pos (decide_eq_true hkey)
      rw [hst]
      exact ⟨h, rfl, nofun, nofun⟩
    · have hcon : ¬c.inCpuModels.contains path = true := by
        intro hcon
        exact hkey (of_decide_eq_true hcon)
      by_cases hlrg : c.poolSize < m.modelSize
      · have hst : c.loadStep models path disk = (.largerThanPool, c) := by
          rw [CpuPool.loadStep, hget]
          dsimp only
          rw [if_neg hcon, if_pos hlrg]
        rw [hst]
        exact ⟨h, rfl, nofun, nofun⟩
      · have hfuel : c.inCpuModels.lruList.length < c.inCpuModels.lruList.length + 1 := Nat.lt_succ_self _
        obtain ⟨c', hevict, hc', hpo, hro, hsub⟩ := h.evictModels hsz (Nat.le_of_not_lt hlrg) (hsml m hget) hfuel
        have hst : c.loadStep models path disk = c'.readStep path m disk := by
          rw [CpuPool.loadStep, hget]
          dsimp only
          rw [if_neg hcon, if_neg hlrg, hevict]
        obtain ⟨haccounted, hpo', hsts⟩ := hc'.read (by rw [hpo]; exact hsz) hcnt hget (fun hmem => hkey (hsub hmem))
          (by rw [hpo]; exact hro) disk
        rw [hst]
        refine ⟨haccounted, hpo'.trans hpo, ?_, ?_⟩
        · rcases hsts with hs | hs
          · rw [hs]
            exact nofun
          · rw [hs]
            exact nofun
        · rcases hsts with hs | hs
          · rw [hs]
            exact nofun
          · rw [hs]
            exact nofun

theorem Accounted.run (hsz : c.poolSize < 2 ^ 64)
    (hcnt : models.entries.length ≤ GPUTensorPool.maxInCpuModel) (hsml : RunEvictsSmall models c steps) :
    Accounted models (c.run models steps) ∧ (c.run models steps).poolSize = c.poolSize := by
  induction steps generalizing c with
  | nil => exact ⟨h, rfl⟩
  | cons e steps ih =>
    obtain ⟨hst, hpo, -⟩ := h.loadStep hsz hcnt hsml.1 e.2
    have hrs := ih hst (by rw [hpo]; exact hsz) hsml.2
    rw [hpo] at hrs
    exact hrs

end

theorem runEvictsSmall_append {steps' : List (String × DiskOutcome)} :
    RunEvictsSmall models c (steps ++ steps') ↔
      RunEvictsSmall models c steps ∧ RunEvictsSmall models (c.run models steps) steps' := by
  induction steps generalizing c with
  | nil => exact ⟨fun h => ⟨trivial, h⟩, And.right⟩
  | cons e steps ih =>
    simp only [cons_append, RunEvictsSmall, ih, and_assoc]
    rfl

theorem init_accounted (models : Dict String RegisteredModel) (poolSize : Nat) : Accounted models (.init models poolSize) := by
  refine ⟨⟨rfl, Nat.zero_le _, ?_⟩, rfl, nodup_nil, nofun⟩
  intro path m hget
  unfold init keys
  dsimp only
  rw [hget]
  simp

end CpuPool

/-- Every run in which the models that are evicted are small: the accounts are right after it, and its last step, which is any
step of such a run, does not fail for lack of memory. -/
theorem cpuPool_accounting {models : Dict String RegisteredModel} {poolSize : Nat} {steps : List (String × DiskOutcome)}
    {path : String} {disk : DiskOutcome} (hsize : poolSize < 2 ^ 64)
      (hcount : models.entries.length ≤ GPUTensorPool.maxInCpuModel)
    (hsmall : RunEvictsSmall models (.init models poolSize) (steps ++ [(path, disk)])) :
    Accounting models ((init models poolSize).run models (steps ++ [(path, disk)])) ∧
      (((init models poolSize).run models steps).loadStep models path disk).1 ≠ .unloadFailed ∧
      (((init models poolSize).run models steps).loadStep models path disk).1 ≠ .noMoreModels := by
  have hinit := init_accounted models poolSize
  obtain ⟨hfst, hla, -⟩ := runEvictsSmall_append.1 hsmall
  obtain ⟨haccounted, hpo⟩ := hinit.run hsize hcount hfst
  have hst := haccounted.loadStep (by rw [hpo]; exact hsize) hcount hla disk
  exact ⟨(hinit.run hsize hcount hsmall).1.toAccounting, hst.2.2⟩

def smallModels : Dict String RegisteredModel :=
  (Dict.empty.set "a" ⟨3, [⟨0, 3, "x", []⟩], []⟩).set "b" ⟨3, [⟨0, 3, "y", []⟩], []⟩

theorem cpuPool_smallModels :
    Accounting smallModels ((init smallModels 4).run smallModels ([("a", .read)] ++ [("b", .read)])) ∧
      (((init smallModels 4).run smallModels [("a", .read)]).loadStep smallModels "b" .read).1 ≠ .unloadFailed ∧
      (((init smallModels 4).run smallModels [("a", .read)]).loadStep smallModels "b" .read).1 ≠ .noMoreModels :=
  cpuPool_accounting (by decide) (by decide +kernel) (by decide +kernel)

def largeModels : Dict String RegisteredModel :=
  (Dict.empty.set "a" ⟨2147483648, [⟨0, 2147483648, "x", []⟩], []⟩).set "b" ⟨2147483648, [⟨0, 2147483648, "y", []⟩], []⟩

/-- The second model fits, and is not loaded: the first one is unloaded, and its bytes stay counted. -/
theorem cpuPool_largeModels :
    (((init largeModels 2147483648).run largeModels [("a", .read)]).loadStep largeModels "b" .read).1 = .unloadFailed ∧
      ¬Accounting largeModels ((init largeModels 2147483648).run largeModels ([("a", .read)] ++ [("b", .read)])) := by
  refine ⟨by decide +kernel, ?_⟩
  intro h
  exact absurd h.sum (by decide +kernel)

end ServerlessLLM.ModelPool
