import Mathlib.Algebra.BigOperators.Group.List.Basic
import ServerlessLLM.Library.Runs
import ServerlessLLM.Serving.LocalStore

/-!
# The pinned pool of a node

`pinned_memory_pool_usage` is never raised, and the eviction of a model ends the loading loop with a `TypeError`.
-/

namespace ServerlessLLM.Serving.LocalStore

open List Option Dict Prod State

variable (cfg : Config)

namespace State

variable (s : State)

def chunks (modelName : String) : Int := cfg.requiredChunks (((s.diskModels.get? modelName).map Prod.snd).getD 0)

/-- The counter has the chunks of the models in the pool, and is within its size. -/
def BooksKept : Prop :=
  s.pinnedMemoryPoolUsage = (s.pinnedMemoryPool.keys.map (s.chunks cfg)).sum ∧
    s.pinnedMemoryPoolUsage ≤ cfg.pinnedMemoryPoolChunks

def evictable (models : List (String × ℚ)) : List String :=
  (models.map fst).filter fun modelName => (s.queuedModels.get? modelName).isNone

/-- What is in use after these models are evicted. -/
def usageWithout (models : List (String × ℚ)) : Int := s.pinnedMemoryPoolUsage - ((s.evictable models).map (s.chunks cfg)).sum

/-- `_lru_eviction` evicts the models that were loaded first, one after the other while the new one does not fit, and says
whether it fits then; a model that is not larger than the pool does, if no model in the pool is queued. -/
def EvictsInOrder (modelSize : Int) : Prop :=
  ∃ evicted kept result, s.sortedModels = evicted ++ kept ∧
    s.lruEviction cfg modelSize = ({ s with
      pinnedMemoryPool := (s.evictable evicted).foldl erase s.pinnedMemoryPool
      pinnedMemoryPoolUsage := s.usageWithout cfg evicted }, .ok result) ∧
    (∀ before, before <+: evicted → before ≠ evicted →
      s.usageWithout cfg before + cfg.requiredChunks modelSize > cfg.pinnedMemoryPoolChunks) ∧
    (result = true ↔ s.usageWithout cfg evicted + cfg.requiredChunks modelSize ≤ cfg.pinnedMemoryPoolChunks) ∧
    (cfg.requiredChunks modelSize ≤ cfg.pinnedMemoryPoolChunks →
      (∀ modelName ∈ s.pinnedMemoryPool.keys, s.queuedModels.get? modelName = none) → result = true)

def nextSize : Option Int := s.ioQueue.head?.bind fun e => (s.diskModels.get? e.modelName).map Prod.snd

end State

/-- An iteration of the loading loop makes room for a model as it should. -/
def EvictsRight (s : State) : Step → Prop
  | .loadingLoop _ _ => s.loader = true → ∀ size ∈ s.nextSize, s.EvictsInOrder cfg size
  | _ => True

/-- The condition on a step. An iteration that comes to a model larger than the pool finds the pool empty, and the model that is
loaded in an iteration has no chunks. -/
def Meets (s : State) : Step → Prop
  | .loadingLoop ret _ => s.loader = true → ∀ size ∈ s.nextSize,
    if cfg.requiredChunks size ≤ cfg.pinnedMemoryPoolChunks then ret = true → cfg.requiredChunks size = 0
    else s.pinnedMemoryPool.keys = []
  | _ => True

/-- What every step keeps: the counter is at zero, what is queued or in the pool is on the disk, and nothing is both. -/
structure Sound (s : State) : Prop where
  usage : s.pinnedMemoryPoolUsage = 0
  queued : ∀ e ∈ s.ioQueue, (s.queuedModels.get? e.modelName).isSome
  stored : ∀ e ∈ s.ioQueue, e.modelName ∈ s.diskModels.keys
  pinned : ∀ modelName ∈ s.pinnedMemoryPool.keys, modelName ∈ s.diskModels.keys
  apart : ∀ modelName ∈ s.pinnedMemoryPool.keys, s.queuedModels.get? modelName = none
  names : (s.ioQueue.map IoEntry.modelName).Nodup

variable {cfg} {s s' : State} {size : Int}

/-! ## The eviction -/

theorem evict_of_fits (h : s.pinnedMemoryPoolUsage + size ≤ cfg.pinnedMemoryPoolChunks) (models : List (String × ℚ)) :
    evict cfg size models s = (s, .ok ()) := by
  cases models with
  | nil => rfl
  | cons m models =>
    unfold evict
    rw [if_neg (not_lt.2 h)]

theorem evict_of_large (h : s.pinnedMemoryPoolUsage + size > cfg.pinnedMemoryPoolChunks) {m : String × ℚ}
    {models : List (String × ℚ)} (hm : s.queuedModels.get? m.1 = none) :
    evict cfg size (m :: models) s =
      ({ s with pinnedMemoryPool := s.pinnedMemoryPool.erase m.1 }, .error .typeError) := by
  unfold evict
  rw [if_pos h, if_neg (by simp [hm])]
  rfl

theorem mem_sortedModels {m : String × ℚ} (h : m ∈ s.sortedModels) : m.1 ∈ s.pinnedMemoryPool.keys :=
  mem_map_of_mem ((mem_insertionSort _).1 h)

theorem sortedModels_eq_nil (h : s.pinnedMemoryPool.keys = []) : s.sortedModels = [] := by
  unfold sortedModels
  rw [map_eq_nil_iff.1 h]
  rfl

theorem lruEviction_of_fits (h : Sound s) {modelSize : Int}
    (hft : cfg.requiredChunks modelSize ≤ cfg.pinnedMemoryPoolChunks) : s.lruEviction cfg modelSize = (s, .ok true) := by
  have husage : s.pinnedMemoryPoolUsage + cfg.requiredChunks modelSize ≤ cfg.pinnedMemoryPoolChunks := by
    rw [h.usage, zero_add]
    exact hft
  unfold lruEviction
  rw [evict_of_fits husage]
  simp [Except.map, husage]

theorem lruEviction_of_empty (h : Sound s) {modelSize : Int} (hlrg : ¬cfg.requiredChunks modelSize ≤ cfg.pinnedMemoryPoolChunks)
    (hemp : s.pinnedMemoryPool.keys = []) : s.lruEviction cfg modelSize = (s, .ok false) := by
  unfold lruEviction
  rw [sortedModels_eq_nil hemp]
  simp [evict, Except.map, h.usage, not_le.1 hlrg]

theorem lruEviction_of_large (h : Sound s) {modelSize : Int} (hlrg : ¬cfg.requiredChunks modelSize ≤ cfg.pinnedMemoryPoolChunks)
    (hks : s.pinnedMemoryPool.keys ≠ []) : ∃ modelName, s.lruEviction cfg modelSize =
      ({ s with pinnedMemoryPool := s.pinnedMemoryPool.erase modelName }, .error .typeError) := by
  cases hmds : s.sortedModels with
  | nil =>
    have hlen := congrArg length hmds
    unfold sortedModels at hlen
    rw [length_insertionSort, length_nil, length_eq_zero_iff] at hlen
    exact absurd (map_eq_nil_iff.2 hlen) hks
  | cons m models =>
    have hm : s.queuedModels.get? m.1 = none := h.apart _ (mem_sortedModels (hmds ▸ mem_cons_self))
    have husage : s.pinnedMemoryPoolUsage + cfg.requiredChunks modelSize > cfg.pinnedMemoryPoolChunks := by
      rw [h.usage, zero_add]
      exact not_le.1 hlrg
    refine ⟨m.1, ?_⟩
    unfold lruEviction
    rw [hmds, evict_of_large husage hm]
    rfl

theorem evictsInOrder_of_unchanged (h : Sound s) {modelSize : Int} {result : Bool}
    (hlru : s.lruEviction cfg modelSize = (s, .ok result))
    (hrs : result = true ↔ cfg.requiredChunks modelSize ≤ cfg.pinnedMemoryPoolChunks) : s.EvictsInOrder cfg modelSize := by
  have husage : s.usageWithout cfg [] = s.pinnedMemoryPoolUsage := by simp [usageWithout, evictable]
  refine ⟨[], s.sortedModels, result, rfl, ?_, ?_, ?_, fun hft _ => hrs.2 hft⟩
  · rw [hlru, husage]
    rfl
  · exact fun before hbef hne => absurd (prefix_nil.1 hbef) hne
  · rw [husage, h.usage, zero_add]
    exact hrs

theorem evictsInOrder_iff (h : Sound s) (modelSize : Int) : s.EvictsInOrder cfg modelSize ↔
    (cfg.requiredChunks modelSize ≤ cfg.pinnedMemoryPoolChunks ∨ s.pinnedMemoryPool.keys = []) := by
  by_cases hft : cfg.requiredChunks modelSize ≤ cfg.pinnedMemoryPoolChunks
  · exact iff_of_true (evictsInOrder_of_unchanged h (lruEviction_of_fits h hft) (iff_of_true rfl hft)) (.inl hft)
  · by_cases hemp : s.pinnedMemoryPool.keys = []
    · exact iff_of_true (evictsInOrder_of_unchanged h (lruEviction_of_empty h hft hemp) (iff_of_false nofun hft)) (.inr hemp)
    · refine iff_of_false ?_ (not_or.2 ⟨hft, hemp⟩)
      rintro ⟨evicted, kept, result, -, hlru, -⟩
      obtain ⟨modelName, heq⟩ := lruEviction_of_large h hft hemp
      cases congrArg snd (heq.symm.trans hlru)

/-! ## The steps -/

theorem registerModel_eq (s : State) (modelName backend : String) (tensorParallelSize : Int) (register : String → Int) :
    s.registerModel modelName backend tensorParallelSize register = s ∨ s.diskModels.get? modelName = none ∧
      ∃ entry, s.registerModel modelName backend tensorParallelSize register =
        { s with diskModels := s.diskModels.set modelName entry } := by
  unfold registerModel
  split
  · exact .inl rfl
  · rename_i hnew
    rw [isSome_iff_ne_none, not_not] at hnew
    simp only
    split
    · exact .inl rfl
    · exact .inr ⟨hnew, _, rfl⟩

theorem Sound.registerModel (h : Sound s) (modelName backend : String) (tensorParallelSize : Int) (register : String → Int) :
    Sound (s.registerModel modelName backend tensorParallelSize register) := by
  rcases registerModel_eq s modelName backend tensorParallelSize register with heq | ⟨-, entry, heq⟩
  · rw [heq]
    exact h
  · rw [heq]
    exact ⟨h.usage, h.queued, fun e he => mem_keys_set.2 (.inr (h.stored e he)),
      fun m hm => mem_keys_set.2 (.inr (h.pinned m hm)), h.apart, h.names⟩

theorem loadToHost_eq (cfg : Config) (s : State) (modelName : String) (now : ℚ) : s.loadToHost cfg modelName now = s ∨
    modelName ∈ s.diskModels.keys ∧ s.pinnedMemoryPool.get? modelName = none ∧ s.queuedModels.get? modelName = none ∧
      ∃ time, s.loadToHost cfg modelName now = { s with
        ioQueue := s.ioQueue ++ [⟨modelName, time⟩]
        queuedModels := s.queuedModels.set modelName true } := by
  unfold loadToHost
  split
  · exact .inl rfl
  · rename_i path size hdk
    split
    · exact .inl rfl
    · rename_i hpin
      split
      · exact .inl rfl
      · rename_i hqd
        rw [isSome_iff_ne_none, not_not] at hpin hqd
        exact .inr ⟨mem_keys_iff.2 ⟨_, hdk⟩, hpin, hqd, _, rfl⟩

theorem Sound.loadToHost (h : Sound s) (modelName : String) (now : ℚ) : Sound (s.loadToHost cfg modelName now) := by
  rcases loadToHost_eq cfg s modelName now with heq | ⟨hdk, hpin, hqd, time, heq⟩
  · rw [heq]
    exact h
  · rw [heq]
    refine ⟨h.usage, ?_, ?_, h.pinned, ?_, ?_⟩
    · intro e he
      have hget := get?_set s.queuedModels modelName e.modelName true
      rcases mem_append.1 he with he | he
      · rw [hget]
        split
        · rfl
        · exact h.queued e he
      · rw [hget, if_pos (by rw [mem_singleton.1 he])]
        rfl
    · intro e he
      rcases mem_append.1 he with he | he
      · exact h.stored e he
      · rw [mem_singleton.1 he]
        exact hdk
    · intro m hm
      have hne : m ≠ modelName := by
        rintro rfl
        exact get?_eq_none_iff.1 hpin hm
      exact (get?_set_of_ne _ _ hne).trans (h.apart m hm)
    · rw [map_append, nodup_append]
      refine ⟨h.names, by simp, ?_⟩
      rintro x hx y hy rfl
      obtain ⟨e, he, rfl⟩ := mem_map.1 hx
      have hnm : e.modelName = modelName := by simpa using hy
      have hso := h.queued e he
      rw [hnm, hqd] at hso
      cases hso

theorem nextSize_cons {e : IoEntry} {rest : List IoEntry} {entry : String × Int} (hque : s.ioQueue = e :: rest)
    (hdk : s.diskModels.get? e.modelName = some entry) : s.nextSize = some entry.2 := by
  unfold nextSize
  rw [hque, head?_cons, bind_some, hdk]
  rfl

theorem loadingLoop_cases (cfg : Config) (h : Sound s) (ret : Bool) (now : ℚ) :
    (s.nextSize = none ∧ s.loadingLoop cfg ret now = s) ∨
    ∃ e rest entry, s.ioQueue = e :: rest ∧ s.diskModels.get? e.modelName = some entry ∧
      ((cfg.requiredChunks entry.2 ≤ cfg.pinnedMemoryPoolChunks ∧ s.loadingLoop cfg ret now = { s with
          ioQueue := rest
          queuedModels := s.queuedModels.erase e.modelName
          pinnedMemoryPool := if ret then s.pinnedMemoryPool.set e.modelName now else s.pinnedMemoryPool }) ∨
        (¬cfg.requiredChunks entry.2 ≤ cfg.pinnedMemoryPoolChunks ∧ s.pinnedMemoryPool.keys = [] ∧
          s.loadingLoop cfg ret now = s) ∨
        (¬cfg.requiredChunks entry.2 ≤ cfg.pinnedMemoryPoolChunks ∧ s.pinnedMemoryPool.keys ≠ [] ∧
          ∃ modelName, s.loadingLoop cfg ret now =
            { s with pinnedMemoryPool := s.pinnedMemoryPool.erase modelName, loader := false })) := by
  cases hque : s.ioQueue with
  | nil =>
    refine .inl ⟨?_, ?_⟩
    · unfold nextSize
      rw [hque]
      rfl
    · unfold loadingLoop
      rw [hque]
  | cons e rest =>
    obtain ⟨entry, hdk⟩ := mem_keys_iff.1 (h.stored e (hque ▸ mem_cons_self))
    refine .inr ⟨e, rest, entry, rfl, hdk, ?_⟩
    by_cases hft : cfg.requiredChunks entry.2 ≤ cfg.pinnedMemoryPoolChunks
    · refine .inl ⟨hft, ?_⟩
      unfold loadingLoop
      simp only [hque, hdk, lruEviction_of_fits h hft]
      cases ret with
      | true => simp
      | false => simp
    · refine .inr ?_
      by_cases hemp : s.pinnedMemoryPool.keys = []
      · refine .inl ⟨hft, hemp, ?_⟩
        unfold loadingLoop
        simp only [hque, hdk, lruEviction_of_empty h hft hemp]
      · obtain ⟨modelName, hlru⟩ := lruEviction_of_large h hft hemp
        refine .inr ⟨hft, hemp, modelName, ?_⟩
        unfold loadingLoop
        simp only [hque, hdk, hlru]

theorem Sound.loadingLoop (h : Sound s) (cfg : Config) (ret : Bool) (now : ℚ) : Sound (s.loadingLoop cfg ret now) := by
  rcases loadingLoop_cases cfg h ret now with ⟨-, heq⟩ | ⟨e, rest, entry, hque, hdk, hcases⟩
  · rw [heq]
    exact h
  · rcases hcases with ⟨-, heq⟩ | ⟨-, -, heq⟩ | ⟨-, -, modelName, heq⟩
    · have hnms := h.names
      rw [hque, map_cons, nodup_cons] at hnms
      have hrs : ∀ e' ∈ rest, e' ∈ s.ioQueue := fun e' he' => hque ▸ mem_cons_of_mem _ he'
      -- the model that was loaded is not queued any more
      have hpin : ∀ m ∈ (if ret then s.pinnedMemoryPool.set e.modelName now else s.pinnedMemoryPool).keys,
          m = e.modelName ∨ m ∈ s.pinnedMemoryPool.keys := by
        intro m hm
        split at hm
        · exact mem_keys_set.1 hm
        · exact .inr hm
      rw [heq]
      refine ⟨h.usage, ?_, fun e' he' => h.stored e' (hrs e' he'), ?_, ?_, hnms.2⟩
      · intro e' he'
        have hne : e'.modelName ≠ e.modelName := fun hnm => hnms.1 (hnm ▸ mem_map_of_mem he')
        simp only [get?_erase, if_neg hne]
        exact h.queued e' (hrs e' he')
      · intro m hm
        rcases hpin m hm with rfl | hm
        · exact mem_keys_iff.2 ⟨_, hdk⟩
        · exact h.pinned m hm
      · intro m hm
        simp only [get?_erase]
        split
        · rfl
        · rename_i hne
          exact h.apart m ((hpin m hm).resolve_left hne)
    · rw [heq]
      exact h
    · rw [heq]
      exact ⟨h.usage, h.queued, h.stored, fun m hm => h.pinned m (mem_keys_erase.1 hm).1,
        fun m hm => h.apart m (mem_keys_erase.1 hm).1, h.names⟩

theorem Sound.step (h : Sound s) {step : Step} (hst : s.step cfg step = some s') : Sound s' := by
  cases step with
  | registerModel modelName backend tensorParallelSize register =>
    cases hst
    exact h.registerModel modelName backend tensorParallelSize register
  | loadToHost modelName now =>
    cases hst
    exact h.loadToHost modelName now
  | loadingLoop ret now =>
    simp only [State.step] at hst
    split at hst
    · cases hst
      exact h.loadingLoop cfg ret now
    · cases hst

/-! ## When the books are kept -/

theorem booksKept_iff (h : Sound s) : s.BooksKept cfg ↔ (s.pinnedMemoryPool.keys.map (s.chunks cfg)).sum = 0 := by
  unfold BooksKept
  rw [h.usage]
  constructor
  · exact fun hbks => hbks.1.symm
  · exact fun hsum => ⟨hsum.symm, Int.natCast_nonneg _⟩

theorem booksKept_registerModel (h : Sound s) (hbks : s.BooksKept cfg) (modelName backend : String) (tensorParallelSize : Int)
    (register : String → Int) : (s.registerModel modelName backend tensorParallelSize register).BooksKept cfg := by
  rcases registerModel_eq s modelName backend tensorParallelSize register with heq | ⟨hnew, entry, heq⟩
  · rw [heq]
    exact hbks
  · refine ⟨?_, by rw [heq]; exact hbks.2⟩
    rw [heq]
    refine hbks.1.trans (congrArg sum (map_congr_left ?_))
    intro m hm
    have hne : m ≠ modelName := by
      rintro rfl
      exact get?_eq_none_iff.1 hnew (h.pinned m hm)
    unfold chunks
    rw [get?_set_of_ne _ _ hne]

theorem booksKept_loadToHost (hbks : s.BooksKept cfg) (modelName : String) (now : ℚ) :
    (s.loadToHost cfg modelName now).BooksKept cfg := by
  rcases loadToHost_eq cfg s modelName now with heq | ⟨-, -, -, time, heq⟩
  · rw [heq]
    exact hbks
  · rw [heq]
    exact hbks

theorem loadingLoop_iff (h : Sound s) (hbks : s.BooksKept cfg) (hldr : s.loader = true) (ret : Bool) (now : ℚ) :
    (s.loadingLoop cfg ret now).BooksKept cfg ∧ EvictsRight cfg s (.loadingLoop ret now) ↔
      Meets cfg s (.loadingLoop ret now) := by
  simp only [EvictsRight, Meets, hldr, true_implies]
  rcases loadingLoop_cases cfg h ret now with ⟨hno, heq⟩ | ⟨e, rest, entry, hque, hdk, hcases⟩
  · rw [hno, heq]
    exact iff_of_true ⟨hbks, by rintro size ⟨⟩⟩ (by rintro size ⟨⟩)
  · have hnx := nextSize_cons hque hdk
    simp only [hnx, mem_def, Option.some.injEq, forall_eq', evictsInOrder_iff h]
    rcases hcases with ⟨hft, heq⟩ | ⟨hlrg, hemp, heq⟩ | ⟨hlrg, hemp, modelName, -⟩
    · rw [if_pos hft, and_iff_left (.inl hft)]
      have hsnd := h.loadingLoop cfg ret now
      rw [booksKept_iff hsnd, heq]
      have hsum := (booksKept_iff h).1 hbks
      have hnotin : e.modelName ∉ s.pinnedMemoryPool.keys := by
        intro hmem
        have hso := h.queued e (hque ▸ mem_cons_self)
        rw [h.apart _ hmem] at hso
        cases hso
      have hchs : s.chunks cfg e.modelName = cfg.requiredChunks entry.2 := by
        unfold chunks
        rw [hdk]
        rfl
      cases ret with
      | true =>
        have hks : (s.pinnedMemoryPool.set e.modelName now).keys = s.pinnedMemoryPool.keys ++ [e.modelName] := by
          rw [keys_set, if_neg hnotin]
        simp only [if_true, true_implies]
        rw [hks, map_append, sum_append, map_singleton, sum_singleton]
        refine Eq.congr_left ?_
        exact (congrArg₂ (· + ·) hsum hchs).trans (zero_add _)
      | false => exact iff_of_true hsum nofun
    · rw [if_neg hlrg, heq]
      exact iff_of_true ⟨hbks, .inr hemp⟩ hemp
    · rw [if_neg hlrg]
      exact iff_of_false (fun hright => hemp (hright.2.resolve_left hlrg)) hemp

theorem init_sound (cfg : Config) : Sound (init cfg) where
  usage := rfl
  queued := by rintro e ⟨⟩
  stored := by rintro e ⟨⟩
  pinned := by rintro m ⟨⟩
  apart := by rintro m ⟨⟩
  names := nodup_nil

/-- Every run. The counter is right in every state that the run comes to, and every eviction is as it should be, exactly when
each iteration meets the condition. -/
theorem pinnedPool_iff (cfg : Config) (steps : List Step) :
    Runs.Throughout (step cfg) (BooksKept cfg) (.init cfg) steps ∧
        Runs.EachStep (step cfg) (EvictsRight cfg) (.init cfg) steps ↔
      Runs.EachStep (step cfg) (Meets cfg) (.init cfg) steps := by
  refine Runs.throughout_and_eachStep_iff (I := Sound) (fun _ _ _ h hst => h.step hst) ?_ ?_ (init_sound cfg) ?_
  · intro s step s' h hbks hst
    cases step with
    | registerModel modelName backend tensorParallelSize register =>
      cases hst
      exact iff_of_true ⟨booksKept_registerModel h hbks _ _ _ _, trivial⟩ trivial
    | loadToHost modelName now =>
      cases hst
      exact iff_of_true ⟨booksKept_loadToHost hbks _ _, trivial⟩ trivial
    | loadingLoop ret now =>
      simp only [step] at hst
      split at hst
      · rename_i hldr
        cases hst
        exact loadingLoop_iff h hbks hldr ret now
      · cases hst
  · intro s step hst
    cases step with
    | registerModel modelName backend tensorParallelSize register => cases hst
    | loadToHost modelName now => cases hst
    | loadingLoop ret now =>
      simp only [step] at hst
      split at hst
      · cases hst
      · rename_i hldr
        exact iff_of_true (fun h => absurd h hldr) (fun h => absurd h hldr)
  · exact ⟨rfl, Int.natCast_nonneg _⟩

def twoChunks : Config := ⟨8, 4, 1, unit_pos⟩

/-- After a model of one chunk is loaded, the counter is still at zero. -/
theorem not_booksKept_twoChunks : ∃ s, State.run twoChunks (.init twoChunks)
    [.registerModel "m" "transformers" 1 fun _ => 4, .loadToHost "m" 0, .loadingLoop true 1] = some s ∧
      ¬s.BooksKept twoChunks := by
  have hrun : (run twoChunks (.init twoChunks)
      [.registerModel "m" "transformers" 1 fun _ => 4, .loadToHost "m" 0, .loadingLoop true 1]).map
        (fun s => (s.pinnedMemoryPoolUsage, (s.pinnedMemoryPool.keys.map (s.chunks twoChunks)).sum)) = some (0, 1) := by
    decide +kernel
  obtain ⟨s, hs, hnumbers⟩ := map_eq_some_iff.1 hrun
  refine ⟨s, hs, ?_⟩
  intro hbks
  obtain ⟨husage, hsum⟩ := mk.inj hnumbers
  exact absurd (husage.symm.trans (hbks.1.trans hsum)) (by decide)

end ServerlessLLM.Serving.LocalStore
