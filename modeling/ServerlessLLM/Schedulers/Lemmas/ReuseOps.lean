import ServerlessLLM.Schedulers.ReuseAware

/-!
# The end of a pass

Positions that are popped from the last one on stay those of their requests.
-/

namespace ServerlessLLM.Schedulers.ReuseAware

open List Dict Prod Queues

variable {q : Queues} {p : LoadingRequest → Bool}

theorem foldlM_pop (modelName : String) {indices : List Nat} (hdesc : indices.Pairwise (· > ·))
    (h : ∀ j ∈ indices, j < (q.queue modelName).length) :
    ∃ q', indices.foldlM (fun q idx => pop q modelName idx) q = some q' ∧
      ∀ m, q'.queue m = if m = modelName then indices.foldl eraseIdx (q.queue modelName) else q.queue m := by
  induction indices generalizing q with
  | nil =>
    refine ⟨q, rfl, ?_⟩
    intro m
    split
    · rename_i hm
      rw [hm]
      rfl
    · rfl
  | cons i indices ih =>
    rw [pairwise_cons] at hdesc
    have hi := h i mem_cons_self
    have hpop := pop_eq (getElem?_eq_getElem hi)
    have hque := queue_set q modelName
    obtain ⟨q', hrs, hq'⟩ := ih (q := q.set modelName ((q.queue modelName).eraseIdx i)) hdesc.2 (by
      intro j hj
      have := hdesc.1 j hj
      rw [hque, if_pos rfl, length_eraseIdx_of_lt hi]
      omega)
    refine ⟨q', ?_, ?_⟩
    · rw [foldlM_cons, hpop]
      exact hrs
    · intro m
      rw [hq', hque, hque, if_pos rfl]
      split
      · rfl
      · rfl

theorem popIndices_eq {modelName : String} {indices : List Nat} (hnd : indices.Nodup)
    (h : ∀ j, j ∈ indices ↔ ∃ r, (q.queue modelName)[j]? = some r ∧ p r = true) :
    ∃ q', popIndices q modelName indices = some q' ∧
      ∀ m, q'.queue m = if m = modelName then (q.queue modelName).filter fun r => !p r else q.queue m := by
  have hpm : (indices.insertionSort fun i j => i ≥ j).Perm indices := perm_insertionSort _ _
  have hdesc : (indices.insertionSort fun i j => i ≥ j).Pairwise (· > ·) := by
    have hsrt : (indices.insertionSort fun i j => i ≥ j).Pairwise (· ≥ ·) := pairwise_insertionSort _ _
    refine (hsrt.and (hpm.nodup_iff.2 hnd)).imp ?_
    intro i j hij
    exact Nat.lt_of_le_of_ne hij.1 (Ne.symm hij.2)
  have h' : ∀ j, j ∈ (indices.insertionSort fun i j => i ≥ j) ↔ ∃ r, (q.queue modelName)[j]? = some r ∧ p r = true := by
    intro j
    rw [hpm.mem_iff]
    exact h j
  obtain ⟨q', hpop, hq'⟩ := foldlM_pop (q := q) modelName hdesc (by
    intro j hj
    obtain ⟨r, hr, -⟩ := (h' j).1 hj
    exact (List.getElem?_eq_some_iff.1 hr).1)
  refine ⟨q', hpop, ?_⟩
  intro m
  rw [hq', foldl_eraseIdx_eq_filter hdesc h']

theorem foldlM_popIndices {es : List (String × List Nat)} (hks : (es.map Prod.fst).Nodup)
    (h : ∀ e ∈ es, e.2.Nodup ∧ ∀ j, j ∈ e.2 ↔ ∃ r, (q.queue e.1)[j]? = some r ∧ p r = true) :
    ∃ q', es.foldlM (fun q e => popIndices q e.1 e.2) q = some q' ∧
      ∀ m, q'.queue m = if m ∈ es.map fst then (q.queue m).filter fun r => !p r else q.queue m := by
  induction es generalizing q with
  | nil => exact ⟨q, rfl, fun m => by simp⟩
  | cons e es ih =>
    rw [map_cons, nodup_cons] at hks
    obtain ⟨q₁, hpop, hq₁⟩ := popIndices_eq (h e mem_cons_self).1 (h e mem_cons_self).2
    have hother : ∀ m ∈ es.map fst, q₁.queue m = q.queue m := by
      intro m hm
      rw [hq₁, if_neg]
      rintro rfl
      exact hks.1 hm
    obtain ⟨q', hrs, hq'⟩ := ih (q := q₁) hks.2 (by
      intro d hd
      rw [hother d.1 (mem_map_of_mem hd)]
      exact h d (mem_cons_of_mem _ hd))
    refine ⟨q', ?_, ?_⟩
    · rw [foldlM_cons, hpop]
      exact hrs
    · intro m
      rw [hq', map_cons]
      by_cases hm : m ∈ es.map fst
      · rw [if_pos hm, if_pos (mem_cons_of_mem _ hm), hother m hm]
      · rw [if_neg hm, hq₁]
        by_cases he : m = e.1
        · rw [if_pos he, he, if_pos mem_cons_self]
        · rw [if_neg he, if_neg]
          rw [mem_cons, not_or]
          exact ⟨he, hm⟩

theorem popAll_eq {toRemove : Dict String (List Nat)} (hnd : ∀ m l, toRemove.get? m = some l → l.Nodup)
    (h : ∀ m j, j ∈ (toRemove.get? m).getD [] ↔ ∃ r, (q.queue m)[j]? = some r ∧ p r = true) :
    ∃ q', popAll q toRemove = some q' ∧ ∀ m, q'.queue m = (q.queue m).filter fun r => !p r := by
  obtain ⟨q', hpop, hq'⟩ := foldlM_popIndices (q := q) (p := p) toRemove.nodup (by
    intro e he
    have hget := mem_entries_iff.1 he
    refine ⟨hnd e.1 e.2 hget, ?_⟩
    intro j
    have hj := h e.1 j
    rw [hget] at hj
    exact hj)
  refine ⟨q', hpop, ?_⟩
  intro m
  rw [hq']
  split
  · rfl
  · rename_i hm
    have hno : toRemove.get? m = none := get?_eq_none_iff.2 hm
    refine (filter_eq_self.2 ?_).symm
    intro r hr
    obtain ⟨j, hj⟩ := getElem?_of_mem hr
    have hiff := h m j
    rw [hno] at hiff
    rw [Bool.not_eq_true', Bool.eq_false_iff]
    intro hp
    cases hiff.2 ⟨r, hj, hp⟩

/-! ## The options of a request -/

variable {round : ℚ → ℚ} {a : StoreAnswers} {c : Collected} {toLoadSize : String → Int} {workerNodes : Dict String Int}

/-- The request can be served on the node: it is a worker with enough free GPUs, and its store has the model. -/
def Eligible (a : StoreAnswers) (c : Collected) (toLoadSize : String → Int) (workerNodes : Dict String Int)
    (nodeId : String) : Prop :=
  ∃ freeGpu nodeStoreInfo, workerNodes.get? nodeId = some freeGpu ∧ a.storeInfo.get? nodeId = some nodeStoreInfo ∧
    c.modelName ∈ nodeStoreInfo ∧ toLoadSize nodeId ≠ -1 ∧ c.request.numGpus ≤ freeGpu

def latency (round : ℚ → ℚ) (a : StoreAnswers) (toLoadSize : String → Int) (nodeId : String) : ℚ :=
  getModelLoadingTime round (toLoadSize nodeId) (a.hardwareInfo nodeId)

theorem option_eq_some_iff {node : String × Int} {o : String × ℚ} : option round a c toLoadSize node = some o ↔
    (∃ nodeStoreInfo, a.storeInfo.get? node.1 = some nodeStoreInfo ∧ c.modelName ∈ nodeStoreInfo) ∧ toLoadSize node.1 ≠ -1 ∧
      c.request.numGpus ≤ node.2 ∧ o = (node.1, latency round a toLoadSize node.1) := by
  unfold option latency
  cases a.storeInfo.get? node.1 with
  | none => simp
  | some nodeStoreInfo =>
    by_cases hfe : c.request.numGpus ≤ node.2
    · by_cases hmod : c.modelName ∈ nodeStoreInfo
      · by_cases hsz : toLoadSize node.1 = -1
        · simp [hfe, hmod, hsz]
        · simp [hfe, hmod, hsz, eq_comm]
      · simp [hfe, hmod]
    · simp [hfe]

theorem mem_schedulingOptions {o : String × ℚ} : o ∈ schedulingOptions round a c toLoadSize workerNodes ↔
    Eligible a c toLoadSize workerNodes o.1 ∧ o.2 = latency round a toLoadSize o.1 := by
  unfold schedulingOptions Eligible
  rw [mem_insertionSort, mem_filterMap]
  constructor
  · rintro ⟨⟨nodeId, freeGpu⟩, hmem, ho⟩
    obtain ⟨⟨nodeStoreInfo, hsr, hmod⟩, hsz, hfe, rfl⟩ := option_eq_some_iff.1 ho
    exact ⟨⟨freeGpu, nodeStoreInfo, mem_entries_iff.1 hmem, hsr, hmod, hsz, hfe⟩, rfl⟩
  · rintro ⟨⟨freeGpu, nodeStoreInfo, hget, hsr, hmod, hsz, hfe⟩, htime⟩
    refine ⟨(o.1, freeGpu), mem_entries_iff.2 hget, ?_⟩
    exact option_eq_some_iff.2 ⟨⟨nodeStoreInfo, hsr, hmod⟩, hsz, hfe, Prod.ext rfl htime⟩

theorem schedulingOptions_head {o : String × ℚ} {os : List (String × ℚ)}
    (h : schedulingOptions round a c toLoadSize workerNodes = o :: os) :
    o ∈ schedulingOptions round a c toLoadSize workerNodes ∧
      ∀ o' ∈ schedulingOptions round a c toLoadSize workerNodes, o.2 ≤ o'.2 := by
  refine ⟨by rw [h]; exact mem_cons_self, fun o' ho' => ?_⟩
  have hsrt : (schedulingOptions round a c toLoadSize workerNodes).Pairwise fun x y => x.2 ≤ y.2 :=
    pairwise_insertionSort (fun x y : String × ℚ => x.2 ≤ y.2) _
  rw [h, pairwise_cons] at hsrt
  rw [h, mem_cons] at ho'
  rcases ho' with rfl | ho'
  · exact le_refl _
  · exact hsrt.1 o' ho'

end ServerlessLLM.Schedulers.ReuseAware
