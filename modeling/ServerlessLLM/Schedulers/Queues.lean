import Mathlib.Algebra.Order.Ring.Rat
import Mathlib.Data.List.Perm.Basic
import Mathlib.Data.List.Sort
import ServerlessLLM.Library.Dict

/-!
# The loading queues of the schedulers

A scheduler has a queue of requests for each model. `allocate_resource` appends a request with a new future and waits for it;
the control loop collects the requests of all queues with their positions, and resolves futures. Futures are numbered in the
order in which they are created.

What appending and popping a request make of the queues, and what is collected.
-/

namespace ServerlessLLM.Schedulers

open List Dict Prod

/-- An entry of a loading queue. -/
structure LoadingRequest where
  requestTime : ℚ
  numGpus : Int
  allocationResult : Nat
deriving DecidableEq

/-- `model_loading_queues`. -/
abbrev Queues := Dict String (List LoadingRequest)

/-- An entry of `loading_requests`: a request with its model and its position in the queue. -/
structure Collected where
  modelName : String
  idx : Nat
  request : LoadingRequest
deriving DecidableEq

namespace Queues

variable (q : Queues)

def queue (modelName : String) : List LoadingRequest := (q.get? modelName).getD []

def append (modelName : String) (r : LoadingRequest) : Queues := q.set modelName (q.queue modelName ++ [r])

/-- The requests of all queues. -/
def requests : List LoadingRequest := q.entries.flatMap Prod.snd

/-- `loading_requests`, before it is sorted. -/
def collect : List Collected := q.entries.flatMap fun e => e.2.zipIdx.map fun d => ⟨e.1, d.2, d.1⟩

/-- `model_loading_queues[model_name].pop(idx)`; nothing when there is no such queue or position. -/
def pop (modelName : String) (idx : Nat) : Option Queues :=
  match q.get? modelName with
  | none => none
  | some l => if idx < l.length then some (q.set modelName (l.eraseIdx idx)) else none

end Queues

theorem Collected.eq_of_fields {c d : Collected} (hmod : c.modelName = d.modelName) (hidx : c.idx = d.idx)
    (hreq : c.request = d.request) : c = d := by
  obtain ⟨m, i, r⟩ := c
  obtain ⟨m', i', r'⟩ := d
  exact Collected.mk.injEq _ _ _ _ _ _ ▸ ⟨hmod, hidx, hreq⟩

namespace Queues

variable {q q' : Queues} {modelName : String} {idx : Nat} {r : LoadingRequest}

theorem queue_of_get? {l : List LoadingRequest} (h : q.get? modelName = some l) : q.queue modelName = l := by
  unfold queue
  rw [h]
  rfl

theorem get?_of_getElem? (h : (q.queue modelName)[idx]? = some r) : q.get? modelName = some (q.queue modelName) := by
  unfold queue at *
  cases hget : q.get? modelName with
  | none =>
    rw [hget] at h
    cases h
  | some l => rfl

theorem queue_set (q : Queues) (modelName modelName' : String) (l : List LoadingRequest) :
    queue (q.set modelName l) modelName' = if modelName' = modelName then l else q.queue modelName' := by
  unfold queue
  rw [get?_set]
  split
  · rfl
  · rfl

theorem queue_append (q : Queues) (modelName modelName' : String) (r : LoadingRequest) :
    (q.append modelName r).queue modelName' =
      if modelName' = modelName then q.queue modelName ++ [r] else q.queue modelName' :=
  queue_set q modelName modelName' _

theorem requests_set {l : List LoadingRequest} (h : q.get? modelName = some l) :
    ∃ others, q.requests.Perm (l ++ others) ∧ ∀ l', (requests (q.set modelName l')).Perm (l' ++ others) := by
  obtain ⟨es, es', hent, hset⟩ := entries_set_of_get? h
  refine ⟨es.flatMap snd ++ es'.flatMap snd, ?_, ?_⟩
  · unfold requests
    rw [hent]
    simp only [flatMap_append, flatMap_cons]
    exact perm_append_comm_assoc _ _ _
  · intro l'
    unfold requests
    rw [hset l']
    simp only [flatMap_append, flatMap_cons]
    exact perm_append_comm_assoc _ _ _

theorem requests_append (q : Queues) (modelName : String) (r : LoadingRequest) :
    (q.append modelName r).requests.Perm (r :: q.requests) := by
  cases hget : q.get? modelName with
  | none =>
    have hkey := get?_eq_none_iff.1 hget
    have hent : (q.append modelName r).entries = q.entries ++ [(modelName, [r])] := by
      unfold append queue
      rw [hget]
      exact if_neg hkey
    unfold requests
    rw [hent]
    simp
  | some l =>
    obtain ⟨others, hq, hset⟩ := requests_set hget
    unfold append
    rw [queue_of_get? hget]
    refine (hset (l ++ [r])).trans ?_
    rw [append_assoc, singleton_append]
    exact perm_middle.trans (hq.symm.cons r)

theorem pop_eq (h : (q.queue modelName)[idx]? = some r) :
    q.pop modelName idx = some (q.set modelName ((q.queue modelName).eraseIdx idx)) := by
  unfold pop
  rw [get?_of_getElem? h]
  exact if_pos (List.getElem?_eq_some_iff.1 h).1

theorem requests_pop (h : (q.queue modelName)[idx]? = some r) :
    q.requests.Perm (r :: requests (q.set modelName ((q.queue modelName).eraseIdx idx))) := by
  obtain ⟨others, hq, hset⟩ := requests_set (get?_of_getElem? h)
  obtain ⟨hlt, rfl⟩ := List.getElem?_eq_some_iff.1 h
  refine hq.trans (((getElem_cons_eraseIdx_perm hlt).symm.append_right others).trans ?_)
  exact ((hset _).cons _).symm

theorem mem_collect {c : Collected} : c ∈ q.collect ↔ (q.queue c.modelName)[c.idx]? = some c.request := by
  unfold collect
  rw [mem_flatMap]
  constructor
  · rintro ⟨e, he, hc⟩
    obtain ⟨d, hd, rfl⟩ := mem_map.1 hc
    rw [queue_of_get? (mem_entries_iff.1 he)]
    exact mem_zipIdx_iff_getElem?.1 hd
  · intro h
    refine ⟨(c.modelName, q.queue c.modelName), mem_entries_iff.2 (get?_of_getElem? h), ?_⟩
    exact mem_map.2 ⟨(c.request, c.idx), mem_zipIdx_iff_getElem?.2 h, rfl⟩

theorem nodup_collect (q : Queues) : q.collect.Nodup := by
  unfold collect
  rw [nodup_flatMap]
  refine ⟨?_, ?_⟩
  · intro e _
    refine List.Nodup.map ?_ ?_
    · rintro ⟨r, i⟩ ⟨r', i'⟩ h
      simp only [Collected.mk.injEq] at h
      rw [h.2.1, h.2.2]
    · exact List.Nodup.of_map snd (by rw [zipIdx_map_snd]; exact nodup_range')
  · refine List.Pairwise.imp ?_ (pairwise_map.1 q.nodup)
    intro e e' hne c hc hc'
    obtain ⟨d, -, rfl⟩ := mem_map.1 hc
    obtain ⟨d', -, hd'⟩ := mem_map.1 hc'
    exact hne (congrArg Collected.modelName hd').symm

theorem request_mem_of_mem_collect {q : Queues} {c : Collected} (h : c ∈ q.collect) : c.request ∈ q.requests := by
  have hget := get?_of_getElem? (mem_collect.1 h)
  exact mem_flatMap.2 ⟨_, mem_entries_iff.2 hget, mem_of_getElem? (mem_collect.1 h)⟩

theorem mem_requests_of_pop {q q' : Queues} {modelName : String} {idx : Nat} {r : LoadingRequest}
    (h : q.pop modelName idx = some q')
    (hr : r ∈ q'.requests) : r ∈ q.requests := by
  unfold pop at h
  split at h
  · cases h
  · rename_i l hget
    split at h
    · cases h
      obtain ⟨others, hq, hset⟩ := requests_set hget
      rcases mem_append.1 ((hset _).mem_iff.1 hr) with hl | hoth
      · exact hq.mem_iff.2 (mem_append_left _ (mem_of_mem_eraseIdx hl))
      · exact hq.mem_iff.2 (mem_append_right _ hoth)
    · cases h

end Queues

theorem foldl_eraseIdx_eq_filter {α : Type} {p : α → Bool} {l : List α} {indices : List Nat} (hdesc : indices.Pairwise (· > ·))
    (h : ∀ j, j ∈ indices ↔ ∃ x, l[j]? = some x ∧ p x = true) :
    indices.foldl eraseIdx l = l.filter fun x => !p x := by
  induction indices generalizing l with
  | nil =>
    refine (filter_eq_self.2 ?_).symm
    intro x hx
    obtain ⟨j, hj⟩ := getElem?_of_mem hx
    have hnot := (not_congr (h j)).1 (not_mem_nil)
    rw [Bool.not_eq_true', Bool.eq_false_iff]
    exact fun hp => hnot ⟨x, hj, hp⟩
  | cons i indices ih =>
    rw [pairwise_cons] at hdesc
    obtain ⟨x, hx, hpx⟩ := (h i).1 mem_cons_self
    obtain ⟨hlt, rfl⟩ := List.getElem?_eq_some_iff.1 hx
    -- the element at the largest position, and what stands before and behind it
    have hspl : l = l.take i ++ l[i] :: l.drop (i + 1) := by rw [getElem_cons_drop, take_append_drop]
    have hers : l.eraseIdx i = l.take i ++ l.drop (i + 1) := eraseIdx_eq_take_drop_succ l i
    rw [foldl_cons, ih hdesc.2]
    · rw [hers]
      conv_rhs => rw [hspl]
      rw [filter_append, filter_append, filter_cons_of_neg (by simp [hpx])]
    · intro j
      have hj := h j
      rw [mem_cons] at hj
      constructor
      · intro hmem
        have hji : j < i := hdesc.1 j hmem
        obtain ⟨y, hy, hpy⟩ := hj.1 (.inr hmem)
        exact ⟨y, by rw [getElem?_eraseIdx_of_lt hji]; exact hy, hpy⟩
      · rintro ⟨y, hy, hpy⟩
        by_cases hji : j < i
        · rw [getElem?_eraseIdx_of_lt hji] at hy
          exact (hj.2 ⟨y, hy, hpy⟩).resolve_left (Nat.ne_of_lt hji)
        · -- behind it there is none
          exfalso
          rw [getElem?_eraseIdx_of_ge (Nat.le_of_not_lt hji)] at hy
          rcases mem_cons.1 ((h (j + 1)).2 ⟨y, hy, hpy⟩) with heq | hmem
          · omega
          · have := hdesc.1 (j + 1) hmem
            omega

end ServerlessLLM.Schedulers
