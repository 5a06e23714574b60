import ServerlessLLM.Library.Recency
import ServerlessLLM.ModelPool.LruCache
import ServerlessLLM.ModelPool.Regions

/-!
# The LRU cache is a bounded LRU map, but for a full one

The map and the list have the same keys whatever is done, and the list is in the order of last use.
-/

namespace ServerlessLLM.ModelPool

open Recency List Dict
open Prod (fst snd)

variable {κ ν : Type} [DecidableEq κ]

namespace LRUCacheNodes

variable {c : LRUCacheNodes κ ν} {k : κ} {v : ν} {it : Nat} {ops : List (Op κ ν)}

/-- The map has, for each key of the list, the number of its node. -/
structure Sound (c : LRUCacheNodes κ ν) : Prop where
  ids : (c.lruList.map fst).Nodup
  fresh : ∀ node ∈ c.lruList, node.1 < c.fresh
  index : ∀ k it, c.cache.get? k = some it ↔ ∃ v, (it, k, v) ∈ c.lruList

theorem Sound.eq_of_id (h : c.Sound) {k' : κ} {v' : ν} (hmem : (it, k, v) ∈ c.lruList) (hmem' : (it, k', v') ∈ c.lruList) :
    k = k' ∧ v = v' := by
  have heq := inj_on_of_nodup_map h.ids hmem hmem' rfl
  simpa using heq

theorem Sound.eq_of_key (h : c.Sound) {it' : Nat} {v' : ν} (hmem : (it, k, v) ∈ c.lruList) (hmem' : (it', k, v') ∈ c.lruList) :
    it = it' :=
  Option.some.inj (((h.index k it).2 ⟨v, hmem⟩).symm.trans ((h.index k it').2 ⟨v', hmem'⟩))

theorem Sound.nodup_keys (h : c.Sound) : (c.entries.map fst).Nodup := by
  unfold entries
  rw [map_map, List.Nodup, pairwise_map]
  have hids := h.ids
  rw [List.Nodup, pairwise_map] at hids
  refine hids.imp_of_mem fun {node node'} hmem hmem' hne heq => hne ?_
  obtain ⟨it, k, v⟩ := node
  obtain ⟨it', k', v'⟩ := node'
  obtain rfl : k = k' := heq
  exact h.eq_of_key hmem hmem'

theorem Sound.mem_keys_iff (h : c.Sound) : k ∈ c.cache.keys ↔ k ∈ c.entries.map fst := by
  unfold entries
  rw [Dict.mem_keys_iff, map_map, mem_map]
  constructor
  · rintro ⟨it, hit⟩
    obtain ⟨v, hmem⟩ := (h.index k it).1 hit
    exact ⟨_, hmem, rfl⟩
  · rintro ⟨⟨it, k', v⟩, hmem, rfl⟩
    exact ⟨it, (h.index _ _).2 ⟨v, hmem⟩⟩

theorem Sound.keys_perm (h : c.Sound) : c.cache.keys.Perm (c.entries.map fst) :=
  (perm_ext_iff_of_nodup c.cache.nodup h.nodup_keys).2 fun _ => h.mem_keys_iff

theorem Sound.length_eq (h : c.Sound) : c.cache.entries.length = c.entries.length := by
  have hlen := h.keys_perm.length_eq
  simpa [Dict.keys] using hlen

theorem Sound.filter_eq (h : c.Sound) (hmem : (it, k, v) ∈ c.lruList) :
    c.lruList.filter (fun node => node.1 = it) = [(it, k, v)] ∧
      (c.lruList.filter fun node => node.1 ≠ it).map snd = others k c.entries := by
  constructor
  · have hnd : (c.lruList.filter fun node => node.1 = it).Nodup := (List.Nodup.of_map _ h.ids).filter _
    refine perm_singleton.1 ((perm_ext_iff_of_nodup hnd (nodup_singleton _)).2 ?_)
    rintro ⟨it', k', v'⟩
    rw [mem_filter, mem_singleton]
    constructor
    · rintro ⟨hmem', heq⟩
      obtain rfl : it' = it := by simpa using heq
      obtain ⟨rfl, rfl⟩ := h.eq_of_id hmem hmem'
      rfl
    · intro heq
      obtain ⟨rfl, rfl, rfl⟩ : it' = it ∧ k' = k ∧ v' = v := by simpa using heq
      exact ⟨hmem, by simp⟩
  · unfold others entries
    rw [filter_map]
    refine congrArg (map snd) (filter_congr ?_)
    rintro ⟨it', k', v'⟩ hmem'
    refine decide_eq_decide.2 (not_congr ?_)
    constructor
    · rintro rfl
      exact (h.eq_of_id hmem hmem').1.symm
    · rintro rfl
      exact h.eq_of_key hmem' hmem

theorem Sound.lookup_eq (h : c.Sound) (hmem : (it, k, v) ∈ c.lruList) : c.entries.lookup k = some v :=
  (lookup_eq_some_iff h.nodup_keys).2 (mem_map.2 ⟨_, hmem, rfl⟩)

theorem Sound.lookup_eq_none (h : c.Sound) (hget : c.cache.get? k = none) : c.entries.lookup k = none := by
  rw [Dict.lookup_eq_none_iff, ← h.mem_keys_iff]
  exact Dict.get?_eq_none_iff.1 hget

/-! ## The operations -/

theorem Sound.perm {c' : LRUCacheNodes κ ν} (h : c.Sound) (hpm : c'.lruList.Perm c.lruList) (hcache : c'.cache = c.cache)
    (hfr : c'.fresh = c.fresh) : c'.Sound where
  ids := (hpm.map fst).nodup_iff.2 h.ids
  fresh node hnod := hfr ▸ h.fresh node (hpm.mem_iff.1 hnod)
  index k it := by
    rw [hcache, h.index k it]
    exact exists_congr fun v => hpm.mem_iff.symm

theorem Sound.moveToHead (h : c.Sound) (hmem : (it, k, v) ∈ c.lruList) :
    (c.moveToHead it).Sound ∧ (c.moveToHead it).entries = (k, v) :: others k c.entries := by
  obtain ⟨hsa, hoth⟩ := h.filter_eq hmem
  refine ⟨h.perm ?_ rfl rfl, ?_⟩
  · simpa [LRUCacheNodes.moveToHead] using filter_append_perm (fun node => decide (node.1 = it)) c.lruList
  · unfold entries LRUCacheNodes.moveToHead
    rw [map_append, hsa, hoth]
    rfl

theorem Sound.setValueAt (h : c.Sound) (hmem : (it, k, v) ∈ c.lruList) (v' : ν) :
    (c.setValueAt it v').Sound ∧ (it, k, v') ∈ (c.setValueAt it v').lruList ∧
      others k (c.setValueAt it v').entries = others k c.entries := by
  have hmem_iff : ∀ it' k', (∃ v₀, (it', k', v₀) ∈ (c.setValueAt it v').lruList) ↔ ∃ v₀, (it', k', v₀) ∈ c.lruList := by
    intro it' k'
    constructor
    · rintro ⟨v₀, hv₀⟩
      obtain ⟨⟨i, key, v₁⟩, hnod, heq⟩ := mem_map.1 hv₀
      by_cases hi : i = it
      · obtain ⟨rfl, rfl, -⟩ : i = it' ∧ key = k' ∧ v' = v₀ := by simpa [hi] using heq
        exact ⟨v₁, hnod⟩
      · obtain ⟨rfl, rfl, rfl⟩ : i = it' ∧ key = k' ∧ v₁ = v₀ := by simpa [hi] using heq
        exact ⟨v₁, hnod⟩
    · rintro ⟨v₀, hv₀⟩
      by_cases hi : it' = it
      · exact ⟨v', mem_map.2 ⟨_, hv₀, by simp [hi]⟩⟩
      · exact ⟨v₀, mem_map.2 ⟨_, hv₀, by simp [hi]⟩⟩
  refine ⟨⟨?_, ?_, ?_⟩, mem_map.2 ⟨_, hmem, by simp⟩, ?_⟩
  · have hids : (c.setValueAt it v').lruList.map fst = c.lruList.map fst := by
      unfold LRUCacheNodes.setValueAt
      rw [map_map]
      refine map_congr_left ?_
      intro node _
      by_cases hi : node.1 = it
      · simp [hi]
      · simp [hi]
    rw [hids]
    exact h.ids
  · rintro ⟨it', k', v₀⟩ hnod
    obtain ⟨v₁, hv₁⟩ := (hmem_iff it' k').1 ⟨v₀, hnod⟩
    have hlt := h.fresh _ hv₁
    exact hlt
  · intro k' it'
    rw [hmem_iff]
    exact h.index k' it'
  · unfold others entries LRUCacheNodes.setValueAt
    rw [map_map, filter_map, filter_map]
    have hks : ∀ node ∈ c.lruList, (node.2.1 ≠ k) = (node.1 ≠ it) := by
      rintro ⟨it', k', v₀⟩ hnod
      refine propext (not_congr ⟨?_, ?_⟩)
      · rintro rfl
        exact h.eq_of_key hnod hmem
      · rintro rfl
        exact (h.eq_of_id hnod hmem).1
    have hflr : c.lruList.filter ((fun e => decide (e.1 ≠ k)) ∘ snd ∘ fun node =>
        if node.1 = it then (node.1, node.2.1, v') else node) = c.lruList.filter ((fun e => decide (e.1 ≠ k)) ∘ snd) := by
      refine filter_congr ?_
      intro node _
      by_cases hi : node.1 = it
      · simp [hi]
      · simp [hi]
    rw [hflr]
    refine map_congr_left ?_
    intro node hnod
    obtain ⟨hnod, hne⟩ := mem_filter.1 hnod
    have hi : node.1 ≠ it := (hks node hnod) ▸ (by simpa using hne)
    simp [hi]

theorem Sound.insert (h : c.Sound) (hget : c.cache.get? k = none) (v : ν) :
    Sound { c with lruList := (c.fresh, k, v) :: c.lruList, cache := c.cache.set k c.fresh, fresh := c.fresh + 1 } where
  ids := by
    rw [map_cons, nodup_cons]
    refine ⟨?_, h.ids⟩
    intro hmem
    obtain ⟨node, hnod, heq⟩ := mem_map.1 hmem
    exact Nat.lt_irrefl _ (heq ▸ h.fresh node hnod)
  fresh := by
    intro node hnod
    rcases mem_cons.1 hnod with rfl | hnod
    · exact Nat.lt_succ_self _
    · exact Nat.lt_succ_of_lt (h.fresh node hnod)
  index := by
    intro k' it'
    rw [get?_set]
    by_cases hk : k' = k
    · subst hk
      have hno : ∀ v₀, (it', k', v₀) ∉ c.lruList := by
        intro v₀ hmem
        have hso := (h.index k' it').2 ⟨v₀, hmem⟩
        rw [hget] at hso
        nomatch hso
      simp [hno, eq_comm]
    · simp [hk, h.index k' it']

theorem Sound.drop {c' : LRUCacheNodes κ ν} (h : c.Sound) (hmem : (it, k, v) ∈ c.lruList)
    (hlist : c'.lruList = c.lruList.filter fun node => node.1 ≠ it) (hcache : c'.cache = c.cache.erase k)
      (hfr : c'.fresh = c.fresh) :
    c'.Sound where
  ids := by
    rw [hlist]
    exact h.ids.sublist (filter_sublist.map _)
  fresh node hnod := by
    rw [hlist] at hnod
    exact hfr ▸ h.fresh node (mem_of_mem_filter hnod)
  index k' it' := by
    rw [hcache, hlist, get?_erase]
    by_cases hk : k' = k
    · subst hk
      have hno : ∀ v₀, (it', k', v₀) ∉ c.lruList.filter fun node => node.1 ≠ it := by
        intro v₀ hmem'
        obtain ⟨hmem', hne⟩ := mem_filter.1 hmem'
        exact (of_decide_eq_true hne) (h.eq_of_key hmem' hmem)
      simp only [if_true, hno, exists_false, iff_false]
      nofun
    · rw [if_neg hk, h.index k' it']
      refine exists_congr fun v₀ => ⟨fun hmem' => mem_filter.2 ⟨hmem', decide_eq_true ?_⟩, mem_of_mem_filter⟩
      rintro rfl
      exact hk (h.eq_of_id hmem' hmem).1

theorem Sound.dropLast_eq (h : c.Sound) {node : Nat × κ × ν} (hla : c.lruList.getLast? = some node) :
    c.lruList.dropLast = c.lruList.filter fun n => n.1 ≠ node.1 := by
  obtain ⟨before, hspl⟩ := getLast?_eq_some_iff.1 hla
  have hids := h.ids
  rw [hspl, map_append, nodup_append] at hids
  have hkeep : ∀ n ∈ before, decide (n.1 ≠ node.1) = true := by
    intro n hn
    exact decide_eq_true (hids.2.2 _ (mem_map_of_mem hn) _ (by simp))
  rw [hspl, dropLast_concat, filter_append, filter_eq_self.2 hkeep]
  simp

theorem Sound.popBack (h : c.Sound) {node : Nat × κ × ν} (hla : c.lruList.getLast? = some node) :
    (c.popBack node).Sound ∧ (c.popBack node).entries = c.entries.dropLast := by
  have hmem : (node.1, node.2.1, node.2.2) ∈ c.lruList := mem_of_getLast? hla
  refine ⟨h.drop hmem (h.dropLast_eq hla) rfl rfl, ?_⟩
  unfold entries LRUCacheNodes.popBack
  rw [map_dropLast]

/-! ## Runs -/

/-- An operation; `removeLast` is `getandRemoveLRUKey`. -/
def perform [Inhabited κ] (c : LRUCacheNodes κ ν) : Op κ ν → LRUCacheNodes κ ν
  | .get k => (c.get k).2
  | .put k v => (c.put k v).2
  | .remove k => c.remove k
  | .removeLast => c.getandRemoveLRUKey.2

/-- The cache after operations; they come from the last one on. -/
def run [Inhabited κ] (capacity : Nat) : List (Op κ ν) → LRUCacheNodes κ ν
  | [] => init capacity
  | op :: earlier => (run capacity earlier).perform op

/-- What holds of a cache after operations. -/
structure Inv (c : LRUCacheNodes κ ν) (ops : List (Op κ ν)) : Prop extends c.Sound where
  recent : Recent ops c.entries
  bounded : c.entries.length ≤ c.capacity

/-- A new key finds room. -/
def Takes (c : LRUCacheNodes κ ν) : Op κ ν → Prop
  | .put k _ => k ∈ c.cache.keys ∨ c.lruList.length < c.capacity
  | .get _ | .remove _ | .removeLast => True

variable [Inhabited κ]

@[simp] theorem capacity_perform (c : LRUCacheNodes κ ν) (op : Op κ ν) : (c.perform op).capacity = c.capacity := by
  cases op with
  | get k =>
    rw [perform, get]
    split <;> rfl
  | put k v =>
    rw [perform, put]
    split
    · rfl
    · split
      · split <;> rfl
      · rfl
  | remove k =>
    rw [perform, remove]
    split <;> rfl
  | removeLast =>
    rw [perform, getandRemoveLRUKey]
    split <;> rfl

@[simp] theorem capacity_run (capacity : Nat) (ops : List (Op κ ν)) : (run capacity ops).capacity = capacity := by
  induction ops with
  | nil => rfl
  | cons op earlier ih => rw [run, capacity_perform, ih]

omit [Inhabited κ] in
theorem Sound.others_eq (h : c.Sound) {k : κ} (hget : c.cache.get? k = none) : others k c.entries = c.entries := by
  refine filter_eq_self.2 fun e he => decide_eq_true ?_
  rintro rfl
  exact get?_eq_none_iff.1 hget (h.mem_keys_iff.2 (mem_map_of_mem he))

omit [DecidableEq κ] [Inhabited κ] in
theorem entries_of_getLast?_eq_none (h : c.lruList.getLast? = none) : c.entries = [] := by
  rw [entries, getLast?_eq_none_iff.1 h]
  rfl

theorem Inv.perform_get (h : c.Inv ops) (k : κ) :
    (c.perform (.get k)).Sound ∧ (c.perform (.get k)).entries = Recency.step c.capacity c.entries (.get k) := by
  rw [perform, get, Recency.step]
  cases hget : c.cache.get? k with
  | none => exact ⟨h.toSound, by rw [h.lookup_eq_none hget]⟩
  | some it =>
    obtain ⟨v, hmem⟩ := (h.index k it).1 hget
    obtain ⟨hsnd, hent⟩ := h.moveToHead hmem
    rw [h.lookup_eq hmem]
    exact ⟨hsnd, hent⟩

theorem Inv.perform_put_of_mem (h : c.Inv ops) {k : κ} {it : Nat} (hget : c.cache.get? k = some it) (v : ν) :
    (c.perform (.put k v)).Sound ∧ (c.perform (.put k v)).entries = Recency.step c.capacity c.entries (.put k v) := by
  rw [perform, put, hget]
  obtain ⟨v₀, hmem⟩ := (h.index k it).1 hget
  obtain ⟨hset, hmem', hoth⟩ := h.setValueAt hmem v
  obtain ⟨hsnd, hent⟩ := hset.moveToHead hmem'
  refine ⟨hsnd, hent.trans ?_⟩
  have hkey : k ∈ c.cache.keys := mem_keys_iff.2 ⟨it, hget⟩
  have hlt := Nat.lt_of_lt_of_le (length_others_lt (h.mem_keys_iff.1 hkey)) h.bounded
  rw [hoth, Recency.step, take_of_length_le hlt]

theorem Inv.perform_put_of_not_mem (h : c.Inv ops) {k : κ} (hget : c.cache.get? k = none) (v : ν) :
    (c.perform (.put k v)).Sound ∧ (c.perform (.put k v)).entries =
      if c.lruList.length < c.capacity then Recency.step c.capacity c.entries (.put k v) else c.entries.dropLast := by
  rw [perform, put, hget]
  have hlen : c.cache.entries.length = c.lruList.length := h.length_eq.trans (length_map _)
  simp only [hlen]
  have hbounded : c.lruList.length ≤ c.capacity := (length_map _).symm.trans_le h.bounded
  by_cases hfull : c.lruList.length = c.capacity
  · rw [if_pos hfull, if_neg (by omega)]
    split
    · rename_i node hla
      exact h.popBack hla
    · rename_i hnil
      exact ⟨h.toSound, by rw [entries_of_getLast?_eq_none hnil]; rfl⟩
  · rw [if_neg hfull, if_pos (by omega)]
    refine ⟨h.insert hget v, ?_⟩
    have hent : entries { c with
      lruList := (c.fresh, k, v) :: c.lruList, cache := c.cache.set k c.fresh, fresh := c.fresh + 1 } =
        (k, v) :: c.entries := rfl
    rw [hent, Recency.step, h.others_eq hget, take_of_length_le]
    rw [length_cons, entries, length_map]
    omega

theorem Inv.perform_remove (h : c.Inv ops) (k : κ) :
    (c.perform (.remove k)).Sound ∧ (c.perform (.remove k)).entries = Recency.step c.capacity c.entries (.remove k) := by
  rw [perform, remove]
  cases hget : c.cache.get? k with
  | none => exact ⟨h.toSound, (h.others_eq hget).symm⟩
  | some it =>
    obtain ⟨v, hmem⟩ := (h.index k it).1 hget
    exact ⟨h.drop hmem rfl rfl rfl, (h.filter_eq hmem).2⟩

theorem Inv.perform_removeLast (h : c.Inv ops) :
    (c.perform .removeLast).Sound ∧ (c.perform .removeLast).entries = Recency.step c.capacity c.entries .removeLast := by
  rw [perform, getandRemoveLRUKey]
  cases hla : c.lruList.getLast? with
  | none => exact ⟨h.toSound, by rw [Recency.step, entries_of_getLast?_eq_none hla]; rfl⟩
  | some node => exact h.popBack hla

theorem Inv.perform_eq (h : c.Inv ops) (op : Op κ ν) : (c.perform op).Sound ∧
    ((c.Takes op ∧ (c.perform op).entries = Recency.step c.capacity c.entries op) ∨
      (¬c.Takes op ∧ (c.perform op).entries = c.entries.dropLast)) := by
  cases op with
  | get k => exact ⟨(h.perform_get k).1, .inl ⟨trivial, (h.perform_get k).2⟩⟩
  | put k v =>
    cases hget : c.cache.get? k with
    | some it =>
      obtain ⟨hsnd, hent⟩ := h.perform_put_of_mem hget v
      exact ⟨hsnd, .inl ⟨.inl (mem_keys_iff.2 ⟨it, hget⟩), hent⟩⟩
    | none =>
      obtain ⟨hsnd, hent⟩ := h.perform_put_of_not_mem hget v
      by_cases hro : c.lruList.length < c.capacity
      · rw [if_pos hro] at hent
        exact ⟨hsnd, .inl ⟨.inr hro, hent⟩⟩
      · rw [if_neg hro] at hent
        exact ⟨hsnd, .inr ⟨fun htakes => htakes.elim (get?_eq_none_iff.1 hget) hro, hent⟩⟩
  | remove k => exact ⟨(h.perform_remove k).1, .inl ⟨trivial, (h.perform_remove k).2⟩⟩
  | removeLast => exact ⟨h.perform_removeLast.1, .inl ⟨trivial, h.perform_removeLast.2⟩⟩

omit [Inhabited κ] in
theorem not_mem_of_not_takes {op : Op κ ν} (hs : c.Sound) (h : ¬c.Takes op) : ∀ e ∈ c.entries.dropLast, op.uses ≠ some e.1 := by
  cases op with
  | put k v =>
    intro e he heq
    obtain rfl : k = e.1 := Option.some.inj heq
    exact h (.inl (hs.mem_keys_iff.2 (mem_map_of_mem ((dropLast_sublist _).subset he))))
  | get _ | remove _ | removeLast => exact absurd trivial h

theorem Inv.perform (h : c.Inv ops) (op : Op κ ν) : (c.perform op).Inv (op :: ops) := by
  obtain ⟨hsnd, ⟨-, hent⟩ | ⟨hno, hent⟩⟩ := h.perform_eq op
  · refine ⟨hsnd, ?_, ?_⟩
    · rw [hent]
      exact h.recent.step c.capacity op
    · rw [hent, capacity_perform]
      exact length_step_le h.bounded op
  · refine ⟨hsnd, ?_, ?_⟩
    · rw [hent]
      exact h.recent.keep (dropLast_sublist _) (not_mem_of_not_takes h.toSound hno)
    · rw [hent, capacity_perform, length_dropLast]
      exact Nat.le_trans (Nat.sub_le _ _) h.bounded

theorem inv_run (capacity : Nat) (ops : List (Op κ ν)) : (run capacity ops).Inv ops := by
  induction ops with
  | nil => exact ⟨⟨nodup_nil, by simp [run, init], by simp [run, init]⟩, List.Pairwise.nil, Nat.zero_le _⟩
  | cons op earlier ih => exact ih.perform op

/-! ## The bounded map -/

/-- What a bounded LRU map does at a step: it is the step of `Recency`, `get` returns the value, a key that was put is there,
and of the other keys only the one that was used last of all may leave. -/
structure Meets (c : LRUCacheNodes κ ν) (op : Op κ ν) : Prop where
  entries : (c.perform op).entries = Recency.step c.capacity c.entries op
  got : ∀ k, op = .get k → (c.get k).1 = c.entries.lookup k
  stored : ∀ k v, op = .put k v → (c.perform op).entries.lookup k = some v
  evicted : ∀ k v, op = .put k v → ∀ e ∈ c.entries, e.1 ≠ k → e ∈ (c.perform op).entries ∨ c.entries.getLast? = some e
  removed : op = .removeLast → ∀ e, c.entries.getLast? = some e → c.getandRemoveLRUKey.1 = e.1

omit [Inhabited κ] in
theorem Inv.get_eq (h : c.Inv ops) (k : κ) : (c.get k).1 = c.entries.lookup k := by
  unfold get
  cases hget : c.cache.get? k with
  | none => exact (h.lookup_eq_none hget).symm
  | some it =>
    obtain ⟨v, hmem⟩ := (h.index k it).1 hget
    rw [h.lookup_eq hmem]
    show (c.lruList.find? _).map _ = _
    rw [← head?_filter, (h.filter_eq hmem).1]
    rfl

theorem removed_eq (c : LRUCacheNodes κ ν) {e : κ × ν} (hla : c.entries.getLast? = some e) : c.getandRemoveLRUKey.1 = e.1 := by
  rw [entries, getLast?_map] at hla
  obtain ⟨node, hnod, rfl⟩ := Option.map_eq_some_iff.1 hla
  simp [getandRemoveLRUKey, hnod]

theorem Inv.meets_iff (h : c.Inv ops) (hpos : 0 < c.capacity) (op : Op κ ν) : c.Meets op ↔ c.Takes op := by
  obtain ⟨-, ⟨htakes, hent⟩ | ⟨hno, hent⟩⟩ := h.perform_eq op
  · refine iff_of_true ⟨hent, fun k _ => h.get_eq k, ?_, ?_, fun _ e => c.removed_eq⟩ htakes
    · rintro k v rfl
      rw [hent, Recency.step, take_cons hpos, lookup_cons, beq_self_eq_true]
    · rintro k v rfl e he hne
      rw [hent]
      exact mem_step_put hpos h.bounded he hne
  · refine iff_of_false ?_ hno
    intro hmeets
    cases op with
    | put k v =>
      have hstd := hmeets.stored k v rfl
      rw [hent] at hstd
      have hmem := (dropLast_sublist _).subset (mem_of_lookup hstd)
      exact hno (.inl (h.mem_keys_iff.2 (mem_map_of_mem hmem)))
    | get _ | remove _ | removeLast => exact hno trivial

theorem run_eq (capacity : Nat) (ops : List (Op κ ν)) (h : ∀ op earlier, op :: earlier <:+ ops →
    (run capacity earlier).Takes op) :
    (run capacity ops).entries = ops.foldr (fun op l => Recency.step capacity l op) [] := by
  induction ops with
  | nil => rfl
  | cons op earlier ih =>
    have hearlier := ih fun op' earlier' hs => h op' earlier' (hs.trans (suffix_cons op earlier))
    obtain ⟨-, ⟨-, hent⟩ | ⟨hno, -⟩⟩ := (inv_run capacity earlier).perform_eq op
    · rw [run, hent, hearlier, capacity_run]
      rfl
    · exact absurd (h op earlier suffix_rfl) hno

/-- After any operations the map and the list have the same keys, each once and in the order of last use, and no more than the
capacity. The steps of a run are those of the bounded map exactly when every new key finds room, and then the cache is the
bounded map. -/
theorem run_refines_iff {capacity : Nat} (hpos : 1 ≤ capacity) (ops : List (Op κ ν)) :
    ((run capacity ops).cache.keys.Perm ((run capacity ops).entries.map fst) ∧
      ((run capacity ops).entries.map fst).Nodup ∧ Recent ops (run capacity ops).entries ∧
      (run capacity ops).entries.length ≤ capacity) ∧
    ((∀ op earlier, op :: earlier <:+ ops → (run capacity earlier).Meets op) ↔
      ∀ op earlier, op :: earlier <:+ ops → (run capacity earlier).Takes op) ∧
    ((∀ op earlier, op :: earlier <:+ ops → (run capacity earlier).Takes op) →
      (run capacity ops).entries = ops.foldr (fun op l => Recency.step capacity l op) []) := by
  have hinv : (run capacity ops).Inv ops := inv_run capacity ops
  refine ⟨⟨hinv.keys_perm, hinv.nodup_keys, hinv.recent, ?_⟩, ?_, run_eq capacity ops⟩
  · have hbounded := hinv.bounded
    rwa [capacity_run] at hbounded
  · refine forall_congr' fun op => forall_congr' fun earlier => imp_congr_right ?_
    intro _
    exact (inv_run capacity earlier).meets_iff (by rw [capacity_run]; exact hpos) op

/-- Two keys find room in a cache for two. -/
theorem run_refines_iff_two : ((∀ op earlier, op :: earlier <:+ [Op.put 2 'b', .put 1 'a'] → (run 2 earlier).Meets op) ↔
    ∀ op earlier, op :: earlier <:+ [Op.put 2 'b', .put 1 'a'] → (run 2 earlier).Takes op) :=
  (run_refines_iff (by decide) [Op.put 2 'b', .put 1 'a']).2.1

/-- A full cache does not take a new key. -/
theorem not_stored_of_full : ¬∀ (capacity : Nat), 1 ≤ capacity → ∀ (earlier : List (Op Nat Char)) (k : Nat) (v : Char),
    (run capacity (.put k v :: earlier)).entries.lookup k = some v := by
  intro h
  have hput := h 1 (by decide) [.put 1 'a'] 2 'b'
  nomatch hput

end LRUCacheNodes

end ServerlessLLM.ModelPool
