import Mathlib.Data.List.Induction
import Mathlib.Data.List.Nodup

/-!
# Dictionaries

A dictionary keeps its entries in the order in which their keys came, each key once. `get?_set` and `get?_erase` are what a
proof needs of the operations; `mem_entries_iff` goes from the entries to the lookup and back.
-/

instance Dict.lawfulBEqNatNat : LawfulBEq (Nat × Nat) := inferInstance

/-- A dictionary, in the order in which the keys came. -/
structure Dict (κ ν : Type) where
  entries : List (κ × ν)
  nodup : (entries.map Prod.fst).Nodup

namespace Dict

open List
open Prod (fst)

variable {κ ν : Type}

/-- The dictionary without entries. -/
def empty : Dict κ ν := ⟨[], nodup_nil⟩

/-- The keys, in their order. -/
def keys (d : Dict κ ν) : List κ := d.entries.map fst

@[simp] theorem entries_empty : (empty : Dict κ ν).entries = [] := rfl

def mapValues {μ : Type} (d : Dict κ ν) (f : κ → ν → μ) : Dict κ μ where
  entries := d.entries.map fun e => (e.1, f e.1 e.2)
  nodup := by
    rw [map_map]
    exact d.nodup

@[simp] theorem keys_mapValues {μ : Type} (d : Dict κ ν) (f : κ → ν → μ) : (d.mapValues f).keys = d.keys := by
  unfold keys mapValues
  rw [map_map]
  rfl

variable [DecidableEq κ]

instance [DecidableEq ν] : DecidableEq (Dict κ ν) := fun d d' =>
  decidable_of_iff (d.entries = d'.entries) <| by
    cases d
    cases d'
    simp

/-- The value of a key. -/
def get? (d : Dict κ ν) (k : κ) : Option ν := d.entries.lookup k

/-- The entries after `k` was given the value `v`: in its place, or at the end for a new key. -/
def setEntries (l : List (κ × ν)) (k : κ) (v : ν) : List (κ × ν) :=
  if k ∈ l.map fst then l.map fun e => if e.1 = k then (k, v) else e else l ++ [(k, v)]

theorem keys_setEntries (l : List (κ × ν)) (k : κ) (v : ν) :
    (setEntries l k v).map fst = if k ∈ l.map fst then l.map fst else l.map fst ++ [k] := by
  unfold setEntries
  split
  · rw [map_map]
    refine map_congr_left fun e _ => ?_
    by_cases he : e.1 = k
    · simp [he]
    · simp [he]
  · simp

theorem nodup_setEntries {l : List (κ × ν)} (h : (l.map fst).Nodup) (k : κ) (v : ν) :
    ((setEntries l k v).map fst).Nodup := by
  rw [keys_setEntries]
  split
  · exact h
  · rename_i hk
    rw [nodup_append]
    refine ⟨h, by simp, ?_⟩
    rintro a ha b hb rfl
    obtain rfl : a = k := by simpa using hb
    exact hk ha

/-- Give a key a value. -/
def set (d : Dict κ ν) (k : κ) (v : ν) : Dict κ ν := ⟨setEntries d.entries k v, nodup_setEntries d.nodup k v⟩

/-- Remove a key. -/
def erase (d : Dict κ ν) (k : κ) : Dict κ ν :=
  ⟨d.entries.filter fun e => e.1 ≠ k, d.nodup.sublist (List.Sublist.map _ filter_sublist)⟩

/-- Change the value of a key, when it has one. -/
def modify (d : Dict κ ν) (k : κ) (f : ν → ν) : Dict κ ν :=
  match d.get? k with
  | none => d
  | some v => d.set k (f v)

/-! ## Lookups -/

@[simp] theorem get?_empty (k : κ) : (empty : Dict κ ν).get? k = none := rfl

theorem lookup_eq_none_iff {l : List (κ × ν)} {k : κ} : l.lookup k = none ↔ k ∉ l.map fst := by
  induction l with
  | nil => simp
  | cons e l ih =>
    obtain ⟨k', v⟩ := e
    by_cases h : k = k'
    · simp [h]
    · rw [lookup_cons, beq_false_of_ne h]
      simp [ih, h]

theorem lookup_eq_some_iff {l : List (κ × ν)} (hnd : (l.map fst).Nodup) {k : κ} {v : ν} :
    l.lookup k = some v ↔ (k, v) ∈ l := by
  induction l with
  | nil => simp
  | cons e l ih =>
    obtain ⟨k', v'⟩ := e
    rw [map_cons, nodup_cons] at hnd
    by_cases h : k = k'
    · subst h
      rw [lookup_cons, beq_self_eq_true, mem_cons]
      constructor
      · intro hv
        exact .inl (by rw [Option.some.inj hv])
      · rintro (hv | hv)
        · rw [(Prod.mk.inj hv).2]
        · exact absurd (mem_map_of_mem (f := fst) hv) hnd.1
    · rw [lookup_cons, beq_false_of_ne h]
      simp [ih hnd.2, h]

theorem get?_eq_none_iff {d : Dict κ ν} {k : κ} : d.get? k = none ↔ k ∉ d.keys := lookup_eq_none_iff

theorem mem_entries_iff {d : Dict κ ν} {k : κ} {v : ν} : (k, v) ∈ d.entries ↔ d.get? k = some v :=
  (lookup_eq_some_iff d.nodup).symm

theorem mem_keys_iff {d : Dict κ ν} {k : κ} : k ∈ d.keys ↔ ∃ v, d.get? k = some v := by
  rw [← Option.ne_none_iff_exists', Ne, get?_eq_none_iff, not_not]

theorem keys_set (d : Dict κ ν) (k : κ) (v : ν) : (d.set k v).keys = if k ∈ d.keys then d.keys else d.keys ++ [k] :=
  keys_setEntries d.entries k v

@[simp] theorem mem_keys_set {d : Dict κ ν} {k k' : κ} {v : ν} : k' ∈ (d.set k v).keys ↔ k' = k ∨ k' ∈ d.keys := by
  rw [keys_set]
  split
  · rename_i hk
    refine ⟨.inr, ?_⟩
    rintro (rfl | h)
    · exact hk
    · exact h
  · simp [or_comm]

theorem keys_set_of_get? {d : Dict κ ν} {k : κ} {v : ν} (h : d.get? k = some v) (v' : ν) : (d.set k v').keys = d.keys := by
  rw [keys_set, if_pos (mem_keys_iff.2 ⟨v, h⟩)]

theorem mem_entries_set {d : Dict κ ν} {k k' : κ} {v v' : ν} :
    (k', v') ∈ (d.set k v).entries ↔ (k' = k ∧ v' = v) ∨ (k' ≠ k ∧ (k', v') ∈ d.entries) := by
  have hset : (d.set k v).entries = setEntries d.entries k v := rfl
  rw [hset, setEntries]
  split
  · rename_i hk
    rw [mem_map]
    constructor
    · rintro ⟨e, he, heq⟩
      by_cases hek : e.1 = k
      · rw [if_pos hek] at heq
        obtain ⟨rfl, rfl⟩ := Prod.mk.inj heq
        exact .inl ⟨rfl, rfl⟩
      · rw [if_neg hek] at heq
        subst heq
        exact .inr ⟨hek, he⟩
    · rintro (⟨rfl, rfl⟩ | ⟨hne, he⟩)
      · obtain ⟨e, he, hek⟩ := mem_map.1 hk
        exact ⟨e, he, by simp [hek]⟩
      · exact ⟨_, he, by simp [hne]⟩
  · rename_i hk
    rw [mem_append, mem_singleton, Prod.mk.injEq]
    constructor
    · rintro (he | h)
      · exact .inr ⟨fun h => hk (h ▸ mem_map_of_mem (f := fst) he), he⟩
      · exact .inl h
    · rintro (h | ⟨-, he⟩)
      · exact .inr h
      · exact .inl he

theorem get?_set (d : Dict κ ν) (k k' : κ) (v : ν) : (d.set k v).get? k' = if k' = k then some v else d.get? k' := by
  refine Option.ext fun v' => ?_
  rw [← mem_entries_iff, mem_entries_set]
  split
  · rename_i h
    simp [h, eq_comm]
  · rename_i h
    simp [h, mem_entries_iff]

@[simp] theorem get?_set_self (d : Dict κ ν) (k : κ) (v : ν) : (d.set k v).get? k = some v := by simp [get?_set]

theorem get?_set_of_ne (d : Dict κ ν) {k k' : κ} (v : ν) (h : k' ≠ k) : (d.set k v).get? k' = d.get? k' := by
  simp [get?_set, h]

theorem get?_erase (d : Dict κ ν) (k k' : κ) : (d.erase k).get? k' = if k' = k then none else d.get? k' := by
  refine Option.ext fun v => ?_
  rw [← mem_entries_iff, erase, mem_filter]
  split
  · rename_i h
    simp [h]
  · rename_i h
    simp [h, mem_entries_iff]

theorem keys_erase (d : Dict κ ν) (k : κ) : (d.erase k).keys = d.keys.filter fun k' => k' ≠ k := by
  unfold erase keys
  rw [filter_map]
  rfl

@[simp] theorem mem_keys_erase {d : Dict κ ν} {k k' : κ} : k' ∈ (d.erase k).keys ↔ k' ∈ d.keys ∧ k' ≠ k := by
  simp [keys_erase]

theorem length_erase_lt {d : Dict κ ν} {k : κ} {v : ν} (h : d.get? k = some v) :
    (d.erase k).entries.length < d.entries.length := by
  rw [erase, length_filter_lt_length_iff_exists]
  exact ⟨(k, v), mem_entries_iff.2 h, by simp⟩

theorem get?_mapValues {μ : Type} (d : Dict κ ν) (f : κ → ν → μ) (k : κ) : (d.mapValues f).get? k = (d.get? k).map (f k) := by
  refine Option.ext fun v => ?_
  rw [← mem_entries_iff, Option.map_eq_some_iff, mapValues, mem_map]
  constructor
  · rintro ⟨e, he, heq⟩
    obtain ⟨rfl, rfl⟩ := Prod.mk.inj heq
    exact ⟨e.2, mem_entries_iff.1 he, rfl⟩
  · rintro ⟨v', hv', rfl⟩
    exact ⟨(k, v'), mem_entries_iff.2 hv', rfl⟩

theorem mem_keys_foldl_set (l : List (κ × ν)) (d : Dict κ ν) {k : κ} :
    k ∈ (l.foldl (fun d e => d.set e.1 e.2) d).keys ↔ k ∈ l.map fst ∨ k ∈ d.keys := by
  induction l generalizing d with
  | nil => simp
  | cons e l ih =>
    rw [foldl_cons, ih, mem_keys_set, map_cons, mem_cons]
    tauto

theorem forall_mem_foldl_set {P : ν → Prop} {l : List (κ × ν)} (hl : ∀ e ∈ l, P e.2) {d : Dict κ ν}
    (hd : ∀ e ∈ d.entries, P e.2) :
    ∀ e ∈ (l.foldl (fun d e => d.set e.1 e.2) d).entries, P e.2 := by
  induction l generalizing d with
  | nil => exact hd
  | cons e l ih =>
    refine ih (fun e he => hl e (mem_cons_of_mem _ he)) ?_
    rintro ⟨k, v⟩ hk
    rcases mem_entries_set.1 hk with ⟨-, rfl⟩ | ⟨-, hk⟩
    · exact hl e mem_cons_self
    · exact hd _ hk

theorem entries_set_of_get? {d : Dict κ ν} {k : κ} {v : ν} (h : d.get? k = some v) :
    ∃ l l', d.entries = l ++ (k, v) :: l' ∧ ∀ v', (d.set k v').entries = l ++ (k, v') :: l' := by
  obtain ⟨l, l', hspl⟩ := append_of_mem (mem_entries_iff.2 h)
  refine ⟨l, l', hspl, fun v' => ?_⟩
  have hnd := d.nodup
  rw [hspl, map_append, map_cons, nodup_append, nodup_cons] at hnd
  have hset : (d.set k v').entries = setEntries d.entries k v' := rfl
  have hsa : ∀ l₀ : List (κ × ν), (∀ e ∈ l₀, e.1 ≠ k) → (l₀.map fun e => if e.1 = k then (k, v') else e) = l₀ := by
    intro l₀ hne
    refine (map_congr_left fun e he => ?_).trans (map_id l₀)
    exact if_neg (hne e he)
  rw [hset, setEntries, if_pos (by simp [hspl]), hspl, map_append, map_cons, if_pos rfl, hsa l, hsa l']
  · intro e he heq
    have hmem : e.1 ∈ l'.map fst := mem_map_of_mem he
    rw [heq] at hmem
    exact hnd.2.1.1 hmem
  · intro e he heq
    exact hnd.2.2 e.1 (mem_map_of_mem he) k (by simp) heq

theorem entries_set_of_not_mem {d : Dict κ ν} {k : κ} (h : k ∉ d.keys) (v : ν) :
    (d.set k v).entries = d.entries ++ [(k, v)] := if_neg h

theorem entries_foldl_set {l : List (κ × ν)} {d : Dict κ ν} (h : (d.keys ++ l.map fst).Nodup) :
    (l.foldl (fun d e => d.set e.1 e.2) d).entries = d.entries ++ l := by
  induction l generalizing d with
  | nil => exact (append_nil _).symm
  | cons e l ih =>
    have hnew : e.1 ∉ d.keys := fun hmem => (nodup_append.1 h).2.2 _ hmem _ mem_cons_self rfl
    rw [foldl_cons, ih, entries_set_of_not_mem hnew, append_assoc]
    · rfl
    · rwa [keys_set, if_neg hnew, append_assoc]

omit [DecidableEq κ] in
theorem eq_of_entries {d d' : Dict κ ν} (h : d.entries = d'.entries) : d = d' := by
  cases d
  cases d'
  cases h
  rfl

theorem setEntries_setEntries (l : List (κ × ν)) (k : κ) (v v' : ν) : setEntries (setEntries l k v) k v' =
    setEntries l k v' := by
  have hmem : k ∈ (setEntries l k v).map fst := by
    rw [keys_setEntries]
    split
    · assumption
    · simp
  rw [setEntries, if_pos hmem]
  unfold setEntries
  split
  · rw [map_map]
    refine map_congr_left fun e _ => ?_
    by_cases he : e.1 = k
    · simp [he]
    · simp [he]
  · rename_i hk
    rw [map_append]
    congr 1
    · refine (map_congr_left fun e he => if_neg ?_).trans (map_id l)
      rintro rfl
      exact hk (mem_map_of_mem he)
    · simp

theorem set_set (d : Dict κ ν) (k : κ) (v v' : ν) : (d.set k v).set k v' = d.set k v' :=
  eq_of_entries (setEntries_setEntries d.entries k v v')

theorem set_eq_self_iff {d : Dict κ ν} {k : κ} {v : ν} : d.set k v = d ↔ d.get? k = some v := by
  constructor
  · intro h
    rw [← h, get?_set_self]
  · intro h
    obtain ⟨l, l', hspl, hset⟩ := entries_set_of_get? h
    exact eq_of_entries ((hset v).trans hspl.symm)

theorem entries_erase_perm {d : Dict κ ν} {k : κ} {v : ν} {l : List (κ × ν)} (h : d.entries.Perm ((k, v) :: l)) :
    (d.erase k).entries.Perm l := by
  have hnd : (((k, v) :: l).map fst).Nodup := (h.map fst).nodup_iff.1 d.nodup
  rw [map_cons, nodup_cons] at hnd
  have hkeep : ∀ e ∈ l, decide (e.1 ≠ k) = true := by
    intro e he
    have hmem : e.1 ∈ l.map fst := mem_map_of_mem he
    refine decide_eq_true fun heq => hnd.1 ?_
    rwa [heq] at hmem
  have hflr := h.filter fun e => decide (e.1 ≠ k)
  rwa [filter_cons_of_neg (by simp), filter_eq_self.2 hkeep] at hflr

theorem entries_perm_erase {d : Dict κ ν} {k : κ} {v : ν} (h : d.get? k = some v) :
    d.entries.Perm ((k, v) :: (d.erase k).entries) := by
  obtain ⟨l, l', hspl⟩ := append_of_mem (mem_entries_iff.2 h)
  have hpm : d.entries.Perm ((k, v) :: (l ++ l')) := by
    rw [hspl]
    exact perm_middle
  exact hpm.trans ((entries_erase_perm hpm).symm.cons _)

theorem entries_set_perm {d : Dict κ ν} {k : κ} {v : ν} (h : d.get? k = some v) (v' : ν) :
    (d.set k v').entries.Perm ((k, v') :: (d.erase k).entries) := by
  obtain ⟨l, l', hspl, hset⟩ := entries_set_of_get? h
  have hpm : d.entries.Perm ((k, v) :: (l ++ l')) := by
    rw [hspl]
    exact perm_middle
  rw [hset]
  exact perm_middle.trans ((entries_erase_perm hpm).symm.cons _)

theorem modify_of_get? {d : Dict κ ν} {k : κ} {v : ν} (h : d.get? k = some v) (f : ν → ν) : d.modify k f = d.set k (f v) := by
  unfold modify
  rw [h]

theorem modify_of_get?_none {d : Dict κ ν} {k : κ} (h : d.get? k = none) (f : ν → ν) : d.modify k f = d := by
  unfold modify
  rw [h]

theorem get?_modify (d : Dict κ ν) (k k' : κ) (f : ν → ν) :
    (d.modify k f).get? k' = if k' = k then (d.get? k).map f else d.get? k' := by
  cases h : d.get? k with
  | none =>
    rw [modify_of_get?_none h]
    split
    · rename_i hk
      rw [hk, h]
      rfl
    · rfl
  | some v =>
    rw [modify_of_get? h, get?_set]
    rfl

theorem map_entries_modify {μ : Type} (d : Dict κ ν) (k : κ) (f : ν → ν) (g : κ × ν → μ) (hg : ∀ v, g (k, f v) = g (k, v)) :
    (d.modify k f).entries.map g = d.entries.map g := by
  cases h : d.get? k with
  | none => rw [modify_of_get?_none h]
  | some v =>
    obtain ⟨l, l', hspl, hset⟩ := entries_set_of_get? h
    rw [modify_of_get? h, hset, hspl]
    simp only [map_append, map_cons, hg]

@[simp] theorem keys_modify (d : Dict κ ν) (k : κ) (f : ν → ν) : (d.modify k f).keys = d.keys :=
  map_entries_modify d k f fst fun _ => rfl

theorem get?_foldl_set {l : List (κ × ν)} (hnd : (l.map fst).Nodup) {k : κ} {v : ν} (h : (k, v) ∈ l) (d : Dict κ ν) :
    (l.foldl (fun d e => d.set e.1 e.2) d).get? k = some v := by
  induction l using reverseRecOn with
  | nil => cases h
  | append_singleton l e ih =>
    rw [map_append, nodup_append] at hnd
    rw [foldl_append, foldl_cons, foldl_nil, get?_set]
    rcases mem_append.1 h with hl | hl
    · have hne : k ≠ e.1 := hnd.2.2 k (mem_map_of_mem (f := fst) hl) e.1 (by simp)
      rw [if_neg hne]
      exact ih hnd.1 hl
    · rw [mem_singleton] at hl
      subst hl
      rw [if_pos rfl]

theorem get?_foldl_set_of_not_mem {l : List (κ × ν)} {k : κ} (h : k ∉ l.map fst) (d : Dict κ ν) :
    (l.foldl (fun d e => d.set e.1 e.2) d).get? k = d.get? k := by
  induction l generalizing d with
  | nil => rfl
  | cons e l ih =>
    rw [map_cons, mem_cons, not_or] at h
    rw [foldl_cons, ih h.2, get?_set_of_ne _ _ h.1]

/-! ## Dictionaries in a dictionary -/

section Nested

variable {κ' : Type} [DecidableEq κ'] (d : Dict κ (Dict κ' ν)) (k m : κ) (k' n : κ')

theorem get?_set_nested (v : ν) : ((d.set k (((d.get? k).getD .empty).set k' v)).get? m).bind (fun e => e.get? n) =
    if m = k ∧ n = k' then some v else (d.get? m).bind fun e => e.get? n := by
  rw [get?_set]
  by_cases hm : m = k
  · subst hm
    rw [if_pos rfl, Option.bind_some, get?_set]
    by_cases hn : n = k'
    · simp [hn]
    · rw [if_neg hn, if_neg (by simp [hn])]
      cases d.get? m with
      | none => rfl
      | some e => rfl
  · rw [if_neg hm, if_neg (by simp [hm])]

theorem get?_erase_nested {e : Dict κ' ν} (he : d.get? k = some e) : ((d.set k (e.erase k')).get? m).bind (fun e => e.get? n) =
      if m = k ∧ n = k' then none else (d.get? m).bind fun e => e.get? n := by
  rw [get?_set]
  by_cases hm : m = k
  · subst hm
    rw [if_pos rfl, he, Option.bind_some, Option.bind_some, get?_erase]
    by_cases hn : n = k'
    · simp [hn]
    · rw [if_neg hn, if_neg (by simp [hn])]
  · rw [if_neg hm, if_neg (by simp [hm])]

end Nested

end Dict
