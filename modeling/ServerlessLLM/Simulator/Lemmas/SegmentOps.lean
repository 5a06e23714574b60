import ServerlessLLM.Simulator.Lemmas.ExtentOps

/-!
# Evicting and compacting

Each operation of `SegmentMemory` is described once: what it does to the allocated extents (`Drops` for evictions), and that it
keeps `Sound`, the invariant of the pool.
-/

namespace ServerlessLLM.Simulator

open List Option Extent

namespace Accesses

variable {models : Models} {args : Args} {a : Accesses} {rank objectBytes : Key → ℚ} {keys : List Key}

theorem mem_of_selectVictim {key : Key} (h : a.selectVictim models args rank objectBytes keys = some key) : key ∈ keys := by
  unfold selectVictim at h
  split at h
  · rename_i pipeline frequency hp hf
    have hpm := argmin_mem hp
    have hfm := argmin_mem hf
    split at h
    · exact some.inj h ▸ hpm
    · split at h
      · exact some.inj h ▸ hpm
      · dsimp only at h
        split at h
        · exact some.inj h ▸ hpm
        · exact some.inj h ▸ hfm
  · cases h

theorem eq_nil_of_selectVictim (h : a.selectVictim models args rank objectBytes keys = none) : keys = [] := by
  unfold selectVictim at h
  split at h
  · split at h
    · cases h
    · split at h
      · cases h
      · dsimp only at h
        split at h <;> cases h
  · rename_i hno
    cases hp : keys.argmin (a.value models args rank) with
    | none => exact argmin_eq_none.1 hp
    | some pipeline =>
      cases hf : keys.argmin (a.frequencyValue args) with
      | none => exact argmin_eq_none.1 hf
      | some frequency => exact absurd hf (hno pipeline frequency hp)

end Accesses

namespace SegmentMemory

open Extent

variable {models : Models} {args : Args} {candidate : Key → Bool} {m m' m'' : SegmentMemory}

/-- `allocated_extents` has the allocated extents, by their keys. -/
def Indexed (m : SegmentMemory) : Prop :=
  ∀ key e, m.allocatedExtents.get? key = some e ↔ e ∈ m.extents ∧ e.key = some key

/-- The pool is sound: the extents stand behind each other from zero to the capacity, no two free ones side by side, no key is
there twice, and `allocated_extents` has exactly the allocated extents. Only a pool without bytes has an empty extent. -/
structure Sound (m : SegmentMemory) : Prop where
  layout : Layout m.capacityBytes m.nextId m.extents
  apart : m.extents.IsChain Apart
  positive : 0 < m.capacityBytes → ∀ e ∈ m.extents, 0 < e.size
  indexed : m.Indexed

def Resident (m : SegmentMemory) (key : Key) : Prop := key ∈ m.extents.filterMap Extent.key

def Inside (m : SegmentMemory) : Prop := ∀ e ∈ allocated m.extents, e.offset + e.size ≤ m.weightCapacityBytes

variable {key : Key} {e : Extent}

theorem resident_iff : m.Resident key ↔ ∃ e ∈ allocated m.extents, e.key = some key := by
  rw [Resident, ← filterMap_key_allocated, Extent.mem_keys]

/-! ## Lookups -/

theorem indexedExtent_eq (h : m.Indexed) (key : Key) : m.indexedExtent key = m.allocatedExtents.get? key := by
  unfold indexedExtent
  cases hget : m.allocatedExtents.get? key with
  | none => rfl
  | some e => rw [filter_some, if_pos (decide_eq_true ((h key e).1 hget).2)]

theorem allocatedExtent_eq (h : m.Indexed) (key : Key) : m.allocatedExtent key = (m.allocatedExtents.get? key, m) := by
  unfold allocatedExtent
  rw [indexedExtent_eq h]
  cases hget : m.allocatedExtents.get? key with
  | some e => rfl
  | none =>
    have hfind : (m.extents.find? fun e => e.key = some key) = none := by
      rw [List.find?_eq_none]
      intro e he hk
      rw [(h key e).2 ⟨he, of_decide_eq_true hk⟩] at hget
      cases hget
    rw [hfind]

theorem get?_isSome_iff (h : m.Indexed) : (m.allocatedExtents.get? key).isSome ↔ m.Resident key := by
  rw [isSome_iff_exists, Resident, Extent.mem_keys]
  exact exists_congr fun e => h key e

/-! ## Dropping extents -/

/-- Extents were evicted, none of them one to keep; nothing was moved. -/
structure Drops (keep : Key → Prop) (m m' : SegmentMemory) : Prop where
  capacity_eq : m'.capacityBytes = m.capacityBytes
  weightCapacity_eq : m'.weightCapacityBytes = m.weightCapacityBytes
  accesses_eq : m'.accesses = m.accesses
  sublist : (allocated m'.extents).Sublist (allocated m.extents)
  kept : ∀ e ∈ allocated m.extents, (∀ key, e.key = some key → keep key) → e ∈ allocated m'.extents

theorem Drops.refl (keep : Key → Prop) (m : SegmentMemory) : Drops keep m m where
  capacity_eq := rfl
  weightCapacity_eq := rfl
  accesses_eq := rfl
  sublist := List.Sublist.refl _
  kept := fun _ he _ => he

theorem Drops.trans {keep : Key → Prop} (h : Drops keep m m') (h' : Drops keep m' m'') : Drops keep m m'' where
  capacity_eq := h'.capacity_eq.trans h.capacity_eq
  weightCapacity_eq := h'.weightCapacity_eq.trans h.weightCapacity_eq
  accesses_eq := h'.accesses_eq.trans h.accesses_eq
  sublist := h'.sublist.trans h.sublist
  kept := fun e he hk => h'.kept e (h.kept e he hk) hk

theorem Drops.inside {keep : Key → Prop} (h : Drops keep m m') (hin : m.Inside) : m'.Inside := by
  intro e he
  rw [h.weightCapacity_eq]
  exact hin e (h.sublist.subset he)

theorem Drops.resident {keep : Key → Prop} (h : Drops keep m m') (hk : keep key) (hr : m.Resident key) : m'.Resident key := by
  obtain ⟨e, he, hek⟩ := resident_iff.1 hr
  refine resident_iff.2 ⟨e, h.kept e he ?_, hek⟩
  intro key' hk'
  rw [some.inj (hk'.symm.trans hek)]
  exact hk

theorem Drops.resident_of {keep : Key → Prop} (h : Drops keep m m') (hr : m'.Resident key) : m.Resident key := by
  obtain ⟨e, he, hek⟩ := resident_iff.1 hr
  exact resident_iff.2 ⟨e, h.sublist.subset he, hek⟩

theorem free_resident (h : m.Indexed) (hl : Layout m.capacityBytes m.nextId m.extents)
    (he : e ∈ m.extents) (hk : e.key = some key) (coalescing : Bool) :
    ∃ l, m.free key coalescing =
        (e.size, { m with
          allocatedExtents := m.allocatedExtents.erase key
          extents := if coalescing then coalesce l else l }) ∧
      Layout m.capacityBytes m.nextId l ∧ allocated l = (allocated m.extents).filter (fun x => x.key ≠ some key) ∧
      l.map (fun x => (x.id, x.offset, x.size)) = m.extents.map fun x => (x.id, x.offset, x.size) := by
  have hget : m.allocatedExtents.get? key = some e := (h key e).2 ⟨he, hk⟩
  refine ⟨clearKey e.id m.extents, ?_, hl.clearKey e.id, ?_, map_clearKey _ (fun _ => rfl) _ _⟩
  · unfold free
    rw [indexedExtent_eq h, hget]
    rfl
  · rw [allocated_clearKey, filter_id_eq_filter_key hl.keys hl.ids he hk]

theorem indexed_erase (h : m.Indexed) {l : List Extent}
    (hl : allocated l = (allocated m.extents).filter fun x => x.key ≠ some key) (key' : Key) (e : Extent) :
    (m.allocatedExtents.erase key).get? key' = some e ↔ e ∈ l ∧ e.key = some key' := by
  have hmem : e ∈ l ∧ e.key = some key' ↔ e ∈ allocated l ∧ e.key = some key' := by
    constructor
    · rintro ⟨he, hk⟩
      exact ⟨mem_allocated_of_key he hk, hk⟩
    · rintro ⟨he, hk⟩
      exact ⟨(mem_allocated.1 he).1, hk⟩
  rw [hmem, hl, mem_filter, Dict.get?_erase]
  by_cases hkey : key' = key
  · subst hkey
    rw [if_pos rfl]
    constructor
    · intro hno
      cases hno
    · rintro ⟨⟨-, hne⟩, hk⟩
      exact absurd hk (of_decide_eq_true hne)
  · rw [if_neg hkey, h key' e]
    constructor
    · rintro ⟨he, hk⟩
      refine ⟨⟨mem_allocated_of_key he hk, decide_eq_true ?_⟩, hk⟩
      rw [hk]
      exact fun heq => hkey (some.inj heq)
    · rintro ⟨⟨he, -⟩, hk⟩
      exact ⟨(mem_allocated.1 he).1, hk⟩

theorem indexed_carve (h : m.Indexed) {before after : List Extent} (hspl : m.extents = before ++ e :: after)
    (hfe : e.key = none) {id n : Nat}
    (hks : ((before ++ (e.carve id key n ++ after)).filterMap Extent.key).Nodup) (key' : Key) (y : Extent) :
    (m.allocatedExtents.set key (e.front id key n)).get? key' = some y ↔
      y ∈ before ++ (e.carve id key n ++ after) ∧ y.key = some key' := by
  have hfrt : e.front id key n ∈ before ++ (e.carve id key n ++ after) := mem_append_right _ (mem_append_left _ mem_cons_self)
  rw [Dict.get?_set]
  split
  · rename_i hkey
    subst hkey
    constructor
    · intro heq
      rw [← some.inj heq]
      exact ⟨hfrt, rfl⟩
    · rintro ⟨hy, hyk⟩
      rw [eq_of_key hks hy hfrt hyk rfl]
  · rename_i hkey
    have hmem : y.key = some key' → (y ∈ m.extents ↔ y ∈ before ++ (e.carve id key n ++ after)) := by
      intro hyk
      have h1 : y ∈ m.extents ↔ y ∈ allocated m.extents := by simp [mem_allocated, hyk]
      have h2 : y ∈ before ++ (e.carve id key n ++ after) ↔ y ∈ allocated (before ++ (e.carve id key n ++ after)) := by
        simp only [mem_allocated, hyk, isSome_some, and_true]
      have hne : y ≠ e.front id key n := by
        rintro rfl
        exact hkey (some.inj hyk).symm
      rw [h1, h2, hspl, allocated_append_free hfe, allocated_append_carve, mem_append, mem_append, mem_cons]
      tauto
    rw [h key' y]
    constructor
    · rintro ⟨hy, hyk⟩
      exact ⟨(hmem hyk).1 hy, hyk⟩
    · rintro ⟨hy, hyk⟩
      exact ⟨(hmem hyk).2 hy, hyk⟩

theorem Sound.free (h : m.Sound) (he : e ∈ m.extents) (hk : e.key = some key) : (m.free key true).2.Sound ∧
      allocated (m.free key true).2.extents = (allocated m.extents).filter (fun x => x.key ≠ some key) := by
  obtain ⟨l, hfe, hlay, halloc, hmap⟩ := free_resident h.indexed h.layout he hk true
  have hcoal : allocated (coalesce l) = (allocated m.extents).filter fun x => x.key ≠ some key := by
    rw [allocated_coalesce, halloc]
  rw [hfe]
  refine ⟨⟨hlay.coalesce, isChain_coalesce l, ?_, indexed_erase h.indexed hcoal⟩, hcoal⟩
  intro hpos
  refine size_coalesce (fun _ _ ha _ => Nat.add_pos_left ha _) ?_
  intro x hx
  have hmem : (x.id, x.offset, x.size) ∈ l.map fun x => (x.id, x.offset, x.size) := mem_map_of_mem hx
  rw [hmap] at hmem
  obtain ⟨y, hy, heq⟩ := mem_map.1 hmem
  rw [← (Prod.mk.inj (Prod.mk.inj heq).2).2]
  exact h.positive hpos y hy

/-! ## Evictions -/

theorem evictOne_eq_some (h : m.Sound) {cost cost' : LoadCost} (he : m.evictOne models args candidate cost = some (cost', m')) :
    ∃ key, candidate key = true ∧ m.victim models args candidate = some key ∧ m.Resident key ∧ m'.Sound ∧
      Drops (fun key => candidate key = false) m m' ∧
      allocated m'.extents = (allocated m.extents).filter fun x => x.key ≠ some key := by
  unfold evictOne at he
  split at he
  · cases he
  · rename_i key hv
    have hmem := Accesses.mem_of_selectVictim hv
    rw [candidates, mem_filter] at hmem
    obtain ⟨x, hx, hxk⟩ := mem_keys.1 hmem.1
    obtain ⟨hsnd, halloc⟩ := h.free hx hxk
    obtain ⟨l, hfe, -⟩ := free_resident h.indexed h.layout hx hxk true
    have hm' : (m.free key true).2 = m' := (Prod.mk.inj (Option.some.inj he)).2
    rw [hm'] at hsnd halloc
    refine ⟨key, hmem.2, hv, hmem.1, hsnd, ?_, halloc⟩
    rw [hfe] at hm'
    subst hm'
    refine ⟨rfl, rfl, rfl, ?_, ?_⟩
    · rw [halloc]
      exact filter_sublist
    · intro y hy hkeep
      rw [halloc, mem_filter]
      refine ⟨hy, decide_eq_true ?_⟩
      intro hyk
      have hfal := hkeep key hyk
      rw [hmem.2] at hfal
      cases hfal

theorem evictOne_eq_none {cost : LoadCost} (he : m.evictOne models args candidate cost = none) :
    m.candidates candidate = [] := by
  unfold evictOne at he
  split at he
  · rename_i hv
    exact Accesses.eq_nil_of_selectVictim hv
  · cases he

theorem evictUntil_spec (wanted : SegmentMemory → Bool) {fuel : Nat} (cost : LoadCost) (h : m.Sound)
    (hfuel : (allocated m.extents).length ≤ fuel) :
    (∃ cost' m', evictUntil models args candidate wanted fuel cost m = some (cost', m') ∧ wanted m' = true ∧ m'.Sound ∧
      Drops (fun key => candidate key = false) m m') ∨
    (evictUntil models args candidate wanted fuel cost m = none ∧ ∃ m', wanted m' = false ∧ m'.Sound ∧
      Drops (fun key => candidate key = false) m m' ∧ m'.candidates candidate = []) := by
  induction fuel generalizing m cost with
  | zero =>
    rw [evictUntil]
    by_cases hw : wanted m = true
    · rw [if_pos hw]
      exact .inl ⟨cost, m, rfl, hw, h, .refl _ m⟩
    · rw [if_neg hw]
      refine .inr ⟨rfl, m, Bool.eq_false_iff.2 hw, h, .refl _ m, ?_⟩
      have hnil : allocated m.extents = [] := length_eq_zero_iff.1 (Nat.le_zero.1 hfuel)
      rw [candidates, ← filterMap_key_allocated, hnil]
      rfl
  | succ fuel ih =>
    rw [evictUntil]
    by_cases hw : wanted m = true
    · rw [if_pos hw]
      exact .inl ⟨cost, m, rfl, hw, h, .refl _ m⟩
    · rw [if_neg hw]
      cases he : m.evictOne models args candidate cost with
      | none => exact .inr ⟨rfl, m, Bool.eq_false_iff.2 hw, h, .refl _ m, evictOne_eq_none he⟩
      | some x =>
        obtain ⟨cost₁, m₁⟩ := x
        obtain ⟨key, -, -, hres, hsnd, hdrops, halloc⟩ := evictOne_eq_some h he
        have hlt : (allocated m₁.extents).length < (allocated m.extents).length := by
          obtain ⟨e, hea, hek⟩ := resident_iff.1 hres
          rw [halloc, length_filter_lt_length_iff_exists]
          exact ⟨e, hea, by simp [hek]⟩
        rcases ih cost₁ hsnd (by omega) with ⟨cost', m', heq, hw', hs', hd'⟩ | ⟨heq, m', hw', hs', hd', hc'⟩
        · exact .inl ⟨cost', m', heq, hw', hs', hdrops.trans hd'⟩
        · exact .inr ⟨heq, m', hw', hs', hdrops.trans hd', hc'⟩

end SegmentMemory

end ServerlessLLM.Simulator
