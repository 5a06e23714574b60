import ServerlessLLM.Library.Slots
import ServerlessLLM.Vmm.Pool

/-!
# How the ledger changes

Every operation is made of a few steps: an extent is taken off the free list or given back, a page is mapped to an extent that
was taken (`Sound.add`) or unmapped (`Sound.drop`), and an allocation is stored or taken out of its table.
-/

namespace ServerlessLLM.Vmm

open List Dict
open Prod (fst snd)

/-- The resident pages of an arena, with their extents. -/
def StableWeightArena.held (arena : StableWeightArena) : List (PageAddr × Nat) :=
  arena.physicalExtentIds.zipIdx.filterMap fun e => e.1.map fun id => (⟨arena.va, e.2⟩, id)

def Allocation.held (a : Allocation) : List (PageAddr × Nat) :=
  a.mappings.map fun m => (⟨a.va.range, a.va.page + m.virtualOffset⟩, m.physicalExtentId)

namespace Pool

variable (p : Pool)

/-- The resident pages of the arenas that are kept. -/
def stableHeldOf (keep : String → Bool) : List (PageAddr × Nat) :=
  (p.stableWeights.entries.filter fun e => keep e.1).flatMap fun e => e.2.held

/-- The pages of the weights that are kept. -/
def weightsHeldOf (keep : String → Bool) : List (PageAddr × Nat) :=
  (p.weights.entries.filter fun e => keep e.1).flatMap fun e => e.2.held

/-- What `EnsurePages` may evict: the resident pages of unprotected models, and the unprotected weights. -/
def reclaimableHeld (protectedFps : List String) : List (PageAddr × Nat) :=
  p.stableHeldOf (· ∉ protectedFps) ++ p.weightsHeldOf (· ∉ protectedFps)

def allocationHeld : List (PageAddr × Nat) :=
  (p.weights.entries.flatMap fun e => e.2.held) ++
    ((p.kvBlocks.entries.flatMap fun e => e.2.held) ++ p.legacyKv.flatMap Allocation.held)

/-- The resident pages of all arenas. -/
def stableHeld : List (PageAddr × Nat) := p.stableWeights.entries.flatMap fun e => e.2.held

/-- The pages that the pool has mapped. -/
def held : List (PageAddr × Nat) := p.stableHeld ++ p.allocationHeld

/-- The models, with the ranges of their arenas. -/
def arenas : List (String × Nat) := p.stableWeights.entries.map fun e => (e.1, e.2.va)

/-- The models, with what mapping and unmapping pages does not change of their arenas: range, bytes and number of pages. -/
def shapes : List (String × Nat × Nat × Nat) :=
  p.stableWeights.entries.map fun e => (e.1, e.2.va, e.2.logicalBytes, e.2.physicalExtentIds.length)

def aliased : List (PageAddr × Handle) :=
  p.bindingAliases.entries.flatMap fun e => e.2.pages.map fun page => (p.pageAddr e.1 page, e.2.handle)

def ranges : List Nat :=
  p.kvVaBase :: (p.arenas.map snd ++ ((p.weights.entries.map fun e => e.2.va.range) ++ p.legacyKv.map fun a => a.va.range))

structure Sound (p : Pool) (inflight : List (PageAddr × Nat)) (lost : List Nat) : Prop where
  accounts : FreeList.Accounts p.pageCapacity p.freeExtentIds p.physicalExtents ((p.held ++ inflight).map snd ++ lost)
  used : p.usedPages = (p.held ++ inflight).length
  mapped : p.driver.mapped.entries.Perm (((p.held ++ inflight).map fun e => (e.1, Handle.extent e.2)) ++ p.aliased)
  ranges_nodup : p.ranges.Nodup
  ranges_le : ∀ r ∈ p.ranges, 0 < r ∧ r ≤ p.driver.ranges
  kvRange : ∀ e ∈ p.kvBlocks.entries, e.2.va.range = p.kvVaBase
  bound : ∀ m ∈ p.bindingAliases.keys, m ∈ p.stableWeights.keys

/-- A KV block: where it lies, and the shape of its mappings. -/
structure IsBlock (p : Pool) (a : Allocation) : Prop where
  pages : a.mappedBytes = p.pagesFor a.logicalBytes * p.granularity
  offsets : a.mappings.map Mapping.virtualOffset = range (p.pagesFor a.logicalBytes)
  logicalBytes_pos : 0 < a.logicalBytes

def blockSlots (a : Allocation) : Nat × Nat := (a.va.page, a.mappedBytes / p.granularity)

/-- The invariant of the KV arena. -/
structure KVArena (p : Pool) : Prop where
  slots : p.kvVaSlots.length = p.pageCapacity
  covers : Slots.Covers p.kvVaSlots (p.kvBlocks.entries.map fun e => p.blockSlots e.2)
  blocks : ∀ e ∈ p.kvBlocks.entries, p.IsBlock e.2

end Pool

/-! ## The pages of an arena -/

theorem StableWeightArena.held_set (arena : StableWeightArena) {page : Nat} (h : page < arena.physicalExtentIds.length) :
    ∃ before behind, ∀ x, ({ arena with physicalExtentIds := arena.physicalExtentIds.set page x } : StableWeightArena).held =
      before ++ ((x.map fun id => ((⟨arena.va, page⟩ : PageAddr), id)).toList ++ behind) := by
  refine ⟨((arena.physicalExtentIds.take page).zipIdx).filterMap fun e => e.1.map fun id => (⟨arena.va, e.2⟩, id),
    ((arena.physicalExtentIds.drop (page + 1)).zipIdx (page + 1)).filterMap fun e => e.1.map fun id => (⟨arena.va, e.2⟩, id),
    ?_⟩
  intro x
  unfold held
  simp only
  rw [set_eq_take_append_cons_drop, if_pos h, zipIdx_append, zipIdx_cons, filterMap_append, filterMap_cons,
    length_take_of_le (Nat.le_of_lt h), Nat.zero_add]
  cases x <;> simp

theorem StableWeightArena.length_held (arena : StableWeightArena) : arena.held.length =
    arena.physicalExtentIds.countP Option.isSome := by
  have hcnt : ∀ (l : List (Option Nat)) (n : Nat),
      ((l.zipIdx n).filterMap fun e => e.1.map fun id => ((⟨arena.va, e.2⟩ : PageAddr), id)).length =
        l.countP Option.isSome := by
    intro l n
    induction l generalizing n with
    | nil => rfl
    | cons x l ih =>
      rw [zipIdx_cons, filterMap_cons, countP_cons]
      cases x with
      | none => simpa using ih (n + 1)
      | some id => simpa using ih (n + 1)
  exact hcnt _ 0

namespace Pool

variable {p p' : Pool} {model model' : String} {page page' id : Nat} {inflight inflight' : List (PageAddr × Nat)}
  {lost lost' : List Nat}

theorem extentOf_eq_some_iff : p.extentOf model page = some id ↔
    ∃ arena, p.stableWeights.get? model = some arena ∧ arena.physicalExtentIds[page]? = some (some id) := by
  unfold extentOf
  rw [Option.bind_eq_some_iff]
  refine exists_congr fun arena => and_congr_right ?_
  intro _
  rw [getD_eq_getElem?_getD]
  cases arena.physicalExtentIds[page]? <;> simp

theorem arenaPages_eq {arena : StableWeightArena} (h : p.stableWeights.get? model = some arena) :
    p.arenaPages model = arena.physicalExtentIds.length := by
  unfold arenaPages
  rw [h]
  rfl

theorem pageAddr_eq {arena : StableWeightArena} (h : p.stableWeights.get? model = some arena) (page : Nat) :
    p.pageAddr model page = ⟨arena.va, page⟩ := by
  unfold pageAddr
  rw [h]
  rfl

theorem lt_arenaPages_of_extentOf (h : p.extentOf model page = some id) : page < p.arenaPages model := by
  obtain ⟨arena, har, hid⟩ := extentOf_eq_some_iff.1 h
  rw [arenaPages_eq har]
  exact (List.getElem?_eq_some_iff.1 hid).1

theorem stableHeldOf_true (p : Pool) : (p.stableHeldOf fun _ => true) = p.stableHeld := by
  unfold stableHeldOf stableHeld
  rw [filter_eq_self.2 fun _ _ => rfl]

theorem stableHeldOf_setExtent {arena : StableWeightArena} (keep : String → Bool) (h : p.stableWeights.get? model = some arena)
    (hpg : page < arena.physicalExtentIds.length) (hkeep : keep model = true) :
    ∃ rest, ∀ x, ((p.setExtent model page x).stableHeldOf keep).Perm
      ((x.map fun id => (p.pageAddr model page, id)).toList ++ rest) := by
  obtain ⟨before, behind, hhe⟩ := arena.held_set hpg
  refine ⟨before ++ behind ++ ((p.stableWeights.erase model).entries.filter fun e => keep e.1).flatMap fun e => e.2.held, ?_⟩
  intro x
  unfold setExtent stableHeldOf
  rw [modify_of_get? h, pageAddr_eq h]
  refine (((entries_set_perm h _).filter _).flatMap_right _).trans ?_
  rw [filter_cons_of_pos (p := fun e : String × StableWeightArena => keep e.1) hkeep, flatMap_cons, hhe, ← append_assoc,
    ← append_assoc, ← append_assoc]
  exact List.Perm.append_right _ (List.Perm.append_right _ perm_append_comm)

theorem stableHeldOf_setExtent_same {arena : StableWeightArena} (keep : String → Bool) (page : Nat)
    (h : p.stableWeights.get? model = some arena) :
    ((p.setExtent model page (arena.physicalExtentIds.getD page none)).stableHeldOf keep).Perm (p.stableHeldOf keep) := by
  have hset : arena.physicalExtentIds.set page (arena.physicalExtentIds.getD page none) = arena.physicalExtentIds := by
    refine ext_getElem? ?_
    intro i
    rw [getElem?_set, getD_eq_getElem?_getD]
    split
    · rename_i hi
      subst hi
      split
      · rename_i hlt
        rw [getElem?_eq_getElem hlt]
        rfl
      · rename_i hlt
        rw [getElem?_eq_none (Nat.le_of_not_lt hlt)]
    · rfl
  unfold setExtent stableHeldOf
  rw [modify_of_get? h, hset]
  exact (((entries_set_perm h arena).trans (entries_perm_erase h).symm).filter _).flatMap_right _

theorem stableHeldOf_setExtent_none {keep : String → Bool} (h : p.extentOf model page = some id) (hkeep : keep model = true) :
    (p.stableHeldOf keep).Perm ((p.pageAddr model page, id) :: (p.setExtent model page none).stableHeldOf keep) := by
  obtain ⟨arena, har, hid⟩ := extentOf_eq_some_iff.1 h
  obtain ⟨rest, hrs⟩ := stableHeldOf_setExtent keep har (List.getElem?_eq_some_iff.1 hid).1 hkeep
  have hsa := stableHeldOf_setExtent_same keep page har
  rw [getD_eq_getElem?_getD, hid, Option.getD_some] at hsa
  exact hsa.symm.trans ((hrs (some id)).trans ((hrs none).symm.cons _))

theorem stableHeld_setExtent_none (h : p.extentOf model page = some id) :
    p.stableHeld.Perm ((p.pageAddr model page, id) :: (p.setExtent model page none).stableHeld) := by
  rw [← stableHeldOf_true, ← stableHeldOf_true]
  exact stableHeldOf_setExtent_none h rfl

theorem stableHeld_setExtent_some (h : p.extentOf model page = none) (hpg : page < p.arenaPages model) (id : Nat) :
    (p.setExtent model page (some id)).stableHeld.Perm ((p.pageAddr model page, id) :: p.stableHeld) := by
  rw [← stableHeldOf_true, ← stableHeldOf_true]
  cases har : p.stableWeights.get? model with
  | none =>
    unfold arenaPages at hpg
    rw [har] at hpg
    cases hpg
  | some arena =>
    rw [arenaPages_eq har] at hpg
    have hno : arena.physicalExtentIds.getD page none = none := by
      unfold extentOf at h
      rwa [har] at h
    obtain ⟨rest, hrs⟩ := stableHeldOf_setExtent (fun _ => true) har hpg rfl
    have hsa := stableHeldOf_setExtent_same (fun _ => true) page har
    rw [hno] at hsa
    exact (hrs (some id)).trans (((hrs none).symm.trans hsa).cons _)

/-! ## What stays -/

@[simp] theorem shapes_setExtent (p : Pool) (model : String) (page : Nat) (x : Option Nat) :
    (p.setExtent model page x).shapes = p.shapes :=
  map_entries_modify _ _ _ _ fun _ => by simp

@[simp] theorem shapes_touchPage (p : Pool) (model : String) (page : Nat) : (p.touchPage model page).shapes = p.shapes :=
  map_entries_modify _ _ _ _ fun _ => rfl

theorem arenas_eq_shapes (p : Pool) : p.arenas = p.shapes.map fun e => (e.1, e.2.1) := by
  unfold arenas shapes
  rw [map_map]
  rfl

theorem arenas_congr (h : p'.shapes = p.shapes) : p'.arenas = p.arenas := by
  rw [arenas_eq_shapes, arenas_eq_shapes, h]

theorem get?_of_shapes (h : p'.shapes = p.shapes) {arena : StableWeightArena} (ha : p.stableWeights.get? model = some arena) :
    ∃ arena', p'.stableWeights.get? model = some arena' ∧ arena'.va = arena.va ∧ arena'.logicalBytes = arena.logicalBytes ∧
      arena'.physicalExtentIds.length = arena.physicalExtentIds.length := by
  have hmem : (model, arena.va, arena.logicalBytes, arena.physicalExtentIds.length) ∈ p'.shapes := by
    rw [h]
    exact mem_map.2 ⟨(model, arena), mem_entries_iff.2 ha, rfl⟩
  obtain ⟨⟨m, arena'⟩, he, heq⟩ := mem_map.1 hmem
  simp only [Prod.mk.injEq] at heq
  obtain ⟨rfl, hva, hbyt, hpgs⟩ := heq
  exact ⟨arena', mem_entries_iff.1 he, hva, hbyt, hpgs⟩

theorem arenaPages_congr (h : p'.shapes = p.shapes) (model : String) : p'.arenaPages model = p.arenaPages model := by
  cases ha : p.stableWeights.get? model with
  | some arena =>
    obtain ⟨arena', ha', -, -, hpgs⟩ := get?_of_shapes h ha
    rw [arenaPages_eq ha, arenaPages_eq ha', hpgs]
  | none =>
    cases ha' : p'.stableWeights.get? model with
    | some arena' =>
      obtain ⟨arena, har, -⟩ := get?_of_shapes h.symm ha'
      rw [ha] at har
      cases har
    | none =>
      unfold arenaPages
      rw [ha, ha']

theorem pageAddr_eq_lookup (p : Pool) (model : String) (page : Nat) : p.pageAddr model page =
    ⟨(p.arenas.lookup model).getD 0, page⟩ := by
  have hlu : ∀ l : List (String × StableWeightArena),
      (l.map fun e => (e.1, e.2.va)).lookup model = (l.lookup model).map StableWeightArena.va := by
    intro l
    induction l with
    | nil => rfl
    | cons e l ih =>
      rw [map_cons, lookup_cons, lookup_cons, ih]
      cases model == e.1 <;> rfl
  unfold pageAddr arenas get?
  rw [hlu]

theorem pageAddr_congr (h : p'.arenas = p.arenas) (model : String) (page : Nat) : p'.pageAddr model page =
    p.pageAddr model page := by
  rw [pageAddr_eq_lookup, pageAddr_eq_lookup, h]

theorem aliased_congr (h : p'.arenas = p.arenas) (hb : p'.bindingAliases = p.bindingAliases) : p'.aliased = p.aliased := by
  unfold aliased
  rw [hb]
  simp only [pageAddr_congr h]

theorem keys_eq_arenas (p : Pool) : p.stableWeights.keys = p.arenas.map fst := by
  unfold arenas Dict.keys
  rw [map_map]
  rfl

theorem keys_congr (h : p'.arenas = p.arenas) : p'.stableWeights.keys = p.stableWeights.keys := by
  rw [keys_eq_arenas, keys_eq_arenas, h]

theorem extentOf_setExtent (p : Pool) (model model' : String) (page page' : Nat) (x : Option Nat) :
    (p.setExtent model page x).extentOf model' page' =
      if model' = model ∧ page' = page ∧ page < p.arenaPages model then x else p.extentOf model' page' := by
  unfold extentOf setExtent
  simp only
  rw [get?_modify]
  by_cases hm : model' = model
  · subst hm
    rw [if_pos rfl]
    cases ha : p.stableWeights.get? model' with
    | none =>
      unfold arenaPages
      rw [ha, if_neg (by simp)]
      rfl
    | some arena =>
      rw [arenaPages_eq ha, Option.map_some, Option.bind_some, Option.bind_some, getD_eq_getElem?_getD, getElem?_set]
      by_cases hp : page = page'
      · subst hp
        by_cases hlt : page < arena.physicalExtentIds.length
        · simp [hlt]
        · simp [hlt]
      · rw [if_neg hp, if_neg (by rintro ⟨-, h, -⟩; exact hp h.symm), getD_eq_getElem?_getD]
  · rw [if_neg hm, if_neg (by rintro ⟨h, -⟩; exact hm h)]

theorem extentOf_touchPage (p : Pool) (model model' : String) (page page' : Nat) :
    (p.touchPage model page).extentOf model' page' = p.extentOf model' page' := by
  unfold extentOf touchPage
  simp only
  rw [get?_modify]
  split
  · rename_i hm
    subst hm
    cases p.stableWeights.get? model' <;> rfl
  · rfl

/-- The part of the ledger that mapping and unmapping pages leaves as it is. -/
structure SameLayout (p p' : Pool) : Prop where
  capacity : p'.pageCapacity = p.pageCapacity
  arenas : p'.arenas = p.arenas
  bindings : p'.bindingAliases = p.bindingAliases
  ranges : p'.ranges = p.ranges
  driverRanges : p.driver.ranges ≤ p'.driver.ranges
  kvVaBase : p'.kvVaBase = p.kvVaBase
  kvBlocks : p'.kvBlocks = p.kvBlocks

structure Like (p p' : Pool) : Prop extends SameLayout p p' where
  free : p'.freeExtentIds = p.freeExtentIds
  flags : p'.physicalExtents = p.physicalExtents
  used : p'.usedPages = p.usedPages
  held : p'.held = p.held
  mapped : p'.driver.mapped = p.driver.mapped

theorem SameLayout.aliased (h : SameLayout p p') : p'.aliased = p.aliased := aliased_congr h.arenas h.bindings

namespace Sound

theorem of_layout (h : Sound p inflight lost) (hl : SameLayout p p')
    (hacc : FreeList.Accounts p.pageCapacity p'.freeExtentIds p'.physicalExtents ((p'.held ++ inflight').map snd ++ lost'))
    (hused : p'.usedPages = (p'.held ++ inflight').length)
    (hmpd : p'.driver.mapped.entries.Perm (((p'.held ++ inflight').map fun e => (e.1, Handle.extent e.2)) ++ p.aliased)) :
    Sound p' inflight' lost' where
  accounts := by rwa [hl.capacity]
  used := hused
  mapped := by rwa [hl.aliased]
  ranges_nodup := by
    rw [hl.ranges]
    exact h.ranges_nodup
  ranges_le := by
    rw [hl.ranges]
    exact fun r hr => ⟨(h.ranges_le r hr).1, (h.ranges_le r hr).2.trans hl.driverRanges⟩
  kvRange := by
    rw [hl.kvBlocks, hl.kvVaBase]
    exact h.kvRange
  bound := by
    rw [hl.bindings, keys_congr hl.arenas]
    exact h.bound

theorem like (h : Sound p inflight lost) (hl : Like p p') : Sound p' inflight lost := by
  refine h.of_layout hl.toSameLayout ?_ ?_ ?_
  · rw [hl.free, hl.flags, hl.held]
    exact h.accounts
  · rw [hl.used, hl.held]
    exact h.used
  · rw [hl.mapped, hl.held]
    exact h.mapped

theorem retable (h : Sound p inflight lost) (hcap : p'.pageCapacity = p.pageCapacity) (hfe : p'.freeExtentIds = p.freeExtentIds)
    (hflags : p'.physicalExtents = p.physicalExtents) (hused : p'.usedPages = p.usedPages)
    (hmpd : p'.driver.mapped = p.driver.mapped) (hhe : (p.held ++ inflight).Perm (p'.held ++ inflight'))
    (hald : p'.aliased = p.aliased) (hnd : p'.ranges.Nodup) (hle : ∀ r ∈ p'.ranges, 0 < r ∧ r ≤ p'.driver.ranges)
    (hkv : ∀ e ∈ p'.kvBlocks.entries, e.2.va.range = p'.kvVaBase)
      (hbd : ∀ m ∈ p'.bindingAliases.keys, m ∈ p'.stableWeights.keys) :
    Sound p' inflight' lost where
  accounts := by
    rw [hcap, hfe, hflags]
    exact h.accounts.mono ((hhe.map _).append_right _)
  used := by rw [hused, h.used, hhe.length_eq]
  mapped := by
    rw [hmpd, hald]
    exact h.mapped.trans ((hhe.map _).append_right _)
  ranges_nodup := hnd
  ranges_le := hle
  kvRange := hkv
  bound := hbd

theorem acquire (h : Sound p inflight lost) (hacq : p.acquirePhysicalExtent = some (id, p')) :
    Sound p' inflight (id :: lost) := by
  unfold acquirePhysicalExtent at hacq
  split at hacq
  · cases hacq
  · rename_i id' rest hfe
    obtain ⟨rfl, rfl⟩ := Prod.mk.inj (Option.some.inj hacq)
    have hacc := h.accounts
    rw [hfe] at hacc
    exact h.of_layout ⟨rfl, rfl, rfl, rfl, Nat.le_refl _, rfl, rfl⟩ (hacc.take.mono perm_middle.symm) h.used h.mapped

theorem giveBack (h : Sound p inflight (id :: lost)) : Sound (p.returnExtent id) inflight lost :=
  h.of_layout ⟨rfl, rfl, rfl, rfl, Nat.le_refl _, rfl, rfl⟩ (h.accounts.mono perm_middle).give h.used h.mapped

theorem add {a : PageAddr} (h : Sound p inflight (id :: lost)) (hl : SameLayout p p') (hfe : p'.freeExtentIds = p.freeExtentIds)
    (hflags : p'.physicalExtents = p.physicalExtents) (hused : p'.usedPages = p.usedPages + 1)
    (hunm : p.driver.mapped.get? a = none) (hmpd : p'.driver.mapped = p.driver.mapped.set a (.extent id))
    (hhe : (p'.held ++ inflight').Perm ((a, id) :: (p.held ++ inflight))) : Sound p' inflight' lost := by
  refine h.of_layout hl ?_ ?_ ?_
  · rw [hfe, hflags]
    refine h.accounts.mono (perm_middle.trans ?_)
    exact ((hhe.map snd).append_right lost).symm
  · rw [hused, h.used, hhe.length_eq, length_cons]
  · rw [hmpd, entries_set_of_not_mem (get?_eq_none_iff.1 hunm)]
    refine perm_append_comm.trans (((h.mapped.cons _)).trans ?_)
    exact ((hhe.map fun e => (e.1, Handle.extent e.2)).append_right p.aliased).symm

theorem drop {a : PageAddr} (h : Sound p inflight lost) (hl : SameLayout p p') (hfe : p'.freeExtentIds = id :: p.freeExtentIds)
    (hflags : p'.physicalExtents = p.physicalExtents.set id false) (hused : p'.usedPages = p.usedPages - 1)
    (hmpd : p'.driver.mapped = p.driver.mapped.erase a)
    (hhe : (p.held ++ inflight).Perm ((a, id) :: (p'.held ++ inflight'))) : Sound p' inflight' lost := by
  refine h.of_layout hl ?_ ?_ ?_
  · rw [hfe, hflags]
    exact (h.accounts.mono ((hhe.map snd).append_right lost)).give
  · rw [hused, h.used, hhe.length_eq, length_cons, Nat.add_sub_cancel]
  · rw [hmpd]
    refine entries_erase_perm (v := Handle.extent id) (h.mapped.trans ?_)
    exact (hhe.map fun e => (e.1, Handle.extent e.2)).append_right p.aliased

end Sound

end Pool

namespace Pool

variable {p : Pool} {model model' : String} {arena arena' : StableWeightArena} {addr : PageAddr}
  {handle : Handle} {page id : Nat}
  {inflight : List (PageAddr × Nat)} {lost : List Nat}

theorem Sound.model_of_va (h : Sound p inflight lost) (ha : p.stableWeights.get? model = some arena)
    (ha' : p.stableWeights.get? model' = some arena') (hva : arena.va = arena'.va) : model = model' := by
  have hnd : (p.arenas.map snd).Nodup := h.ranges_nodup.of_cons.of_append_left
  have hinj := inj_on_of_nodup_map hnd
  have hmem : (model, arena.va) ∈ p.arenas := mem_map.2 ⟨(model, arena), mem_entries_iff.2 ha, rfl⟩
  have hmem' : (model', arena'.va) ∈ p.arenas := mem_map.2 ⟨(model', arena'), mem_entries_iff.2 ha', rfl⟩
  exact congrArg fst (hinj hmem hmem' hva)

theorem mem_stableHeld : (addr, id) ∈ p.stableHeld ↔
    ∃ model arena, p.stableWeights.get? model = some arena ∧ addr.range = arena.va ∧ p.extentOf model addr.page = some id := by
  unfold stableHeld StableWeightArena.held
  simp only [mem_flatMap, mem_filterMap, Option.map_eq_some_iff]
  constructor
  · rintro ⟨⟨model, arena⟩, he, ⟨x, page⟩, hx, id', rfl, hid⟩
    obtain ⟨rfl, rfl⟩ := Prod.mk.inj hid
    rw [mk_mem_zipIdx_iff_getElem?] at hx
    exact ⟨model, arena, mem_entries_iff.1 he, rfl, extentOf_eq_some_iff.2 ⟨arena, mem_entries_iff.1 he, hx⟩⟩
  · rintro ⟨model, arena, ha, hva, hid⟩
    obtain ⟨arena', ha', hx⟩ := extentOf_eq_some_iff.1 hid
    obtain rfl := Option.some.inj (ha.symm.trans ha')
    refine ⟨(model, arena), mem_entries_iff.2 ha, (some id, addr.page), mk_mem_zipIdx_iff_getElem?.2 hx, id, rfl, ?_⟩
    rw [← hva]

theorem Sound.range_of_allocationHeld (h : Sound p inflight lost) (he : (addr, id) ∈ p.allocationHeld)
    (ha : p.stableWeights.get? model = some arena) : addr.range ≠ arena.va := by
  have hnd := h.ranges_nodup
  unfold ranges at hnd
  rw [nodup_cons, mem_append, not_or, nodup_append] at hnd
  obtain ⟨⟨hba, -⟩, -, -, hap⟩ := hnd
  have hva : arena.va ∈ p.arenas.map snd :=
    mem_map.2 ⟨(model, arena.va), mem_map.2 ⟨(model, arena), mem_entries_iff.2 ha, rfl⟩, rfl⟩
  have hrng : ∀ a : Allocation, (addr, id) ∈ a.held → addr.range = a.va.range := by
    intro a hmem
    obtain ⟨m, -, heq⟩ := mem_map.1 hmem
    obtain ⟨rfl, -⟩ := Prod.mk.inj heq
    rfl
  unfold allocationHeld at he
  rw [mem_append, mem_append] at he
  rcases he with hw | hk | hl
  · obtain ⟨e, he, hmem⟩ := mem_flatMap.1 hw
    rw [hrng _ hmem]
    exact (hap _ hva _ (mem_append_left _ (mem_map.2 ⟨e, he, rfl⟩))).symm
  · obtain ⟨e, he, hmem⟩ := mem_flatMap.1 hk
    rw [hrng _ hmem, h.kvRange e he]
    exact fun heq => hba (heq ▸ hva)
  · obtain ⟨a, ha, hmem⟩ := mem_flatMap.1 hl
    rw [hrng _ hmem]
    exact (hap _ hva _ (mem_append_right _ (mem_map.2 ⟨a, ha, rfl⟩))).symm

theorem mem_aliased : (addr, handle) ∈ p.aliased ↔ ∃ model aliases, p.bindingAliases.get? model = some aliases ∧
    addr.page ∈ aliases.pages ∧ addr = p.pageAddr model addr.page ∧ handle = aliases.handle := by
  unfold aliased
  simp only [mem_flatMap, mem_map]
  constructor
  · rintro ⟨⟨model, aliases⟩, he, page, hpg, heq⟩
    obtain ⟨rfl, rfl⟩ := Prod.mk.inj heq
    exact ⟨model, aliases, mem_entries_iff.1 he, hpg, rfl, rfl⟩
  · rintro ⟨model, aliases, ha, hpg, haddr, rfl⟩
    exact ⟨(model, aliases), mem_entries_iff.2 ha, addr.page, hpg, by rw [← haddr]⟩

theorem Sound.mapped_arena (h : Sound p [] lost) (ha : p.stableWeights.get? model = some arena) :
    p.driver.mapped.get? ⟨arena.va, page⟩ = some handle ↔ (∃ id, p.extentOf model page = some id ∧ handle = .extent id) ∨
      ∃ aliases, p.bindingAliases.get? model = some aliases ∧ page ∈ aliases.pages ∧ handle = aliases.handle := by
  rw [← mem_entries_iff, h.mapped.mem_iff, append_nil, mem_append]
  constructor
  · rintro (hhe | halias)
    · obtain ⟨⟨addr, id⟩, he, heq⟩ := mem_map.1 hhe
      obtain ⟨rfl, rfl⟩ := Prod.mk.inj heq
      rcases mem_append.1 he with hs | halo
      · obtain ⟨model', arena', ha', hva, hid⟩ := mem_stableHeld.1 hs
        obtain rfl := h.model_of_va ha ha' hva
        exact .inl ⟨id, hid, rfl⟩
      · exact absurd rfl (h.range_of_allocationHeld halo ha)
    · obtain ⟨model', aliases, hali, hpg, haddr, rfl⟩ := mem_aliased.1 halias
      obtain ⟨arena', ha'⟩ := mem_keys_iff.1 (h.bound model' (mem_keys_iff.2 ⟨aliases, hali⟩))
      rw [pageAddr_eq ha', PageAddr.mk.injEq] at haddr
      obtain rfl := h.model_of_va ha ha' haddr.1
      exact .inr ⟨aliases, hali, hpg, rfl⟩
  · rintro (⟨id, hid, rfl⟩ | ⟨aliases, hali, hpg, rfl⟩)
    · exact .inl (mem_map.2 ⟨_, mem_append_left _ (mem_stableHeld.2 ⟨model, arena, ha, rfl, hid⟩), rfl⟩)
    · exact .inr (mem_aliased.2 ⟨model, aliases, hali, hpg, by rw [pageAddr_eq ha], rfl⟩)

theorem Sound.not_aliased (h : Sound p inflight lost) (ha : p.stableWeights.get? model = some arena)
    (hid : p.extentOf model page = some id)
    {aliases : StableBindingAliases} (hali : p.bindingAliases.get? model = some aliases) : page ∉ aliases.pages := by
  intro hpg
  have hnd := (h.mapped.map fst).nodup_iff.1 p.driver.mapped.nodup
  rw [map_append, nodup_append] at hnd
  have hhe : ((⟨arena.va, page⟩ : PageAddr), id) ∈ p.held ++ inflight :=
    mem_append_left _ (mem_append_left _ (mem_stableHeld.2 ⟨model, arena, ha, rfl, hid⟩))
  have hald : ((⟨arena.va, page⟩ : PageAddr), aliases.handle) ∈ p.aliased :=
    mem_aliased.2 ⟨model, aliases, hali, hpg, by rw [pageAddr_eq ha], rfl⟩
  refine hnd.2.2 ⟨arena.va, page⟩ ?_ ⟨arena.va, page⟩ ?_ rfl
  · exact mem_map.2 ⟨_, mem_map.2 ⟨_, hhe, rfl⟩, rfl⟩
  · exact mem_map.2 ⟨_, hald, rfl⟩

theorem Sound.extent_inj (h : Sound p inflight lost) {page' : Nat} (hid : p.extentOf model page = some id)
    (hid' : p.extentOf model' page' = some id) : model = model' ∧ page = page' := by
  obtain ⟨arena, ha, -⟩ := extentOf_eq_some_iff.1 hid
  obtain ⟨arena', ha', -⟩ := extentOf_eq_some_iff.1 hid'
  have hnd : ((p.held ++ inflight).map snd).Nodup := h.accounts.nodup.of_append_right.of_append_left
  have hmem : ((⟨arena.va, page⟩ : PageAddr), id) ∈ p.held ++ inflight :=
    mem_append_left _ (mem_append_left _ (mem_stableHeld.2 ⟨model, arena, ha, rfl, hid⟩))
  have hmem' : ((⟨arena'.va, page'⟩ : PageAddr), id) ∈ p.held ++ inflight :=
    mem_append_left _ (mem_append_left _ (mem_stableHeld.2 ⟨model', arena', ha', rfl, hid'⟩))
  have heq := inj_on_of_nodup_map hnd hmem hmem' rfl
  rw [Prod.mk.injEq, PageAddr.mk.injEq] at heq
  exact ⟨h.model_of_va ha ha' heq.1.1, heq.1.2⟩

end Pool

end ServerlessLLM.Vmm

/-! ## Allocations -/

namespace ServerlessLLM.Vmm

open List

/-! ## The driver -/

namespace Driver

variable {S : Surroundings} {d : Driver} {c : Call} {a : PageAddr} {h : Handle}

theorem cuMemMap_cases (S : Surroundings) (d : Driver) (c : Call) (a : PageAddr) (h : Handle) :
    (d.cuMemMap S c a h = (false, d.called) ∧ (S.succeeds c d.calls = false ∨ d.mapped.get? a ≠ none)) ∨
      (d.mapped.get? a = none ∧ d.cuMemMap S c a h = (true, { d.called with mapped := d.mapped.set a h })) := by
  unfold cuMemMap
  split
  · rename_i hok
    exact .inr ⟨hok.2, rfl⟩
  · rename_i hfail
    refine .inl ⟨rfl, ?_⟩
    rw [not_and_or, Bool.not_eq_true] at hfail
    exact hfail

end Driver

namespace Pool

variable {S : Surroundings} {p p' p'' : Pool} {a a' : Allocation} {inflight : List (PageAddr × Nat)}
  {lost : List Nat} {id : Nat}

/-- Only the driver, the extents, the clock and the log are changed; the memory is not. -/
structure SameTables (p p' : Pool) : Prop where
  granularity : p'.granularity = p.granularity
  capacity : p'.pageCapacity = p.pageCapacity
  weights : p'.weights = p.weights
  stableWeights : p'.stableWeights = p.stableWeights
  bindings : p'.bindingAliases = p.bindingAliases
  kvVaBase : p'.kvVaBase = p.kvVaBase
  kvVaSlots : p'.kvVaSlots = p.kvVaSlots
  kvBlocks : p'.kvBlocks = p.kvBlocks
  legacyKv : p'.legacyKv = p.legacyKv
  driverRanges : p.driver.ranges ≤ p'.driver.ranges
  memory : p'.driver.memory = p.driver.memory

namespace SameTables

theorem refl (p : Pool) : SameTables p p := ⟨rfl, rfl, rfl, rfl, rfl, rfl, rfl, rfl, rfl, Nat.le_refl _, rfl⟩

theorem trans (h : SameTables p p') (h' : SameTables p' p'') : SameTables p p'' where
  granularity := h'.granularity.trans h.granularity
  capacity := h'.capacity.trans h.capacity
  weights := h'.weights.trans h.weights
  stableWeights := h'.stableWeights.trans h.stableWeights
  bindings := h'.bindings.trans h.bindings
  kvVaBase := h'.kvVaBase.trans h.kvVaBase
  kvVaSlots := h'.kvVaSlots.trans h.kvVaSlots
  kvBlocks := h'.kvBlocks.trans h.kvBlocks
  legacyKv := h'.legacyKv.trans h.legacyKv
  driverRanges := h.driverRanges.trans h'.driverRanges
  memory := h'.memory.trans h.memory

theorem held (h : SameTables p p') : p'.held = p.held := by
  unfold Pool.held stableHeld allocationHeld
  rw [h.weights, h.stableWeights, h.kvBlocks, h.legacyKv]

theorem arenas (h : SameTables p p') : p'.arenas = p.arenas := by
  unfold Pool.arenas
  rw [h.stableWeights]

theorem layout (h : SameTables p p') : SameLayout p p' where
  capacity := h.capacity
  arenas := h.arenas
  bindings := h.bindings
  ranges := by
    unfold ranges
    rw [h.arenas, h.weights, h.legacyKv, h.kvVaBase]
  driverRanges := h.driverRanges
  kvVaBase := h.kvVaBase
  kvBlocks := h.kvBlocks

end SameTables

theorem sameTables_withDriver (p : Pool) {d : Driver} (hr : p.driver.ranges ≤ d.ranges) (hm : d.memory = p.driver.memory) :
    SameTables p (p.withDriver d) := ⟨rfl, rfl, rfl, rfl, rfl, rfl, rfl, rfl, rfl, hr, hm⟩

theorem sameTables_logged (p : Pool) (f : Fault) : SameTables p (p.logged f) :=
  ⟨rfl, rfl, rfl, rfl, rfl, rfl, rfl, rfl, rfl, Nat.le_refl _, rfl⟩

theorem like_withDriver (p : Pool) {d : Driver} (hr : p.driver.ranges ≤ d.ranges) (hm : d.mapped = p.driver.mapped) :
    Like p (p.withDriver d) := ⟨⟨rfl, rfl, rfl, rfl, hr, rfl, rfl⟩, rfl, rfl, rfl, rfl, hm⟩

theorem like_called (p : Pool) : Like p (p.withDriver p.driver.called) := like_withDriver p (Nat.le_refl _) rfl

theorem like_logged (p : Pool) (f : Fault) : Like p (p.logged f) :=
    ⟨⟨rfl, rfl, rfl, rfl, Nat.le_refl _, rfl, rfl⟩, rfl, rfl, rfl, rfl, rfl⟩

/-! ## `Release` -/

theorem sameTables_release (p : Pool) (a : Allocation) : SameTables p (p.release a) := by
  unfold release
  split
  · exact SameTables.refl p
  · generalize a.mappings = l
    induction l generalizing p with
    | nil => exact SameTables.refl p
    | cons m l ih =>
      refine SameTables.trans ?_ (ih _)
      exact ⟨rfl, rfl, rfl, rfl, rfl, rfl, rfl, rfl, rfl, Nat.le_refl _, rfl⟩

theorem log_release (p : Pool) (a : Allocation) : (p.release a).log = p.log := by
  unfold release
  split
  · rfl
  · generalize a.mappings = l
    induction l generalizing p with
    | nil => rfl
    | cons m l ih => exact ih (releaseMapping a.va p m)

theorem release_update (f : Pool → Pool) (hf : ∀ va q m, releaseMapping va (f q) m = f (releaseMapping va q m)) (p : Pool)
    (a : Allocation) : (f p).release a = f (p.release a) := by
  unfold release
  split
  · rfl
  · generalize a.mappings = l
    induction l generalizing p with
    | nil => rfl
    | cons m l ih =>
      rw [foldl_cons, foldl_cons, hf]
      exact ih _

theorem Sound.release (h : Sound p (a.held ++ inflight) lost) (ha : a.va.range ≠ 0) : Sound (p.release a) inflight lost := by
  unfold Pool.release
  rw [if_neg ha]
  unfold Allocation.held at h
  generalize a.mappings = l at h ⊢
  induction l generalizing p with
  | nil => exact h
  | cons m l ih =>
    refine @ih (releaseMapping a.va p m) (h.drop ?_ rfl rfl rfl rfl ?_)
    · exact ⟨rfl, rfl, rfl, rfl, Nat.le_refl _, rfl, rfl⟩
    · exact perm_middle

/-! ## `MapAtReservedAddress` -/

theorem mapExtents_spec (S : Surroundings) (n offset : Nat) (h : Sound p (a.held ++ inflight) lost) :
    ∃ fault a' p', mapExtents S n offset a p = (fault, a', p') ∧ SameTables p p' ∧ p'.log = p.log ∧
      a'.va = a.va ∧ a'.logicalBytes = a.logicalBytes ∧ a'.mappedBytes = a.mappedBytes ∧
      (fault = none → a'.mappings.map Mapping.virtualOffset = a.mappings.map Mapping.virtualOffset ++ range' offset n) ∧
      (∃ lost', Sound p' (a'.held ++ inflight) lost' ∧ (fault ≠ some (.cuda .mapExtent) → lost' = lost)) ∧
      (n ≤ p.freeExtentIds.length → fault = none ∨ fault = some (.cuda .mapExtent)) ∧
      (S.MapsExtents → (∀ i, offset ≤ i → i < offset + n → p.driver.mapped.get? ⟨a.va.range, a.va.page + i⟩ = none) →
        fault ≠ some (.cuda .mapExtent)) := by
  induction n generalizing offset a p lost with
  | zero =>
    refine ⟨none, a, p, rfl, SameTables.refl p, rfl, rfl, rfl, rfl, fun _ => ?_, ⟨lost, h, fun _ => rfl⟩, fun _ => .inl rfl,
      fun _ _ => by simp⟩
    rw [range'_zero, append_nil]
  | succ n ih =>
    unfold mapExtents
    cases hacq : p.acquirePhysicalExtent with
    | none =>
      refine ⟨_, a, p, rfl, SameTables.refl p, rfl, rfl, rfl, rfl, by simp, ⟨lost, h, fun _ => rfl⟩, fun hlen => ?_,
        fun _ _ => by simp⟩
      unfold acquirePhysicalExtent at hacq
      split at hacq
      · rename_i hnil
        rw [hnil] at hlen
        cases hlen
      · cases hacq
    | some r =>
      obtain ⟨id, p₁⟩ := r
      have h₁ := h.acquire hacq
      have hfld : SameTables p p₁ ∧ p₁.log = p.log ∧ p₁.driver = p.driver ∧ p.freeExtentIds = id :: p₁.freeExtentIds := by
        unfold acquirePhysicalExtent at hacq
        split at hacq
        · cases hacq
        · rename_i id' rest hfe
          obtain ⟨rfl, rfl⟩ := Prod.mk.inj (Option.some.inj hacq)
          exact ⟨⟨rfl, rfl, rfl, rfl, rfl, rfl, rfl, rfl, rfl, Nat.le_refl _, rfl⟩, rfl, rfl, hfe⟩
      obtain ⟨htab, hlog, hdrv, hfe⟩ := hfld
      simp only
      rcases Driver.cuMemMap_cases S p₁.driver .mapExtent ⟨a.va.range, a.va.page + offset⟩ (.extent id) with
        ⟨hmap, hwhy⟩ | ⟨hno, hmap⟩
      · -- the extent stays in use and backs no page
        rw [hmap]
        refine ⟨_, a, _, rfl, htab.trans (sameTables_withDriver _ (Nat.le_refl _) rfl), hlog, rfl, rfl, rfl, by simp,
          ⟨id :: lost, h₁.like (like_withDriver _ (Nat.le_refl _) rfl), by simp⟩, fun _ => .inr rfl, fun hS hfr => ?_⟩
        rcases hwhy with hfail | hmpd
        · rw [hS] at hfail
          cases hfail
        · rw [hdrv] at hmpd
          exact absurd (hfr offset (Nat.le_refl _) (by omega)) hmpd
      · rw [hmap]
        have h₂ : Sound { p₁.withDriver { p₁.driver.called with
          mapped := p₁.driver.mapped.set ⟨a.va.range, a.va.page + offset⟩ (.extent id) }
            with usedPages := p₁.usedPages + 1 }
            (Allocation.held { a with mappings := a.mappings ++ [⟨id, offset⟩] } ++ inflight) lost := by
          refine h₁.add ⟨rfl, rfl, rfl, rfl, Nat.le_refl _, rfl, rfl⟩ rfl rfl rfl hno rfl ?_
          unfold Allocation.held
          rw [map_append, map_singleton, append_assoc, ← append_assoc, singleton_append, ← append_assoc]
          exact perm_middle
        obtain ⟨fault, a', p', heq, htab', hlog', hva, hlogical, hbyt, hofs, hlost, hpgs, hmaps⟩ := ih (offset + 1) h₂
        refine ⟨fault, a', p', heq, htab.trans (SameTables.trans ?_ htab'), hlog'.trans hlog, hva, hlogical, hbyt, ?_,
          hlost, fun hlen => hpgs ?_, fun hS hfr => hmaps hS ?_⟩
        · exact ⟨rfl, rfl, rfl, rfl, rfl, rfl, rfl, rfl, rfl, Nat.le_refl _, rfl⟩
        · intro hf
          rw [hofs hf, map_append, append_assoc, range'_succ]
          rfl
        · rw [hfe, length_cons] at hlen
          exact Nat.le_of_succ_le_succ hlen
        · intro i hi hlt
          have hne : (⟨a.va.range, a.va.page + i⟩ : PageAddr) ≠ ⟨a.va.range, a.va.page + offset⟩ := by
            intro heq'
            injection heq' with _ hpg
            omega
          have hold := hfr i (by omega) (by omega)
          rw [← hdrv] at hold
          exact (Dict.get?_set_of_ne _ _ hne).trans hold

theorem mapAtReservedAddress_spec (S : Surroundings) (h : Sound p inflight lost) (ha : a.va.range ≠ 0)
    (hemp : a.mappings = []) :
    ∃ r p', p.mapAtReservedAddress S a = (r, p') ∧ SameTables p p' ∧
      (∃ lost', (∀ a' ∈ r, Sound p' (a'.held ++ inflight) lost') ∧ (r = none → Sound p' inflight lost') ∧
        (S.MapsExtents → (∀ i, i < a.mappedBytes / p.granularity → p.driver.mapped.get? ⟨a.va.range, a.va.page + i⟩ = none) →
          lost' = lost)) ∧
      (∀ a' ∈ r, a'.va = a.va ∧ a'.logicalBytes = a.logicalBytes ∧ a'.mappedBytes = a.mappedBytes ∧
        a'.mappings.map Mapping.virtualOffset = range (a.mappedBytes / p.granularity)) ∧
      (a.mappedBytes / p.granularity ≤ p.freeExtentIds.length → ∀ f ∈ p'.log, f ∈ p.log ∨ ∃ c, f = .cuda c) ∧
      (a.mappedBytes / p.granularity ≤ p.freeExtentIds.length → S.NoFailure →
        (∀ i, i < a.mappedBytes / p.granularity → p.driver.mapped.get? ⟨a.va.range, a.va.page + i⟩ = none) →
        r ≠ none ∧ p'.log = p.log) := by
  have h₀ : Sound p (a.held ++ inflight) lost := by
    unfold Allocation.held
    rw [hemp]
    exact h
  obtain ⟨fault, a', p', heq, htab, hlog, hva, hlogical, hbyt, hofs, ⟨lost', hsnd, hlost⟩, hpgs, hmaps⟩ :=
    mapExtents_spec S (a.mappedBytes / p.granularity) 0 h₀
  have hfr : (∀ i, i < a.mappedBytes / p.granularity → p.driver.mapped.get? ⟨a.va.range, a.va.page + i⟩ = none) →
      S.MapsExtents → fault ≠ some (.cuda .mapExtent) := fun hfe hS => hmaps hS fun i _ hi => hfe i (by omega)
  have hva' : a'.va.range ≠ 0 := by rwa [hva]
  unfold mapAtReservedAddress
  rw [heq]
  cases fault with
  | some fault =>
    refine ⟨none, _, rfl, htab.trans ((sameTables_logged _ _).trans (sameTables_release _ _)),
      ⟨lost', by simp, fun _ => ?_, ?_⟩,
      by simp, fun hlen f hf => ?_, fun hlen hS hfe => ?_⟩
    · exact (hsnd.like (like_logged _ _)).release hva'
    · exact fun hS hfe => hlost (hfr hfe hS)
    · rw [log_release] at hf
      change f ∈ p'.log ++ [fault] at hf
      rw [hlog, mem_append, mem_singleton] at hf
      rcases hf with hf | rfl
      · exact .inl hf
      · rcases hpgs hlen with hno | hso
        · cases hno
        · exact .inr ⟨_, Option.some.inj hso⟩
    · have hmapExtent := hfr hfe (hS .mapExtent)
      rcases hpgs hlen with hno | hso
      · cases hno
      · exact absurd hso hmapExtent
  | none =>
    have hlost' : lost' = lost := hlost (by simp)
    have hshp : a'.mappings.map Mapping.virtualOffset = range (a.mappedBytes / p.granularity) := by
      rw [hofs rfl, hemp, range_eq_range']
      rfl
    have hsa : SameTables p' (p'.withDriver (p'.driver.cuMemSetAccess S .accessExtents).2) :=
      sameTables_withDriver p' (Nat.le_refl _) rfl
    have hlike : Like p' (p'.withDriver (p'.driver.cuMemSetAccess S .accessExtents).2) := like_withDriver p' (Nat.le_refl _) rfl
    simp only
    by_cases hac : (p'.driver.cuMemSetAccess S .accessExtents).1 = true
    · rw [if_pos hac]
      refine ⟨some a', _, rfl, ?_, ⟨lost', ?_, by simp, fun _ _ => hlost'⟩, ?_, fun _ f hf => ?_, fun _ _ _ => ⟨by simp, hlog⟩⟩
      · exact htab.trans hsa
      · rintro b ⟨⟩
        exact hsnd.like hlike
      · rintro b ⟨⟩
        exact ⟨hva, hlogical, hbyt, hshp⟩
      · change f ∈ p'.log at hf
        rw [hlog] at hf
        exact .inl hf
    · rw [if_neg hac]
      refine ⟨none, _, rfl, ?_, ⟨lost', by simp, fun _ => ?_, fun _ _ => hlost'⟩, by simp, fun _ f hf => ?_, fun _ hS _ => ?_⟩
      · exact htab.trans (hsa.trans ((sameTables_logged _ _).trans (sameTables_release _ _)))
      · exact ((hsnd.like hlike).like (like_logged _ _)).release hva'
      · rw [log_release] at hf
        change f ∈ p'.log ++ [Fault.cuda .accessExtents] at hf
        rw [hlog, mem_append, mem_singleton] at hf
        rcases hf with hf | rfl
        · exact .inl hf
        · exact .inr ⟨_, rfl⟩
      · exact absurd (hS _ _) hac

end Pool

end ServerlessLLM.Vmm
