import ServerlessLLM.Library.Runs
import ServerlessLLM.Simulator.Lemmas.ModelOps
import ServerlessLLM.Simulator.Lemmas.PlaceOps

/-!
# The shape of what is resident

Under `lru` the resident groups of a model are to be its last ones, under the prefix policies its first ones. `Needs` says
which groups have to be there with a group.
-/

namespace ServerlessLLM.Simulator

open List Dict Key
open Option (some.inj)

namespace SegmentMemory

open Extent MockSegmentMemory

variable {models : Models} {args : Args} {candidate gone gone' : Key → Bool} {m m' m'' : SegmentMemory} {key : Key}

theorem Laid.freeBytes_add (h : m.Laid) : m.freeBytes + m.usedBytes = m.capacityBytes := by
  have hin : ∀ e ∈ allocated m.extents, e.offset + e.size ≤ m.capacityBytes := by
    intro e he
    exact (h.layout.adjoins.pairwise.2 e (mem_allocated.1 he).1).2
  have hro := room_add_allocated h.layout.adjoins hin
  simp only [Nat.zero_min, Nat.add_zero, Nat.min_self] at hro
  rw [freeBytes, h.limit]
  exact hro

theorem mem_held {l : List Extent} {n : Nat} : (key, n) ∈ held l ↔ ∃ e ∈ l, e.key = some key ∧ e.size = n := by
  rw [held, mem_filterMap]
  refine exists_congr fun e => and_congr_right ?_
  intro _
  cases e.key <;> simp

theorem resident_iff_held : m.Resident key ↔ ∃ n, (key, n) ∈ held m.extents := by
  rw [Resident, ← map_fst_held, mem_map]
  constructor
  · rintro ⟨⟨_, n⟩, hmem, rfl⟩
    exact ⟨n, hmem⟩
  · rintro ⟨n, hmem⟩
    exact ⟨(key, n), hmem, rfl⟩

/-- `m'` has the extents of `m`, but for those whose keys are gone. -/
structure Without (gone : Key → Bool) (m m' : SegmentMemory) : Prop where
  laid : m'.Laid
  frame : SameFrame m m'
  allocated_eq : allocated m'.extents = (allocated m.extents).filter fun e => !e.key.any gone
  multiples : ∀ d, Multiples d m.extents → Multiples d m'.extents

theorem Without.held_eq (h : Without gone m m') : held m'.extents = (held m.extents).filter fun x => !gone x.1 := by
  rw [← held_allocated m'.extents, h.allocated_eq, ← held_allocated m.extents]
  induction allocated m.extents with
  | nil => rfl
  | cons e l ih =>
    cases hk : e.key with
    | none =>
      rw [filter_cons_of_pos (by simp [hk]), held_cons_free hk, held_cons_free hk, ih]
    | some key =>
      rw [held_cons_key hk, filter_cons, filter_cons]
      cases hg : gone key with
      | true => simpa [hk, hg] using ih
      | false =>
        simp only [hk, hg, Option.any_some, Bool.not_false, if_true]
        rw [held_cons_key hk, ih]

theorem Without.resident_iff (h : Without gone m m') : m'.Resident key ↔ m.Resident key ∧ gone key = false := by
  rw [resident_iff_held, resident_iff_held, h.held_eq]
  simp [mem_filter, exists_and_right]

def goneBytes (gone : Key → Bool) (m : SegmentMemory) : Nat := bytesOf ((held m.extents).filter fun x => gone x.1)

theorem Without.usedBytes_add (h : Without gone m m') : m'.usedBytes + m.goneBytes gone = m.usedBytes := by
  rw [usedBytes, usedBytes, goneBytes, ← bytesOf_held, ← bytesOf_held, h.held_eq]
  induction held m.extents with
  | nil => rfl
  | cons x l ih =>
    rw [filter_cons, filter_cons]
    cases gone x.1 <;> simp [bytesOf] at ih ⊢ <;> omega

theorem Without.refl (h : m.Laid) (hgone : ∀ key, m.Resident key → gone key = false) : Without gone m m where
  laid := h
  frame := .refl m
  allocated_eq := by
    symm
    rw [filter_eq_self]
    intro e he
    cases hk : e.key with
    | none => rfl
    | some key => simp [hgone key (SegmentMemory.resident_iff.2 ⟨e, he, hk⟩)]
  multiples := fun _ hd => hd

theorem Without.trans (h : Without gone m m') (h' : Without gone' m' m'') : Without (fun k => gone k || gone' k) m m'' where
  laid := h'.laid
  frame := h.frame.trans h'.frame
  allocated_eq := by
    rw [h'.allocated_eq, h.allocated_eq, filter_filter]
    refine filter_congr ?_
    intro e _
    cases e.key with
    | none => rfl
    | some key => simp [Bool.and_comm]
  multiples := fun d hd => h'.multiples d (h.multiples d hd)

theorem Without.coalesce (h : Without gone m m') : Without gone m { m' with extents := coalesce m'.extents } where
  laid := ⟨h.laid.layout.coalesce, by
    intro key e
    have hmem : ∀ l : List Extent, e ∈ l ∧ e.key = some key ↔ e ∈ allocated l ∧ e.key = some key := by
      intro l
      rw [mem_allocated]
      constructor
      · rintro ⟨he, hk⟩
        exact ⟨⟨he, by simp [hk]⟩, hk⟩
      · rintro ⟨⟨he, -⟩, hk⟩
        exact ⟨he, hk⟩
    rw [hmem, allocated_coalesce, ← hmem]
    exact h.laid.indexed key e, h.laid.limit⟩
  frame := ⟨h.frame.capacity_eq, h.frame.accesses_eq⟩
  allocated_eq := by rw [allocated_coalesce, h.allocated_eq]
  multiples := fun d hd => size_coalesce (fun _ _ => Nat.dvd_add) (h.multiples d hd)

/-! ## Freeing -/

theorem goneBytes_one (h : m.Laid) {n : Nat} (hhe : (key, n) ∈ held m.extents) : m.goneBytes (fun k => k = key) = n := by
  have hnd : ((held m.extents).map Prod.fst).Nodup := by
    rw [map_fst_held]
    exact h.layout.keys
  obtain ⟨a, b, hab⟩ := append_of_mem hhe
  rw [hab, map_append, map_cons, nodup_append, nodup_cons] at hnd
  have hno : ∀ l : List (Key × Nat), key ∉ l.map Prod.fst → (l.filter fun x => decide (x.1 = key)) = [] := by
    intro l hl
    rw [filter_eq_nil_iff]
    intro x hx hxk
    exact hl (mem_map.2 ⟨x, hx, of_decide_eq_true hxk⟩)
  rw [goneBytes, hab, filter_append, filter_cons_of_pos (by simp), hno a, hno b hnd.2.1.1]
  · simp [bytesOf]
  · exact fun hmem => hnd.2.2 key hmem key mem_cons_self rfl

theorem Laid.free (h : m.Laid) (key : Key) (coalescing : Bool) :
    Without (fun k => k = key) m (m.free key coalescing).2 ∧ (m.free key coalescing).1 = m.goneBytes fun k => k = key := by
  by_cases hr : m.Resident key
  · obtain ⟨e, he, hk⟩ := Extent.mem_keys.1 hr
    obtain ⟨l, hfe, hlay, halloc, hmap⟩ := free_resident h.indexed h.layout he hk coalescing
    have hmul : ∀ d, Multiples d m.extents → Multiples d l := by
      intro d hd x hx
      have hmem : (x.id, x.offset, x.size) ∈ l.map fun x => (x.id, x.offset, x.size) := mem_map_of_mem hx
      rw [hmap] at hmem
      obtain ⟨y, hy, heq⟩ := mem_map.1 hmem
      rw [← (Prod.mk.inj (Prod.mk.inj heq).2).2]
      exact hd y hy
    have hflr : ((allocated m.extents).filter fun x => x.key ≠ some key) =
        (allocated m.extents).filter fun e => !e.key.any fun k => k = key := by
      refine filter_congr ?_
      intro x _
      cases x.key <;> simp
    have hwo : Without (fun k => k = key) m { m with allocatedExtents := m.allocatedExtents.erase key, extents := l } :=
      ⟨⟨hlay, indexed_erase h.indexed halloc, h.limit⟩, ⟨rfl, rfl⟩, halloc.trans hflr, hmul⟩
    rw [hfe]
    refine ⟨?_, (goneBytes_one h (mem_held.2 ⟨e, he, hk, rfl⟩)).symm⟩
    cases coalescing with
    | true => exact hwo.coalesce
    | false => exact hwo
  · have hget : m.allocatedExtents.get? key = none := by
      rw [← Option.not_isSome_iff_eq_none, get?_isSome_iff h.indexed]
      exact hr
    have hfind : (m.extents.find? fun e => e.key = some key) = none := by
      rw [find?_eq_none]
      intro e he hk
      exact hr (Extent.mem_keys.2 ⟨e, he, of_decide_eq_true hk⟩)
    have hfe : m.free key coalescing = (0, { m with allocatedExtents := m.allocatedExtents.erase key }) := by
      unfold SegmentMemory.free
      rw [indexedExtent_eq h.indexed, hget, hfind]
      rfl
    have hgone : ∀ k, m.Resident k → decide (k = key) = false := by
      intro k hk
      refine decide_eq_false ?_
      rintro rfl
      exact hr hk
    have hself := Without.refl h hgone
    rw [hfe]
    refine ⟨⟨⟨h.layout, ?_, h.limit⟩, ⟨rfl, rfl⟩, hself.allocated_eq, hself.multiples⟩, ?_⟩
    · intro k e
      rw [← h.indexed k e, get?_erase]
      split
      · rename_i hkey
        subst hkey
        rw [hget]
      · rfl
    · have hused := hself.usedBytes_add
      dsimp only
      omega

end SegmentMemory

namespace MockSegmentMemory

open Extent SegmentMemory

variable {pool pool' : SegmentMemory}

theorem freeAll_spec (h : pool.Laid) (keys : List (Nat × Nat)) :
    Without (fun k => decide (k ∈ keys.map fun x => weight x.1 x.2)) pool (freeAll pool keys).2.2 ∧
      (freeAll pool keys).1 = pool.goneBytes fun k => decide (k ∈ keys.map fun x => weight x.1 x.2) := by
  induction keys generalizing pool with
  | nil =>
    refine ⟨Without.refl h fun _ _ => by simp, ?_⟩
    simp [freeAll, goneBytes, bytesOf]
  | cons x keys ih =>
    obtain ⟨model, g⟩ := x
    obtain ⟨hfe, hamt⟩ := h.free (.weight model g) false
    obtain ⟨hrs, hrel⟩ := ih hfe.laid
    have htrans := hfe.trans hrs
    have hgone : (fun k => decide (k = weight model g) || decide (k ∈ keys.map fun x => weight x.1 x.2)) =
        fun k => decide (k ∈ ((model, g) :: keys).map fun x => weight x.1 x.2) := by
      funext k
      show (decide _ || decide _) = decide (_ ∈ _ :: _)
      rw [← Bool.decide_or]
      exact decide_eq_decide.2 mem_cons.symm
    rw [hgone] at htrans
    refine ⟨htrans, ?_⟩
    have h1 := hfe.usedBytes_add
    have h2 := hrs.usedBytes_add
    have h3 := htrans.usedBytes_add
    show (pool.free (.weight model g) false).1 + (freeAll (pool.free (.weight model g) false).2 keys).1 = _
    change (freeAll (pool.free (.weight model g) false).2 keys).2.2.usedBytes + _ = _ at h3
    omega

theorem Without.coalesceIf {gone : Key → Bool} (h : Without gone pool pool') (released : Nat) :
    Without gone pool (coalesceIf released pool') := by
  unfold MockSegmentMemory.coalesceIf
  split
  · exact h
  · exact h.coalesce

end MockSegmentMemory

/-- What has to be resident with a key: for `lru` the groups behind it, else the groups before it. -/
def Needs (models : Models) (args : Args) : Key → Key → Prop
  | .weight model g, .weight model' g' =>
    model = model' ∧
      if args.replacementPolicy = .lru then g < g' ∧ ∃ t, models.byId.get? model = some t ∧ g' < t.groups.length else g' < g
  | _, _ => False

theorem needs_of_gt {models : Models} {args : Args} (hp : args.replacementPolicy ≠ .lru) {model g g' : Nat} (h : g' < g) :
    Needs models args (.weight model g) (.weight model g') := by
  refine ⟨rfl, ?_⟩
  rw [if_neg hp]
  exact h

theorem needs_of_lt {models : Models} {args : Args} (hp : args.replacementPolicy = .lru) {model g g' : Nat} {t : TensorModel}
    (ht : models.byId.get? model = some t) (h : g < g') (h' : g' < t.groups.length) :
    Needs models args (.weight model g) (.weight model g') := by
  refine ⟨rfl, ?_⟩
  rw [if_pos hp]
  exact ⟨h, t, ht, h'⟩

namespace Accesses

variable {models : Models} {args : Args} {a : Accesses} {rank objectBytes : Key → ℚ} {keys : List Key} {key : Key}

theorem lastAccessOf_victim (hp : args.replacementPolicy = .lru)
    (h : a.selectVictim models args rank objectBytes keys = some key)
    {k : Key} (hk : k ∈ keys) : a.lastAccessOf key ≤ a.lastAccessOf k := by
  unfold selectVictim at h
  split at h
  · rename_i pipeline frequency hpipe _
    rw [if_pos (by rw [hp]; decide)] at h
    obtain rfl := some.inj h
    have hle := not_lt_of_mem_argmin hk (Option.mem_def.2 hpipe)
    simp only [value, hp] at hle
    by_contra hlt
    exact hle (cons_lt_cons_iff.2 (.inl (not_le.1 hlt)))
  · cases h

end Accesses

namespace SegmentMemory

open Extent MockSegmentMemory

variable {models : Models} {args : Args} {active : Nat} {m m' m'' : SegmentMemory} {key : Key}

/-- The groups of the models that are `calm` were used in their order. -/
def InOrder (args : Args) (calm : Nat → Prop) (m : SegmentMemory) : Prop :=
  args.replacementPolicy = .lru → ∀ model g g', calm model → g < g' → m.Resident (.weight model g) →
    m.Resident (.weight model g') → m.accesses.lastAccessOf (.weight model g) < m.accesses.lastAccessOf (.weight model g')

/-- Groups of other models are gone, and with them what needs them. -/
def Reclaims (models : Models) (args : Args) (active : Nat) (m m' : SegmentMemory) : Prop :=
  ∃ gone, Without gone m m' ∧ (∀ key, gone key = true → evictable active key = true) ∧
    ∀ k k', Needs models args k k' → m.Resident k → gone k' = true → gone k = true

theorem Reclaims.refl (h : m.Laid) : Reclaims models args active m m :=
  ⟨fun _ => false, .refl h fun _ _ => rfl, fun _ hg => absurd hg Bool.false_ne_true, fun _ _ _ _ hg => hg⟩

section

variable (h : Reclaims models args active m m')

include h

theorem Reclaims.trans (h' : Reclaims models args active m' m'') : Reclaims models args active m m'' := by
  obtain ⟨gone, hw, hev, hcl⟩ := h
  obtain ⟨gone', hw', hev', hcl'⟩ := h'
  refine ⟨_, hw.trans hw', ?_, ?_⟩
  · intro key hg
    rcases Bool.or_eq_true_iff.1 hg with hg | hg
    · exact hev key hg
    · exact hev' key hg
  · intro k k' hneeds hr hg
    rcases Bool.or_eq_true_iff.1 hg with hg | hg
    · exact Bool.or_eq_true_iff.2 (.inl (hcl k k' hneeds hr hg))
    · cases hk : gone k with
      | true => exact Bool.or_eq_true_iff.2 (.inl rfl)
      | false => exact Bool.or_eq_true_iff.2 (.inr (hcl' k k' hneeds (hw.resident_iff.2 ⟨hr, hk⟩) hg))

theorem Reclaims.laid : m'.Laid := by
  obtain ⟨gone, hw, -⟩ := h
  exact hw.laid

theorem Reclaims.frame : SameFrame m m' := by
  obtain ⟨gone, hw, -⟩ := h
  exact hw.frame

theorem Reclaims.held_sublist : (held m'.extents).Sublist (held m.extents) := by
  obtain ⟨gone, hw, -⟩ := h
  rw [hw.held_eq]
  exact filter_sublist

theorem Reclaims.resident_of (hr : m'.Resident key) : m.Resident key := by
  obtain ⟨gone, hw, -⟩ := h
  exact (hw.resident_iff.1 hr).1

theorem Reclaims.resident (hkey : evictable active key = false) (hr : m.Resident key) : m'.Resident key := by
  obtain ⟨gone, hw, hev, -⟩ := h
  refine hw.resident_iff.2 ⟨hr, ?_⟩
  cases hg : gone key with
  | false => rfl
  | true => rw [hev key hg] at hkey; cases hkey

theorem Reclaims.shaped (hs : ∀ k k', Needs models args k k' → m.Resident k → m.Resident k') :
    ∀ k k', Needs models args k k' → m'.Resident k → m'.Resident k' := by
  obtain ⟨gone, hw, -, hcl⟩ := h
  intro k k' hneeds hr
  obtain ⟨hr, hk⟩ := hw.resident_iff.1 hr
  refine hw.resident_iff.2 ⟨hs k k' hneeds hr, ?_⟩
  cases hg : gone k' with
  | false => rfl
  | true => rw [hcl k k' hneeds hr hg] at hk; cases hk

theorem Reclaims.inOrder {calm : Nat → Prop} (ho : m.InOrder args calm) : m'.InOrder args calm := by
  intro hp model g g' hc hlt hr hr'
  rw [h.frame.accesses_eq]
  exact ho hp model g g' hc hlt (h.resident_of hr) (h.resident_of hr')

end

/-! ## Evictions of `lru` -/

theorem Laid.evictOne {candidate : Key → Bool} (h : m.Laid) {cost cost' : LoadCost}
    (he : m.evictOne models args candidate cost = some (cost', m')) :
    ∃ key, m.victim models args candidate = some key ∧ m.Resident key ∧ candidate key = true ∧
      Without (fun k => k = key) m m' := by
  unfold SegmentMemory.evictOne at he
  split at he
  · cases he
  · rename_i key hv
    have hmem := Accesses.mem_of_selectVictim hv
    rw [candidates, mem_filter] at hmem
    obtain rfl : (m.free key true).2 = m' := (Prod.mk.inj (some.inj he)).2
    exact ⟨key, hv, hmem.1, hmem.2, (h.free key true).1⟩

theorem reclaims_evictOne (h : m.Laid) (hp : args.replacementPolicy = .lru) (ho : m.InOrder args (· ≠ active))
    {cost cost' : LoadCost} (he : m.evictOne models args (evictable active) cost = some (cost', m')) :
    Reclaims models args active m m' := by
  obtain ⟨key, hv, hres, hcand, hw⟩ := h.evictOne he
  refine ⟨_, hw, ?_, ?_⟩
  · intro k hk
    rw [of_decide_eq_true hk]
    exact hcand
  · intro k k' hneeds hr hk'
    obtain rfl : k' = key := of_decide_eq_true hk'
    cases k with
    | kv _ => exact hneeds.elim
    | weight model g =>
      cases k' with
      | kv _ => exact hneeds.elim
      | weight model' g' =>
        obtain ⟨rfl, hneeds⟩ := hneeds
        rw [if_pos hp] at hneeds
        have hne : model ≠ active := by
          intro heq
          simp [evictable, Key.model, heq] at hcand
        have hmem : Key.weight model g ∈ m.candidates (evictable active) :=
          mem_filter.2 ⟨hr, by simpa [evictable, Key.isWeight, Key.model] using hne⟩
        have hle := Accesses.lastAccessOf_victim hp hv hmem
        exact absurd hle (not_le.2 (ho hp model g g' hne hneeds.1 hr hres))

theorem reclaims_evictUntil (wanted : SegmentMemory → Bool) {fuel : Nat} {cost cost' : LoadCost} (h : m.Laid)
    (hp : args.replacementPolicy = .lru) (ho : m.InOrder args (· ≠ active))
    (he : evictUntil models args (evictable active) wanted fuel cost m = some (cost', m')) :
    Reclaims models args active m m' ∧ wanted m' = true := by
  induction fuel generalizing m cost with
  | zero =>
    rw [evictUntil] at he
    split at he
    · rename_i hw
      obtain ⟨-, rfl⟩ := Prod.mk.inj (some.inj he)
      exact ⟨.refl h, hw⟩
    · cases he
  | succ fuel ih =>
    rw [evictUntil] at he
    split at he
    · rename_i hw
      obtain ⟨-, rfl⟩ := Prod.mk.inj (some.inj he)
      exact ⟨.refl h, hw⟩
    · split at he
      · cases he
      · rename_i cost₁ m₁ hone
        have hst := reclaims_evictOne h hp ho hone
        obtain ⟨hrs, hw⟩ := ih hst.laid (hst.inOrder ho) he
        exact ⟨hst.trans hrs, hw⟩

end SegmentMemory

/-! ## Reading the residency -/

theorem eq_range_of_closed {l : List Nat} (hs : l.Pairwise (· < ·)) (hc : ∀ g ∈ l, ∀ g' < g, g' ∈ l) : l = range l.length := by
  have hex : ∃ p, p ∉ l := by
    refine ⟨l.sum + 1, ?_⟩
    intro hmem
    have := le_sum_of_mem hmem
    omega
  have hmem : ∀ g, g ∈ l ↔ g ∈ range (Nat.find hex) := by
    intro g
    rw [mem_range]
    constructor
    · intro hg
      by_contra hge
      rcases Nat.eq_or_lt_of_le (not_lt.1 hge) with heq | hlt
      · exact Nat.find_spec hex (heq ▸ hg)
      · exact Nat.find_spec hex (hc g hg _ hlt)
    · intro hlt
      exact not_not.1 (Nat.find_min hex hlt)
  have hpm := (perm_ext_iff_of_nodup hs.nodup nodup_range).2 hmem
  have heq : l = range (Nat.find hex) := hpm.eq_of_pairwise (fun a b _ _ h h' => absurd h (Nat.lt_asymm h')) hs
    pairwise_lt_range
  have hlen := congrArg length heq
  rw [length_range] at hlen
  rw [hlen]
  exact heq

theorem eq_range'_of_closed {l : List Nat} {n : Nat} (hs : l.Pairwise (· < ·)) (hn : ∀ g ∈ l, g < n)
    (hc : ∀ g ∈ l, ∀ g', g < g' → g' < n → g' ∈ l) : l = range' (n - l.length) (n - (n - l.length)) := by
  have hex : ∃ s, s = n ∨ s ∈ l := ⟨n, .inl rfl⟩
  have hle : Nat.find hex ≤ n := Nat.find_min' hex (.inl rfl)
  have hmem : ∀ g, g ∈ l ↔ g ∈ range' (Nat.find hex) (n - Nat.find hex) := by
    intro g
    rw [mem_range'_1]
    constructor
    · intro hg
      have h1 : Nat.find hex ≤ g := Nat.find_min' hex (.inr hg)
      have h2 := hn g hg
      omega
    · rintro ⟨h1, h2⟩
      rcases Nat.find_spec hex with heq | hfind
      · omega
      · rcases Nat.eq_or_lt_of_le h1 with heq | hlt
        · exact heq ▸ hfind
        · exact hc _ hfind g hlt (by omega)
  have hpm := (perm_ext_iff_of_nodup hs.nodup nodup_range').2 hmem
  have heq : l = range' (Nat.find hex) (n - Nat.find hex) :=
    hpm.eq_of_pairwise (fun a b _ _ h h' => absurd h (Nat.lt_asymm h')) hs pairwise_lt_range'
  have hlen := congrArg length heq
  rw [length_range'] at hlen
  have hstart : n - l.length = Nat.find hex := by omega
  rw [hstart]
  exact heq

namespace MockSegmentMemory

open Extent SegmentMemory

variable {models : Models} {args : Args} {calm : Nat → Prop} {active : Nat} {m m' : MockSegmentMemory}

/-- What a pool keeps while it serves requests: its weights are groups of models, of the shape of the policy, in the order of
their accesses for the models that are `calm`, and the names of its KV blocks are old. -/
structure Kept (models : Models) (args : Args) (calm : Nat → Prop) (m : MockSegmentMemory) : Prop where
  laid : m.pool.Laid
  known : ∀ model g n, (weight model g, n) ∈ held m.pool.extents →
    ∃ t, models.byId.get? model = some t ∧ g < t.groups.length ∧ n = t.groupBytes g
  shaped : ∀ k k', Needs models args k k' → m.pool.Resident k → m.pool.Resident k'
  inOrder : m.pool.InOrder args calm
  kvNamed : ∀ id, m.pool.Resident (.kv id) → id < m.nextKvExtentId ∧ kv id ∈ m.kvKeys
  kvKeys : ∀ key ∈ m.kvKeys, key.isWeight = false

theorem Kept.reclaims (h : m.Kept models args calm) {pool : SegmentMemory} (hr : Reclaims models args active m.pool pool) :
    { m with pool := pool }.Kept models args calm where
  laid := hr.laid
  known := fun model g n hmem => h.known model g n (hr.held_sublist.subset hmem)
  shaped := hr.shaped h.shaped
  inOrder := hr.inOrder h.inOrder
  kvNamed := fun id hid => h.kvNamed id (hr.resident_of hid)
  kvKeys := h.kvKeys

theorem Kept.known_of_resident (h : m.Kept models args calm) {model g : Nat} (hr : m.pool.Resident (.weight model g)) :
    ∃ t, models.byId.get? model = some t ∧ g < t.groups.length := by
  obtain ⟨n, hn⟩ := resident_iff_held.1 hr
  obtain ⟨t, ht, hg, -⟩ := h.known model g n hn
  exact ⟨t, ht, hg⟩

theorem mem_residentGroupIds (h : m.pool.Laid) {model g : Nat} :
    g ∈ m.residentGroupIds model ↔ m.pool.Resident (.weight model g) := by
  rw [residentGroupIds, mem_insertionSort, ← get?_isSome_iff h.indexed, Option.isSome_iff_exists, ← mem_keys_iff, mem_map]
  constructor
  · rintro ⟨key, hkey, rfl⟩
    obtain ⟨hmem, hkey⟩ := mem_filter.1 hkey
    cases key with
    | kv id => simp [isWeight] at hkey
    | weight model' g =>
      obtain rfl : model' = model := by simpa [Key.isWeight, Key.model] using hkey
      exact hmem
  · intro hmem
    exact ⟨.weight model g, mem_filter.2 ⟨hmem, by simp [Key.isWeight, Key.model]⟩, rfl⟩

theorem pairwise_residentGroupIds (m : MockSegmentMemory) (model : Nat) : (m.residentGroupIds model).Pairwise (· < ·) := by
  have hsrt : (m.residentGroupIds model).Pairwise (· ≤ ·) := pairwise_insertionSort _ _
  have hnd : (m.residentGroupIds model).Nodup := by
    rw [residentGroupIds, (perm_insertionSort _ _).nodup_iff]
    refine List.Nodup.map_on ?_ (m.pool.allocatedExtents.nodup.filter _)
    intro x hx y hy hxy
    have hx := (mem_filter.1 hx).2
    have hy := (mem_filter.1 hy).2
    cases x <;> cases y <;> simp_all [Key.isWeight, Key.model, Key.index]
  exact (hsrt.and hnd).imp fun hab => lt_of_le_of_ne hab.1 hab.2

theorem Kept.residentPrefixCount (h : m.Kept models args calm) (hp : args.replacementPolicy ≠ .lru) (model : Nat) :
    m.residentPrefixCount model = .ok (m.residentGroupIds model).length ∧
      ∀ g, m.pool.Resident (.weight model g) ↔ g < (m.residentGroupIds model).length := by
  have hrng : m.residentGroupIds model = range (m.residentGroupIds model).length := by
    refine eq_range_of_closed (pairwise_residentGroupIds m model) ?_
    intro g hg g' hlt
    rw [mem_residentGroupIds h.laid] at hg ⊢
    exact h.shaped _ _ (needs_of_gt hp hlt) hg
  refine ⟨?_, ?_⟩
  · unfold MockSegmentMemory.residentPrefixCount
    exact if_pos hrng
  · intro g
    rw [← mem_residentGroupIds h.laid, ← mem_range, ← hrng]

theorem Kept.residentSuffixStart (h : m.Kept models args calm) (hp : args.replacementPolicy = .lru)
    {model : Nat} {t : TensorModel}
    (ht : models.byId.get? model = some t) :
    ∃ start ≤ t.groups.length, m.residentSuffixStart models model = .ok start ∧
      ∀ g, m.pool.Resident (.weight model g) ↔ start ≤ g ∧ g < t.groups.length := by
  have hlt : ∀ g ∈ m.residentGroupIds model, g < t.groups.length := by
    intro g hg
    obtain ⟨t', ht', hlt⟩ := h.known_of_resident ((mem_residentGroupIds h.laid).1 hg)
    rw [ht] at ht'
    rwa [some.inj ht']
  have hrng := eq_range'_of_closed (pairwise_residentGroupIds m model) hlt (by
    intro g hg g' hgg hn
    rw [mem_residentGroupIds h.laid] at hg ⊢
    exact h.shaped _ _ (needs_of_lt hp ht hgg hn) hg)
  refine ⟨t.groups.length - (m.residentGroupIds model).length, Nat.sub_le _ _, ?_, ?_⟩
  · unfold MockSegmentMemory.residentSuffixStart
    rw [ht]
    exact if_pos hrng
  · intro g
    rw [← mem_residentGroupIds h.laid]
    conv_lhs => rw [hrng, mem_range'_1]
    omega

end MockSegmentMemory

/-- The errors of a resident set that has not the shape of its policy. -/
def Fault.isInvariant : Fault → Bool
  | .prefixInvariant _ _ | .suffixInvariant _ _ => true
  | _ => false

theorem liftTable_outcome {α : Type} (x : Except TableError α) :
    Outcome (fun f => f.isInvariant = false) (fun a => x = .ok a) (liftTable x) := by
  cases x with
  | ok a => exact rfl
  | error e => cases e <;> exact rfl

namespace MockSegmentMemory

open Extent SegmentMemory

variable {models : Models} {args : Args} {calm : Nat → Prop} {table : Option PrefixStallTable} {active required : Nat}
  {m m' : MockSegmentMemory}

structure PrefixesOf (models : Models) (m : MockSegmentMemory) (prefixes : Dict Nat Nat) : Prop where
  known : ∀ model, model ∈ prefixes.keys ↔ model ∈ models.byId.keys
  count : ∀ model p, prefixes.get? model = some p → ∀ g, m.pool.Resident (.weight model g) ↔ g < p

theorem Kept.residentPrefixesOf (h : m.Kept models args calm) (hp : args.replacementPolicy ≠ .lru) (ids : List Nat) :
    m.residentPrefixesOf ids = .ok (ids.map fun id => (id, (m.residentGroupIds id).length)) := by
  induction ids with
  | nil => rfl
  | cons id ids ih =>
    rw [MockSegmentMemory.residentPrefixesOf, (h.residentPrefixCount hp id).1, ih]
    rfl

theorem Kept.residentPrefixes (h : m.Kept models args calm) (hp : args.replacementPolicy ≠ .lru) :
    ∃ prefixes, m.residentPrefixes models = .ok prefixes ∧ PrefixesOf models m prefixes := by
  have hnd : ((models.byId.keys.map fun id => (id, (m.residentGroupIds id).length)).map Prod.fst).Nodup := by
    rw [map_map]
    exact (map_id _).symm ▸ models.byId.nodup
  have hks : ∀ model, model ∈ ((models.byId.keys.map fun id => (id, (m.residentGroupIds id).length)).foldl
      (fun d e => d.set e.1 e.2) (.empty : Dict Nat Nat)).keys ↔ model ∈ models.byId.keys := by
    intro model
    rw [mem_keys_foldl_set, map_map]
    simp [Function.comp_def, Dict.keys]
  refine ⟨_, ?_, hks, ?_⟩
  · unfold MockSegmentMemory.residentPrefixes
    rw [h.residentPrefixesOf hp]
    rfl
  · intro model p hget
    have hmem : model ∈ models.byId.keys := (hks model).1 (mem_keys_iff.2 ⟨p, hget⟩)
    have hget' := get?_foldl_set hnd (mem_map_of_mem (f := fun id => (id, (m.residentGroupIds id).length)) hmem) .empty
    obtain rfl := some.inj (hget'.symm.trans hget)
    exact (h.residentPrefixCount hp model).2

/-! ## `lru-prefix` -/

theorem reclaims_free_last (models : Models) (h : m.pool.Laid) (hp : args.replacementPolicy ≠ .lru) {model p : Nat}
    (hne : model ≠ active) (hcnt : ∀ g, m.pool.Resident (.weight model g) ↔ g < p) :
    Reclaims models args active m.pool (m.pool.free (.weight model (p - 1)) false).2 := by
  refine ⟨_, (h.free _ false).1, ?_, ?_⟩
  · intro key hkey
    rw [of_decide_eq_true hkey]
    simpa [evictable, Key.isWeight, Key.model] using hne
  · intro k k' hneeds hr hk'
    obtain rfl := of_decide_eq_true hk'
    cases k with
    | kv _ => exact hneeds.elim
    | weight model' g =>
      obtain ⟨rfl, hneeds⟩ := hneeds
      rw [if_neg hp] at hneeds
      have := (hcnt g).1 hr
      omega

variable {prefixes : Dict Nat Nat}

theorem lruPrefixLoop_spec (models : Models) {fuel : Nat} {released victims : Nat} (h : m.pool.Laid)
    (hp : args.replacementPolicy ≠ .lru)
    (hpre : ∀ model p, prefixes.get? model = some p → ∀ g, m.pool.Resident (.weight model g) ↔ g < p) :
    Outcome (fun f => f.isInvariant = false)
      (fun r => ∃ pool, r.2.2 = { m with pool := pool } ∧ Reclaims models args active m.pool pool ∧ required ≤ r.1 ∧
        pool.usedBytes + r.1 = m.pool.usedBytes + released)
      (lruPrefixLoop active required fuel prefixes released victims m) := by
  induction fuel generalizing m prefixes released victims with
  | zero =>
    unfold lruPrefixLoop
    split
    · rename_i hle
      exact ⟨m.pool, rfl, .refl h, hle, rfl⟩
    · exact rfl
  | succ fuel ih =>
    unfold lruPrefixLoop
    split
    · rename_i hle
      exact ⟨m.pool, rfl, .refl h, hle, rfl⟩
    · cases hv : m.lruVictim active prefixes with
      | none => exact rfl
      | some v =>
        obtain ⟨model, p⟩ := v
        obtain ⟨hmem, hcond⟩ := mem_filter.1 (argmin_mem hv)
        simp only [ne_eq, decide_eq_true_eq] at hcond
        have hget : prefixes.get? model = some p := mem_entries_iff.1 hmem
        have hcnt := hpre model p hget
        have hrec := reclaims_free_last models h hp hcond.1 hcnt
        obtain ⟨hfe, hamt⟩ := h.free (.weight model (p - 1)) false
        have hused := hfe.usedBytes_add
        dsimp only
        split
        · exact rfl
        · refine Outcome.imp (ih hrec.laid ?_) ?_
          · intro model' p' hget' g
            rw [get?_set] at hget'
            rw [hfe.resident_iff]
            split at hget'
            · rename_i heq
              obtain rfl := heq
              obtain rfl := some.inj hget'
              rw [hcnt g]
              simp only [decide_eq_false_iff_not, weight.injEq, true_and]
              omega
            · rename_i hne
              rw [hpre model' p' hget' g]
              simp [hne]
          · rintro r ⟨pool, hr, hrec', hle, hbyt⟩
            refine ⟨pool, hr, hrec.trans hrec', hle, ?_⟩
            dsimp only at hbyt
            omega

/-- What a reclaim ends in: the groups of other models that it released have the required bytes. -/
def Reclaimed (models : Models) (args : Args) (active required : Nat) (m m' : MockSegmentMemory) : Prop :=
  ∃ pool, m' = { m with pool := pool } ∧ Reclaims models args active m.pool pool ∧ pool.usedBytes + required ≤ m.pool.usedBytes

theorem reclaims_coalesceIf {pool pool' : SegmentMemory} (h : Reclaims models args active pool pool') (released : Nat) :
    Reclaims models args active pool (coalesceIf released pool') := by
  obtain ⟨gone, hw, hrs⟩ := h
  exact ⟨gone, Without.coalesceIf hw released, hrs⟩

theorem usedBytes_coalesceIf (released : Nat) (pool : SegmentMemory) : (coalesceIf released pool).usedBytes =
    pool.usedBytes := by
  unfold coalesceIf
  split
  · rfl
  · rw [usedBytes, allocated_coalesce]
    rfl

theorem lruPrefixReclaim_spec (h : m.Kept models args calm) (hp : args.replacementPolicy ≠ .lru) :
    Outcome (fun f => f.isInvariant = false) (fun r => Reclaimed models args active required m r.2)
      (m.lruPrefixReclaim models active required) := by
  obtain ⟨prefixes, hpre, hof⟩ := h.residentPrefixes hp
  unfold lruPrefixReclaim
  rw [hpre]
  refine Outcome.bind (lruPrefixLoop_spec models h.laid hp hof.count) ?_
  rintro ⟨released, victims, m'⟩ ⟨pool, rfl, hrec, hle, hbyt⟩
  refine ⟨coalesceIf released pool, rfl, reclaims_coalesceIf hrec released, ?_⟩
  rw [usedBytes_coalesceIf]
  dsimp only at hle hbyt
  omega

/-! ## `mckp-prefix` -/

theorem mem_victimKeys {choices : Dict Nat Nat} {prefixes : List (Nat × Nat)} {model g : Nat} :
    (model, g) ∈ victimKeys active choices prefixes ↔
      model ≠ active ∧ (choices.get? model).getD 0 ≤ g ∧ ∃ old, (model, old) ∈ prefixes ∧ g < old := by
  rw [victimKeys, mem_flatMap]
  constructor
  · rintro ⟨⟨model', old⟩, hmem, hg⟩
    dsimp only at hg
    split at hg
    · cases hg
    · rename_i hne
      obtain ⟨g', hg', heq⟩ := mem_map.1 hg
      obtain ⟨rfl, rfl⟩ := Prod.mk.inj heq
      rw [mem_range'_1] at hg'
      exact ⟨hne, hg'.1, old, hmem, by omega⟩
  · rintro ⟨hne, hle, old, hmem, hlt⟩
    refine ⟨(model, old), hmem, ?_⟩
    dsimp only
    rw [if_neg hne]
    refine mem_map.2 ⟨g, mem_range'_1.2 ⟨hle, by omega⟩, rfl⟩

theorem solveCoveringMckp_spec {table : PrefixStallTable} {samples : Dict Nat (List (Nat × ℚ))}
    {prefixBytes : Nat → Nat → Except TableError Nat} {plan : MckpEvictionPlan} (hreq : required ≠ 0)
    (h : solveCoveringMckp table prefixes active required samples prefixBytes = .ok plan) (hf : plan.feasible = true) :
    required ≤ plan.plannedFreeBytes ∧
      plan.victimKeys = victimKeys active plan.choices (prefixes.entries.insertionSort fun a b => a.1 ≤ b.1) := by
  unfold solveCoveringMckp at h
  rw [if_neg hreq] at h
  dsimp only at h
  cases hloop : solveLoop table active required samples prefixBytes (prefixes.entries.insertionSort fun a b => a.1 ≤ b.1)
      ([⟨0, 0, 0, []⟩], 1, 0) with
  | error e =>
    rw [hloop] at h
    cases h
  | ok r =>
    obtain ⟨frontier, peak, considered⟩ := r
    rw [hloop] at h
    dsimp only [bind, Except.bind] at h
    split at h
    · obtain rfl := Except.ok.inj h
      cases hf
    · rename_i s hs
      obtain rfl := Except.ok.inj h
      exact ⟨of_decide_eq_true (mem_filter.1 (argmin_mem hs)).2, rfl⟩

theorem reclaims_victimKeys (active : Nat) (h : m.Kept models args calm) (hp : args.replacementPolicy ≠ .lru)
    (hof : PrefixesOf models m prefixes) {l : List (Nat × Nat)} (hl : l.Perm prefixes.entries) (choices : Dict Nat Nat) :
    Reclaims models args active m.pool (freeAll m.pool (victimKeys active choices l)).2.2 := by
  refine ⟨_, (freeAll_spec h.laid _).1, ?_, ?_⟩
  · intro key hkey
    obtain ⟨⟨model, g⟩, hmem, rfl⟩ := mem_map.1 (of_decide_eq_true hkey)
    simpa [evictable, Key.isWeight, Key.model] using (mem_victimKeys.1 hmem).1
  · intro k k' hneeds hr hk'
    obtain ⟨⟨model, g'⟩, hmem, rfl⟩ := mem_map.1 (of_decide_eq_true hk')
    obtain ⟨hne, hle, old, hold, hlt⟩ := mem_victimKeys.1 hmem
    cases k with
    | kv _ => exact hneeds.elim
    | weight model' g =>
      obtain ⟨rfl, hneeds⟩ := hneeds
      rw [if_neg hp] at hneeds
      have hg := (hof.count model' old (mem_entries_iff.1 (hl.subset hold)) g).1 hr
      refine decide_eq_true (mem_map.2 ⟨(model', g), mem_victimKeys.2 ⟨hne, ?_, old, hold, hg⟩, rfl⟩)
      dsimp only at hle hneeds
      omega

theorem mckpReclaim_spec (h : m.Kept models args calm) (hp : args.replacementPolicy ≠ .lru) :
    Outcome (fun f => f.isInvariant = false) (fun r => Reclaimed models args active required m r.2)
      (m.mckpReclaim models table active required) := by
  unfold mckpReclaim
  split
  · rename_i hreq
    refine ⟨m.pool, rfl, .refl h.laid, ?_⟩
    omega
  · rename_i hreq
    split
    · exact rfl
    · rename_i table
      obtain ⟨prefixes, hpre, hof⟩ := h.residentPrefixes hp
      rw [hpre]
      refine Outcome.bind (liftTable_outcome _) ?_
      intro plan hpl
      dsimp only
      split
      · exact rfl
      · rename_i hfeas
        obtain ⟨hle, hvs⟩ := solveCoveringMckp_spec hreq hpl (Bool.eq_true_of_not_eq_false hfeas)
        have hpm := perm_insertionSort (fun a b : Nat × Nat => a.1 ≤ b.1) prefixes.entries
        have hrec := reclaims_victimKeys active h hp hof hpm plan.choices
        rw [← hvs] at hrec
        replace hrec := reclaims_coalesceIf hrec (freeAll m.pool plan.victimKeys).1
        obtain ⟨hfe, hrel⟩ := freeAll_spec h.laid plan.victimKeys
        have hused := hfe.usedBytes_add
        split
        · exact rfl
        · rename_i hsa
          obtain ⟨after, haft, -⟩ := (h.reclaims hrec).residentPrefixes hp
          rw [haft]
          show Outcome _ _ (if _ then _ else _)
          split
          · refine ⟨_, rfl, hrec, ?_⟩
            rw [usedBytes_coalesceIf]
            have hreq' : required ≤ (freeAll m.pool plan.victimKeys).1 := not_not.1 hsa ▸ hle
            exact (show (freeAll m.pool plan.victimKeys).2.2.usedBytes + required ≤ m.pool.usedBytes by omega)
          · exact rfl

theorem prefixReclaim_spec (h : m.Kept models args calm) (hp : args.replacementPolicy ≠ .lru) :
    Outcome (fun f => f.isInvariant = false) (fun r => Reclaimed models args active required m r.2)
      (m.prefixReclaim models args table active required) := by
  unfold prefixReclaim
  split
  · exact mckpReclaim_spec h hp
  · exact lruPrefixReclaim_spec h hp
  · exact rfl

end MockSegmentMemory

end ServerlessLLM.Simulator
