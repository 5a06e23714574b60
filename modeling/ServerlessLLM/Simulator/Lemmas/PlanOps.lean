import ServerlessLLM.Simulator.Lemmas.ResidencyOps

/-!
# Planning a request

`plan_request` finds the missing groups, reclaims bytes for them, places them, and allocates the KV blocks.
-/

namespace ServerlessLLM.Simulator

open List Option Prod Outcome Key TensorModel Extent

/-- The policies that the profile has curves for. -/
def Args.Profiled (args : Args) : Prop :=
  args.replacementPolicy = .lru ∨ args.replacementPolicy = .lruPrefix ∨ args.replacementPolicy = .mckpPrefix

namespace MockSegmentMemory

open Extent SegmentMemory

variable {models : Models} {args : Args} {calm : Nat → Prop} {table : Option PrefixStallTable} {active required : Nat}
  {m m' m'' : MockSegmentMemory}

/-- From one state of a request to a later one: the pool is kept, and the weights of the active model stay. -/
structure Onward (models : Models) (args : Args) (active : Nat) (m m' : MockSegmentMemory) : Prop where
  kept : m'.Kept models args (· ≠ active)
  frame : SameFrame m.pool m'.pool
  stays : ∀ g, m.pool.Resident (.weight active g) → m'.pool.Resident (.weight active g)

theorem Onward.trans (h : Onward models args active m m') (h' : Onward models args active m' m'') :
    Onward models args active m m'' where
  kept := h'.kept
  frame := h.frame.trans h'.frame
  stays := fun g hg => h'.stays g (h.stays g hg)

theorem Onward.reclaims (h : m.Kept models args (· ≠ active)) {pool : SegmentMemory}
    (hr : Reclaims models args active m.pool pool) : Onward models args active m { m with pool := pool } where
  kept := h.reclaims hr
  frame := hr.frame
  stays := fun g hg => hr.resident (by simp [evictable, model]) hg

/-! ## Making room -/

theorem reclaimBlocks_spec {fuel : Nat} {cost : LoadCost} (h : m.Kept models args calm) (hp : args.replacementPolicy ≠ .lru) :
    Outcome (fun f => f.isInvariant = false)
      (fun r => ∃ pool, r.2 = { m with pool := pool } ∧ Reclaims models args active m.pool pool ∧
        required ≤ availableBlockBytes args pool.extents)
      (m.reclaimBlocks models args table active required fuel cost) := by
  induction fuel generalizing m cost with
  | zero =>
    unfold reclaimBlocks
    dsimp only
    split
    · rename_i hle
      exact ⟨m.pool, rfl, .refl h.laid, hle⟩
    · exact rfl
  | succ fuel ih =>
    unfold reclaimBlocks
    dsimp only
    split
    · rename_i hle
      exact ⟨m.pool, rfl, .refl h.laid, hle⟩
    · refine bind (prefixReclaim_spec h hp) ?_
      rintro ⟨c, _⟩ ⟨pool, rfl, hrec, -⟩
      dsimp only
      split
      · exact rfl
      · refine imp (ih (h.reclaims hrec)) ?_
        rintro r ⟨pool', hr, hrec', hle⟩
        exact ⟨pool', hr, hrec.trans hrec', hle⟩

theorem isPrefixPolicy_iff (hpol : args.Profiled) : isPrefixPolicy args = true ↔ args.replacementPolicy ≠ .lru := by
  unfold isPrefixPolicy
  rcases hpol with h | h | h <;> simp [h]

theorem eq_lru_of_not_prefix (hpol : args.Profiled) (h : ¬isPrefixPolicy args = true) : args.replacementPolicy = .lru := by
  by_contra hne
  exact h ((isPrefixPolicy_iff hpol).2 hne)

theorem makeBlocks_spec {cost : LoadCost} (h : m.Kept models args (· ≠ active)) (hpol : args.Profiled) :
    Outcome (fun f => f.isInvariant = false)
      (fun r => ∃ pool, r.2 = { m with pool := pool } ∧ Reclaims models args active m.pool pool ∧
        required ≤ availableBlockBytes args pool.extents)
      (m.makeBlocks models args table active required cost) := by
  unfold makeBlocks
  split
  · rename_i hpfx
    exact reclaimBlocks_spec h ((isPrefixPolicy_iff hpol).1 hpfx)
  · rename_i hpfx
    have hp := eq_lru_of_not_prefix hpol hpfx
    split
    · exact rfl
    · rename_i cost' pool he
      obtain ⟨hrec, hw⟩ := reclaims_evictUntil _ h.laid hp h.inOrder he
      exact ⟨pool, rfl, hrec, of_decide_eq_true hw⟩

/-! ## Taking blocks -/

/-- The pool after blocks were taken from the extents `l` behind `before`. -/
def withBlocks (args : Args) (pool : SegmentMemory) (before l : List Extent) (remaining nextKv : Nat) : SegmentMemory :=
  let taken := takeBlocks args remaining nextKv pool.nextId l
  { pool with
    extents := before ++ taken.2.1
    nextId := pool.nextId + 2 * taken.2.2.length
    allocatedExtents := taken.2.2.foldl (fun d e => e.key.elim d fun key => d.set key e) pool.allocatedExtents }

/-- The blocks have new names, and stand where there was a free extent. -/
structure Blocked (pool pool' : SegmentMemory) (nextKv : Nat) (taken : List Extent) : Prop where
  laid : pool'.Laid
  named : taken.filterMap key = (range' nextKv taken.length).map kv
  held_perm : (held pool'.extents).Perm (held taken ++ held pool.extents)
  apart : pool.extents.IsChain Apart → pool'.extents.IsChain Apart

variable {cost : LoadCost} {pool pool' : SegmentMemory}

theorem Blocked.none (h : pool.Laid) (heq : pool' = pool) (nextKv : Nat) : Blocked pool pool' nextKv [] := by
  subst heq
  exact ⟨h, rfl, .refl _, fun hc => hc⟩

theorem blocked_withBlocks (args : Args) (before l : List Extent) (remaining nextKv : Nat) (h : pool.Laid)
    (hspl : pool.extents = before ++ l) (hkv : ∀ id, pool.Resident (.kv id) → id < nextKv) :
    Blocked pool (withBlocks args pool before l remaining nextKv) nextKv
      (takeBlocks args remaining nextKv pool.nextId l).2.2 := by
  induction l generalizing pool before remaining nextKv with
  | nil =>
    refine Blocked.none h ?_ nextKv
    cases pool
    simp_all [withBlocks, takeBlocks]
  | cons e l ih =>
    by_cases hzero : remaining = 0
    · have htake : takeBlocks args remaining nextKv pool.nextId (e :: l) = (0, e :: l, []) := by
        unfold takeBlocks
        exact if_pos hzero
      rw [withBlocks, htake]
      refine Blocked.none h ?_ nextKv
      cases pool
      simp_all
    · by_cases hskip : e.key.isSome ∨ min remaining (e.size / args.kvBlockBytes * args.kvBlockBytes) = 0
      · -- This extent stays as it is.
        have htake : takeBlocks args remaining nextKv pool.nextId (e :: l) =
            ((takeBlocks args remaining nextKv pool.nextId l).1, e :: (takeBlocks args remaining nextKv pool.nextId l).2.1,
              (takeBlocks args remaining nextKv pool.nextId l).2.2) := by
          conv_lhs => unfold takeBlocks
          dsimp only
          rw [if_neg hzero, if_pos hskip]
        have hih := ih (before ++ [e]) remaining nextKv h (by simp [hspl]) hkv
        rw [withBlocks, htake]
        rw [withBlocks, append_assoc, singleton_append] at hih
        exact hih
      · -- The front of this extent gets blocks.
        rw [not_or] at hskip
        have hfe : e.key = none := by simpa using hskip.1
        obtain ⟨n, hn⟩ : ∃ n, n = min remaining (e.size / args.kvBlockBytes * args.kvBlockBytes) := ⟨_, rfl⟩
        have hle : n ≤ e.size := by
          have := Nat.div_mul_le_self e.size args.kvBlockBytes
          omega
        have hnew : ¬pool.Resident (.kv nextKv) := fun hr => absurd (hkv nextKv hr) (Nat.lt_irrefl _)
        have hlaid := laid_carve h hspl hfe hle hnew
        have htake : takeBlocks args remaining nextKv pool.nextId (e :: l) =
            ((takeBlocks args (remaining - n) (nextKv + 1) (pool.nextId + 2) l).1,
              e.carve pool.nextId (.kv nextKv) n ++ (takeBlocks args (remaining - n) (nextKv + 1) (pool.nextId + 2) l).2.1,
              e.front pool.nextId (.kv nextKv) n ::
                (takeBlocks args (remaining - n) (nextKv + 1) (pool.nextId + 2) l).2.2) := by
          conv_lhs => unfold takeBlocks
          dsimp only
          rw [if_neg hzero, if_neg (not_or.2 hskip), ← hn]
        have hpm : (held (before ++ (e.carve pool.nextId (.kv nextKv) n ++ l))).Perm
            ((kv nextKv, n) :: held pool.extents) := by
          rw [hspl, held_append, held_append, held_carve, held_append, held_cons_free hfe]
          exact perm_middle
        obtain ⟨hlaid', hnamed, hhe, hap⟩ := ih (before ++ e.carve pool.nextId (.kv nextKv) n) (remaining - n)
          (nextKv + 1) hlaid (by simp) (by
            intro id hid
            rw [resident_iff_held] at hid
            obtain ⟨k, hk⟩ := hid
            rcases mem_cons.1 (hpm.subset hk) with heq | hmem
            · obtain ⟨hid, -⟩ := Prod.mk.inj heq
              rw [kv.inj hid]
              exact Nat.lt_succ_self _
            · exact Nat.lt_succ_of_lt (hkv id (resident_iff_held.2 ⟨k, hmem⟩)))
        have heq : withBlocks args pool before (e :: l) remaining nextKv = withBlocks args
            { pool with
              extents := before ++ (e.carve pool.nextId (.kv nextKv) n ++ l)
              nextId := pool.nextId + 2
              allocatedExtents := pool.allocatedExtents.set (.kv nextKv) (e.front pool.nextId (.kv nextKv) n) }
            (before ++ e.carve pool.nextId (.kv nextKv) n) l (remaining - n) (nextKv + 1) := by
          rw [withBlocks, withBlocks, htake]
          simp only [length_cons, append_assoc, foldl_cons]
          congr 1
          omega
        rw [heq, htake]
        have hfrt : (e.front pool.nextId (.kv nextKv) n).key = some (.kv nextKv) := rfl
        refine ⟨hlaid', ?_, ?_, ?_⟩
        · dsimp only at hnamed ⊢
          rw [filterMap_cons_some hfrt, hnamed, length_cons, range'_succ, map_cons]
        · dsimp only at hhe ⊢
          rw [held_cons_key hfrt]
          exact (hhe.trans (hpm.append_left _)).trans perm_middle
        · intro hc
          rw [hspl] at hc
          exact hap (isChain_carve hc hfe)

theorem Blocked.resident_weight {nextKv : Nat} {taken : List Extent} (h : Blocked pool pool' nextKv taken) {model g : Nat} :
    pool'.Resident (.weight model g) ↔ pool.Resident (.weight model g) := by
  have hnot : weight model g ∉ (held taken).map fst := by
    rw [map_fst_held, h.named]
    simp
  rw [Resident, Resident, ← map_fst_held, (h.held_perm.map fst).mem_iff, map_append, mem_append, map_fst_held pool.extents]
  exact or_iff_right hnot

theorem Kept.blocked (h : m.Kept models args calm) {taken : List Extent}
    (hb : Blocked m.pool pool' m.nextKvExtentId taken) (hacc : pool'.accesses = m.pool.accesses) : { m with
      pool := pool'
      kvKeys := m.kvKeys ++ taken.filterMap key
      nextKvExtentId := m.nextKvExtentId + taken.length }.Kept models args calm where
  laid := hb.laid
  known := by
    intro model g n hmem
    rcases mem_append.1 (hb.held_perm.subset hmem) with hmem | hmem
    · have hkey : weight model g ∈ (held taken).map fst := mem_map_of_mem (f := fst) hmem
      rw [map_fst_held, hb.named] at hkey
      simp at hkey
    · exact h.known model g n hmem
  shaped := by
    intro k k' hneeds hr
    cases k with
    | kv _ => exact hneeds.elim
    | weight model g =>
      cases k' with
      | kv _ => exact hneeds.elim
      | weight model' g' => exact hb.resident_weight.2 (h.shaped _ _ hneeds (hb.resident_weight.1 hr))
  inOrder := by
    intro hp model g g' hc hlt hr hr'
    dsimp only
    rw [hacc]
    exact h.inOrder hp model g g' hc hlt (hb.resident_weight.1 hr) (hb.resident_weight.1 hr')
  kvNamed := by
    intro id hid
    rw [Resident, ← map_fst_held, (hb.held_perm.map fst).mem_iff, map_append, mem_append, map_fst_held,
      map_fst_held, hb.named] at hid
    rcases hid with hid | hid
    · have hmem : kv id ∈ taken.filterMap key := by
        rw [hb.named]
        exact hid
      obtain ⟨id', hid', heq⟩ := mem_map.1 hid
      obtain rfl := kv.inj heq
      exact ⟨by have := (mem_range'_1.1 hid').2; omega, mem_append_right _ hmem⟩
    · obtain ⟨hlt, hmem⟩ := h.kvNamed id hid
      exact ⟨Nat.lt_add_right _ hlt, mem_append_left _ hmem⟩
  kvKeys := by
    intro key hkey
    rcases mem_append.1 hkey with hkey | hkey
    · exact h.kvKeys key hkey
    · rw [hb.named] at hkey
      obtain ⟨id, -, rfl⟩ := mem_map.1 hkey
      rfl

theorem allocateKvBlocks_spec (h : m.Kept models args (· ≠ active)) (hpol : args.Profiled) :
    Outcome (fun f => f.isInvariant = false) (fun r => Onward models args active m r.2)
      (m.allocateKvBlocks models args table active cost) := by
  have hzero : { m with pendingKvBytes := 0 }.Kept models args (· ≠ active) :=
    ⟨h.laid, h.known, h.shaped, h.inOrder, h.kvNamed, h.kvKeys⟩
  unfold allocateKvBlocks
  refine bind (makeBlocks_spec hzero hpol) ?_
  rintro ⟨c, _⟩ ⟨pool, rfl, hrec, -⟩
  have hon := Onward.reclaims hzero hrec
  have hb := blocked_withBlocks args [] pool.extents m.pendingKvBytes m.nextKvExtentId hrec.laid rfl
    fun id hid => (hon.kept.kvNamed id hid).1
  dsimp only
  split
  · exact rfl
  · refine ⟨hon.kept.blocked hb rfl, ⟨hon.frame.capacity_eq, hon.frame.accesses_eq⟩, ?_⟩
    intro g hg
    exact hb.resident_weight.2 (hon.stays g hg)

theorem planKvBlocks_spec (h : m.Kept models args (· ≠ active)) (hpol : args.Profiled) :
    Outcome (fun f => f.isInvariant = false) (fun r => Onward models args active m r.2)
      (m.planKvBlocks models args table active cost) := by
  unfold planKvBlocks
  split
  · rename_i hpfx
    refine bind (prefixReclaim_spec h ((isPrefixPolicy_iff hpol).1 hpfx)) ?_
    rintro ⟨c, _⟩ ⟨pool, rfl, hrec, -⟩
    have hon := Onward.reclaims h hrec
    exact imp (allocateKvBlocks_spec hon.kept hpol) fun r hr => hon.trans hr
  · exact allocateKvBlocks_spec h hpol

end MockSegmentMemory

def tensorsOf (models : Models) (model : Nat) : List TensorSpec := ((models.byId.get? model).map TensorModel.tensors).getD []

namespace MockSegmentMemory

open Extent SegmentMemory

variable {models : Models} {args : Args} {calm : Nat → Prop} {table : Option PrefixStallTable} {active required : Nat}
  {m m' : MockSegmentMemory} {pool pool' : SegmentMemory} {t : TensorModel} {model : Nat}

/-! ## The missing groups -/

structure Missing (t : TensorModel) (model : Nat) (pool : SegmentMemory) (tensors : List TensorSpec)
    (ordered : Sizes) : Prop where
  nodup : (ordered.map fst).Nodup
  groups : ∀ x ∈ ordered, ∃ g, g < t.groups.length ∧ x = (.weight model g, t.groupBytes g) ∧ ¬pool.Resident (.weight model g)
  all : ∀ tensor ∈ tensors, ∀ group, t.group? tensor = some group →
    pool.Resident (.weight model group.groupId) ∨ weight model group.groupId ∈ ordered.map fst

variable {tensors : List TensorSpec} {ordered : Sizes}

theorem Missing.cons {ordered' : Sizes} (h : Missing t model pool tensors ordered)
    {tensor : TensorSpec} {group : TensorGroup} (hgrp : t.group? tensor = some group)
    (hnd : (ordered'.map fst).Nodup) (hsub : ordered ⊆ ordered') (hgps : ∀ x ∈ ordered', x ∈ ordered ∨
      ∃ g, g < t.groups.length ∧ x = (.weight model g, t.groupBytes g) ∧ ¬pool.Resident (.weight model g))
    (hmem : pool.Resident (.weight model group.groupId) ∨ weight model group.groupId ∈ ordered'.map fst) :
    Missing t model pool (tensor :: tensors) ordered' where
  nodup := hnd
  groups := by
    intro x hx
    rcases hgps x hx with hx | hx
    · exact h.groups x hx
    · exact hx
  all := by
    intro tensor' hten group' hgrp'
    rcases mem_cons.1 hten with rfl | hten
    · rw [hgrp] at hgrp'
      rw [← some.inj hgrp']
      exact hmem
    · rcases h.all tensor' hten group' hgrp' with hr | hk
      · exact .inl hr
      · exact .inr (map_subset _ hsub hk)

theorem missingGroups_spec (ht : models.byId.get? model = some t) (h : pool.Laid) {seen : List TensorSpec}
    (htns : tensors ⊆ t.tensors) (hm : Missing t model pool seen ordered) :
    ∃ ordered', missingGroups models model tensors ordered pool = .ok (ordered', pool) ∧
      Missing t model pool (tensors.reverse ++ seen) ordered' := by
  induction tensors generalizing seen ordered with
  | nil => exact ⟨ordered, rfl, hm⟩
  | cons tensor tensors ih =>
    obtain ⟨hin, hrs⟩ := cons_subset.1 htns
    have hwell := models.wellGrouped model t ht
    obtain ⟨group, hgrp⟩ := exists_group? hwell hin
    obtain ⟨-, hlt, hbyt⟩ := group?_spec hwell hgrp
    have hbind : ((models.byId.get? model).bind fun t => t.group? tensor) = some group := by
      rw [ht, bind_some, hgrp]
    have hst : ∀ o, Missing t model pool (tensor :: seen) o → missingGroups models model (tensor :: tensors) ordered pool =
        missingGroups models model tensors o pool → ∃ ordered', missingGroups models model (tensor :: tensors) ordered pool =
          .ok (ordered', pool) ∧ Missing t model pool ((tensor :: tensors).reverse ++ seen) ordered' := by
      intro o ho heq
      obtain ⟨ordered', hok, hm'⟩ := ih hrs ho
      refine ⟨ordered', heq.trans hok, ?_⟩
      rw [reverse_cons, append_assoc, singleton_append]
      exact hm'
    by_cases hseen : weight model group.groupId ∈ ordered.map fst
    · refine hst ordered (hm.cons hgrp hm.nodup (List.Subset.refl _) (fun x hx => .inl hx) (.inr hseen)) ?_
      conv_lhs => unfold missingGroups
      rw [hbind]
      exact if_pos hseen
    · have hget := allocatedExtent_eq h.indexed (.weight model group.groupId)
      cases hfind : pool.allocatedExtents.get? (.weight model group.groupId) with
      | some e =>
        have hr : pool.Resident (.weight model group.groupId) := by
          rw [← get?_isSome_iff h.indexed, hfind]
          rfl
        refine hst ordered (hm.cons hgrp hm.nodup (List.Subset.refl _) (fun x hx => .inl hx) (.inl hr)) ?_
        conv_lhs => unfold missingGroups
        rw [hbind]
        dsimp only
        rw [if_neg hseen, hget, hfind]
      | none =>
        have hr : ¬pool.Resident (.weight model group.groupId) := by
          rw [← get?_isSome_iff h.indexed, hfind]
          simp
        refine hst (ordered ++ [(.weight model group.groupId, group.logicalBytes)]) ?_ ?_
        · refine hm.cons hgrp ?_ (subset_append_left _ _) ?_ (.inr (by simp))
          · rw [map_append, nodup_append]
            refine ⟨hm.nodup, nodup_singleton _, ?_⟩
            intro a ha b hb heq
            rw [map_singleton, mem_singleton] at hb
            rw [heq, hb] at ha
            exact hseen ha
          · intro x hx
            rcases mem_append.1 hx with hx | hx
            · exact .inl hx
            · rw [mem_singleton.1 hx, ← hbyt]
              exact .inr ⟨group.groupId, hlt, rfl, hr⟩
        · conv_lhs => unfold missingGroups
          rw [hbind]
          dsimp only
          rw [if_neg hseen, hget, hfind]

theorem missingGroups_tensorsOf (models : Models) (model : Nat) (h : pool.Laid) :
    ∃ ordered, missingGroups models model (tensorsOf models model) [] pool = .ok (ordered, pool) ∧
      (ordered.map fst).Nodup ∧
      (∀ x ∈ ordered, ∃ t g, models.byId.get? model = some t ∧ g < t.groups.length ∧ x = (.weight model g, t.groupBytes g) ∧
        ¬pool.Resident (.weight model g)) ∧
      ∀ t, models.byId.get? model = some t → ∀ g < t.groups.length,
        pool.Resident (.weight model g) ∨ weight model g ∈ ordered.map fst := by
  unfold tensorsOf
  cases ht : models.byId.get? model with
  | none => exact ⟨[], rfl, nodup_nil, by simp, by simp⟩
  | some t =>
    have hemp : Missing t model pool [] [] := ⟨nodup_nil, by simp, by simp⟩
    obtain ⟨ordered, hok, hm⟩ := missingGroups_spec ht h (List.Subset.refl t.tensors) hemp
    refine ⟨ordered, hok, hm.nodup, ?_, ?_⟩
    · intro x hx
      obtain ⟨g, hg, hx, hr⟩ := hm.groups x hx
      exact ⟨t, g, rfl, hg, hx, hr⟩
    · intro t' ht' g hg
      obtain rfl := some.inj ht'
      obtain ⟨tensor, hin, group, hgrp, rfl⟩ := exists_tensor (models.wellGrouped model t ht) hg
      exact hm.all tensor (by simpa using hin) group hgrp

/-! ## Placing them -/

theorem reclaimFor_spec {cost : LoadCost} (h : m.Kept models args (· ≠ active)) (hpol : args.Profiled) :
    Outcome (fun f => f.isInvariant = false)
      (fun r => ∃ pool, r.2 = { m with pool := pool } ∧ Reclaims models args active m.pool pool ∧ required ≤ pool.freeBytes)
      (m.reclaimFor models args table active required cost) := by
  unfold reclaimFor
  split
  · rename_i hpfx
    refine bind (prefixReclaim_spec h ((isPrefixPolicy_iff hpol).1 hpfx)) ?_
    rintro ⟨c, _⟩ ⟨pool, rfl, hrec, hused⟩
    refine ⟨pool, rfl, hrec, ?_⟩
    have hfe := h.laid.freeBytes_add
    have hfe' := hrec.laid.freeBytes_add
    rw [hrec.frame.capacity_eq] at hfe'
    omega
  · rename_i hpfx
    have hp := eq_lru_of_not_prefix hpol hpfx
    split
    · exact rfl
    · rename_i cost' pool he
      obtain ⟨hrec, hw⟩ := reclaims_evictUntil _ h.laid hp h.inOrder he
      exact ⟨pool, rfl, hrec, of_decide_eq_true hw⟩

/-- Objects are placed, and the other extents keep their keys and sizes. -/
structure Loads (pool pool' : SegmentMemory) (ordered : Sizes) : Prop where
  laid : pool'.Laid
  frame : SameFrame pool pool'
  held_perm : (held pool'.extents).Perm (ordered ++ held pool.extents)
  apart : pool.extents.IsChain Apart → pool'.extents.IsChain Apart
  multiples : KeepsMultiples ordered pool.extents pool'.extents

theorem Loads.resident_iff (h : Loads pool pool' ordered) {key : Key} :
    pool'.Resident key ↔ key ∈ ordered.map fst ∨ pool.Resident key := by
  rw [Resident, Resident, ← map_fst_held, (h.held_perm.map fst).mem_iff, map_append, mem_append, map_fst_held]

theorem placePartitions_loads (h : pool.Laid) (hne : ordered ≠ []) (hnd : (ordered.map Prod.fst).Nodup)
    (hnew : ∀ key ∈ ordered.map fst, ¬pool.Resident key) (hft : bytesOf ordered ≤ pool.freeBytes) :
    (∀ moved pool', placePartitions pool (partitionRequests pool.weightCapacityBytes pool.extents
        (ordered.insertionSort fun a b => a.2 ≥ b.2)) = .ok (moved, pool') → Loads pool pool' ordered) ∧
      ((∀ x ∈ ordered, 0 < x.2) → ∃ moved pool', placePartitions pool (partitionRequests pool.weightCapacityBytes pool.extents
        (ordered.insertionSort fun a b => a.2 ≥ b.2)) = .ok (moved, pool')) := by
  have hsort := perm_insertionSort (fun a b : Key × Nat => a.2 ≥ b.2) ordered
  have hne' : (ordered.insertionSort fun a b => a.2 ≥ b.2) ≠ [] := by
    intro hnil
    rw [hnil] at hsort
    exact hne hsort.symm.eq_nil
  have hbyt : bytesOf (ordered.insertionSort fun a b => a.2 ≥ b.2) ≤ Tiling.total (room pool.weightCapacityBytes)
      (freeBelow pool.weightCapacityBytes pool.extents) := by
    rw [bytesOf_perm hsort]
    exact hft
  have hpcs := pieces_partitionRequests hne' hbyt
  have hpm := hpcs.requests_perm.trans hsort
  have hspec := placePartitions_spec h (show pool.extents = [] ++ pool.extents from rfl) (by
      rw [hpcs.frees_eq]
      exact filter_sublist) (by
      rw [hpcs.frees_eq]
      intro e he
      exact (of_decide_eq_true (mem_filter.1 he).2).1) (by
      rw [← h.limit]
      exact hpcs.fits) (by
      rw [(hpm.map fst).nodup_iff]
      exact hnd) (by
      intro k hk
      exact hnew k ((hpm.map fst).subset hk))
  refine ⟨?_, ?_⟩
  · intro moved pool' hok
    obtain ⟨hlaid, hfrm, mid, hmid, hhe, hchain, hmul⟩ := hspec.1 moved pool' hok
    simp only [nil_append, append_nil] at hmid hchain
    rw [← hmid] at hhe hchain hmul
    exact ⟨hlaid, hfrm, hhe.trans (hpm.append_right _), hchain, fun d hd => hmul d fun x hx => hd x (hpm.subset hx)⟩
  · intro hpos
    exact hspec.2 fun x hx => hpos x (hpm.subset hx)

theorem mergePartition_outcome (pool : SegmentMemory) (first last : Extent) :
    Outcome (fun f => f.isInvariant = false) (fun _ => True) (mergePartition pool first last) := by
  unfold mergePartition
  split
  · exact trivial
  · exact rfl

theorem reserveAll_outcome (pool : SegmentMemory) (e : Option Extent) (pending : Sizes) :
    Outcome (fun f => f.isInvariant = false) (fun _ => True) (reserveAll pool e pending) := by
  induction pending generalizing pool e with
  | nil => exact trivial
  | cons x pending ih =>
    obtain ⟨key, n⟩ := x
    refine bind (P := fun _ => True) ?_ fun r _ => ih r.2 r.1
    unfold reserve
    split
    · exact rfl
    · split
      · exact rfl
      · exact trivial

theorem placePartitions_outcome (pool : SegmentMemory) (groups : List (List Extent × Sizes)) :
    Outcome (fun f => f.isInvariant = false) (fun _ => True) (placePartitions pool groups) := by
  induction groups generalizing pool with
  | nil => exact trivial
  | cons group groups ih =>
    obtain ⟨frees, pending⟩ := group
    rw [placePartitions]
    split
    · exact ih pool
    · split
      · refine bind (mergePartition_outcome pool _ _) ?_
        rintro ⟨free, moved, pool₁⟩ -
        refine bind (reserveAll_outcome pool₁ _ _) ?_
        intro pool₂ _
        exact bind (ih pool₂) fun _ _ => trivial
      · exact rfl

def Whole (models : Models) (model : Nat) (pool : SegmentMemory) : Prop :=
  ∀ t, models.byId.get? model = some t → ∀ g < t.groups.length, pool.Resident (.weight model g)

theorem Kept.loads (h : m.Kept models args (· ≠ active)) (hl : Loads m.pool pool ordered)
    (hgps : ∀ x ∈ ordered, ∃ t g, models.byId.get? active = some t ∧ g < t.groups.length ∧
      x = (.weight active g, t.groupBytes g)) (hwhole : Whole models active pool) :
    { m with pool := pool }.Kept models args (· ≠ active) := by
  have hks : ∀ key ∈ ordered.map Prod.fst, ∃ g, key = .weight active g := by
    intro key hkey
    obtain ⟨x, hx, rfl⟩ := mem_map.1 hkey
    obtain ⟨t, g, -, -, rfl⟩ := hgps x hx
    exact ⟨g, rfl⟩
  have hother : ∀ model g, model ≠ active → (pool.Resident (.weight model g) ↔ m.pool.Resident (.weight model g)) := by
    intro model g hne
    rw [hl.resident_iff]
    refine or_iff_right ?_
    intro hmem
    obtain ⟨g', heq⟩ := hks _ hmem
    exact hne (weight.inj heq).1
  have hkn : ∀ model g n, (weight model g, n) ∈ held pool.extents →
      ∃ t, models.byId.get? model = some t ∧ g < t.groups.length ∧ n = t.groupBytes g := by
    intro model g n hmem
    rcases mem_append.1 (hl.held_perm.subset hmem) with hmem | hmem
    · obtain ⟨t, g', ht, hlt, heq⟩ := hgps _ hmem
      obtain ⟨hkey, hn⟩ := Prod.mk.inj heq
      obtain ⟨rfl, rfl⟩ := weight.inj hkey
      exact ⟨t, ht, hlt, hn⟩
    · exact h.known model g n hmem
  refine ⟨hl.laid, hkn, ?_, ?_, ?_, h.kvKeys⟩
  · intro k k' hneeds hr
    cases k with
    | kv _ => exact hneeds.elim
    | weight model g =>
      cases k' with
      | kv _ => exact hneeds.elim
      | weight model' g' =>
        obtain rfl := hneeds.1
        by_cases hne : model = active
        · -- All groups of the active model are there.
          subst hne
          obtain ⟨n, hn⟩ := resident_iff_held.1 hr
          obtain ⟨t, ht, hlt, -⟩ := hkn model g n hn
          refine hwhole t ht g' ?_
          have hcases := hneeds.2
          split at hcases
          · obtain ⟨-, t', ht', hlt'⟩ := hcases
            rw [ht] at ht'
            rwa [Option.some.inj ht']
          · omega
        · exact (hother model g' hne).2 (h.shaped _ _ hneeds ((hother model g hne).1 hr))
  · intro hp model g g' hne hlt hr hr'
    dsimp only
    rw [hl.frame.accesses_eq]
    exact h.inOrder hp model g g' hne hlt ((hother model g hne).1 hr) ((hother model g' hne).1 hr')
  · intro id hid
    rcases hl.resident_iff.1 hid with hid | hid
    · obtain ⟨g, heq⟩ := hks _ hid
      cases heq
    · exact h.kvNamed id hid

theorem placeWeights_spec (h : m.Kept models args (· ≠ active)) (hpol : args.Profiled) :
    Outcome (fun f => f.isInvariant = false) (fun r => Onward models args active m r.2 ∧ Whole models active r.2.pool)
      (m.placeWeights models args table active (tensorsOf models active)) := by
  obtain ⟨ordered, hmiss, hnd, hgps, hall⟩ := missingGroups_tensorsOf models active h.laid
  unfold placeWeights
  rw [hmiss]
  show Outcome _ _ (if _ then _ else _)
  split
  · rename_i hnil
    subst hnil
    refine ⟨⟨h, .refl _, fun g hg => hg⟩, ?_⟩
    intro t ht g hg
    rcases hall t ht g hg with hr | hmem
    · exact hr
    · cases hmem
  · rename_i hne
    refine bind (reclaimFor_spec h hpol) ?_
    rintro ⟨c, _⟩ ⟨pool, rfl, hrec, hft⟩
    have hon := Onward.reclaims h hrec
    have hnew : ∀ key ∈ ordered.map fst, ¬pool.Resident key := by
      intro key hkey hr
      obtain ⟨x, hx, rfl⟩ := mem_map.1 hkey
      obtain ⟨t, g, -, -, rfl, hnot⟩ := hgps x hx
      exact hnot (hrec.resident_of hr)
    have hplace := (placePartitions_loads hrec.laid hne hnd hnew hft).1
    have hflt := placePartitions_outcome pool (partitionRequests pool.weightCapacityBytes pool.extents
      (ordered.insertionSort fun a b => a.2 ≥ b.2))
    dsimp only
    cases hrun : placePartitions pool (partitionRequests pool.weightCapacityBytes pool.extents
        (ordered.insertionSort fun a b => a.2 ≥ b.2)) with
    | error fault =>
      rw [hrun] at hflt
      exact hflt
    | ok r =>
      obtain ⟨moved, pool'⟩ := r
      have hl := hplace moved pool' hrun
      have hwhole : Whole models active pool' := by
        intro t ht g hg
        rcases hall t ht g hg with hr | hmem
        · exact hl.resident_iff.2 (.inr (hon.stays g hr))
        · exact hl.resident_iff.2 (.inl hmem)
      have hkept := hon.kept.loads hl (fun x hx => by
        obtain ⟨t, g, ht, hg, hx, -⟩ := hgps x hx
        exact ⟨t, g, ht, hg, hx⟩) hwhole
      refine ⟨⟨⟨⟨hl.laid.layout, hl.laid.indexed, hl.laid.limit⟩, hkept.known, hkept.shaped, hkept.inOrder, hkept.kvNamed,
        hkept.kvKeys⟩, ?_, ?_⟩, hwhole⟩
      · exact (hon.frame.trans hl.frame).trans ⟨rfl, rfl⟩
      · intro g hg
        exact hl.resident_iff.2 (.inr (hon.stays g hg))

theorem planRequest_spec (h : m.Kept models args (· ≠ active)) (hpol : args.Profiled) :
    Outcome (fun f => f.isInvariant = false) (fun r => Onward models args active m r.2 ∧ Whole models active r.2.pool)
      (m.planRequest models args table active (tensorsOf models active)) := by
  unfold planRequest
  refine bind (placeWeights_spec h hpol) ?_
  rintro ⟨cost, m'⟩ ⟨hon, hwhole⟩
  refine imp (planKvBlocks_spec hon.kept hpol) ?_
  intro r hon'
  exact ⟨hon.trans hon', fun t ht g hg => hon'.stays g (hwhole t ht g hg)⟩

end MockSegmentMemory

end ServerlessLLM.Simulator
