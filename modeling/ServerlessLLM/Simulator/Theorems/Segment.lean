import ServerlessLLM.Simulator.Theorems.Residency

/-!
# The segment pool is sound

For models without empty groups and requests that fit the pool, no action of any run fails, and the pool is sound after each
of them.
-/

namespace ServerlessLLM.Simulator

open List Option Prod Tiling Key TensorModel

namespace Extent

def HoldsGroup (models : Models) (e : Extent) (model g : Nat) : Prop :=
  e.key = some (.weight model g) ∧ ∃ t, models.byId.get? model = some t ∧ g < t.groups.length ∧ e.size = t.groupBytes g

theorem total_le_logicalBytes {models : Models} {model : Nat} {t : TensorModel} (ht : models.byId.get? model = some t)
    {l : List Extent} (hks : (l.filterMap key).Nodup) (hl : ∀ e ∈ l, ∃ g, e.HoldsGroup models model g) :
    total size l ≤ t.logicalBytes := by
  have hidx : ∀ l : List Extent, (∀ e ∈ l, ∃ g, e.HoldsGroup models model g) →
      total size l = (((l.filterMap key).map index).map t.groupBytes).sum ∧
        ∀ k ∈ l.filterMap key, k = .weight model k.index ∧ k.index < t.groups.length := by
    intro l hl
    induction l with
    | nil => simp
    | cons e l ih =>
      obtain ⟨g, hkey, t', ht', hlt, hsz⟩ := hl e mem_cons_self
      obtain rfl : t = t' := some.inj (ht.symm.trans ht')
      obtain ⟨ih1, ih2⟩ := ih fun x hx => hl x (mem_cons_of_mem _ hx)
      rw [filterMap_cons_some hkey, total_cons, map_cons, map_cons, sum_cons, ih1, hsz]
      refine ⟨rfl, ?_⟩
      intro key hk
      rcases mem_cons.1 hk with rfl | hk
      · exact ⟨rfl, hlt⟩
      · exact ih2 key hk
  obtain ⟨hsum, hmem⟩ := hidx l hl
  have hnd : ((l.filterMap key).map index).Nodup := by
    refine List.Nodup.map_on ?_ hks
    intro x hx y hy hxy
    rw [(hmem x hx).1, (hmem y hy).1, hxy]
  rw [hsum]
  refine sum_groupBytes_le (models.wellGrouped model t ht) hnd ?_
  intro g hg
  obtain ⟨key, hk, rfl⟩ := mem_map.1 hg
  exact (hmem key hk).2

end Extent

namespace SegmentMemory

open Extent

variable {models : Models} {args : Args} {m m' : SegmentMemory}

def HoldsGroups (models : Models) (m : SegmentMemory) : Prop :=
  ∀ e ∈ allocated m.extents, ∃ model g, e.HoldsGroup models model g

theorem Drops.holdsGroups {keep : Key → Prop} (h : Drops keep m m') (hg : m.HoldsGroups models) : m'.HoldsGroups models :=
  fun e he => hg e (h.sublist.subset he)

theorem length_allocated_le (m : SegmentMemory) : (allocated m.extents).length ≤ m.extents.length := length_filter_le _ _

variable {active : Nat} {t : TensorModel} {n : Nat}

theorem holdsGroup_of_no_candidates (hg : m.HoldsGroups models) (hc : m.candidates (notOf active) = []) :
    ∀ e ∈ allocated m.extents, ∃ g, e.HoldsGroup models active g := by
  intro e he
  obtain ⟨model, g, hkey, hrs⟩ := hg e he
  have hks : weight model g ∈ m.extents.filterMap key := by
    rw [← filterMap_key_allocated]
    exact Extent.mem_keys.2 ⟨e, he, hkey⟩
  rw [candidates, filter_eq_nil_iff] at hc
  have hmod := hc _ hks
  rw [notOf, decide_eq_true_iff, not_not] at hmod
  obtain rfl : model = active := some.inj hmod
  exact ⟨g, hkey, hrs⟩

theorem freeBytes_add_usedBytes (h : m.Sound) (hin : m.Inside) (hcap : m.weightCapacityBytes ≤ m.capacityBytes) :
    m.freeBytes + m.usedBytes = m.weightCapacityBytes := by
  have := room_add_allocated h.layout.adjoins hin
  rw [freeBytes, usedBytes]
  omega

/-! ## Compacting -/

theorem extents_compact (m : SegmentMemory) : (m.compact args).2.extents =
    repack 0 m.nextId (allocated m.extents) ++ rest (m.nextId + (allocated m.extents).length) m.usedBytes m.capacityBytes := rfl

theorem keys_of_mem_repack {cursor id : Nat} {l : List Extent} : ∀ e ∈ repack cursor id (allocated l), e.key.isSome := by
  intro e he
  obtain ⟨x, hx, -, hk⟩ := mem_repack he
  rw [hk]
  exact (mem_allocated.1 hx).2

theorem allocated_compact (m : SegmentMemory) :
    allocated (m.compact args).2.extents = repack 0 m.nextId (allocated m.extents) := by
  rw [extents_compact, allocated_append, allocated_of_keys keys_of_mem_repack, allocated_rest, append_nil]

theorem keys_compact (args : Args) (m : SegmentMemory) : (m.compact args).2.extents.filterMap key =
    m.extents.filterMap key := by
  rw [← filterMap_key_allocated, allocated_compact, filterMap_key_repack, filterMap_key_allocated]

theorem layout_compact (h : m.Sound) (hcap : m.usedBytes ≤ m.capacityBytes) :
    Layout m.capacityBytes (m.compact args).2.nextId (m.compact args).2.extents := by
  have hids : ((m.compact args).2.extents.map Extent.id).Sublist (range' m.nextId ((allocated m.extents).length + 1)) := by
    rw [extents_compact, map_append, ids_repack, range'_concat, Nat.one_mul]
    refine (List.Sublist.refl _).append ?_
    unfold rest
    split
    · exact List.Sublist.refl _
    · exact nil_sublist _
  have hadj := adjoins_repack 0 m.nextId (allocated m.extents)
  rw [Nat.zero_add] at hadj
  refine ⟨?_, ?_, List.Nodup.sublist hids nodup_range', ?_⟩
  · rw [extents_compact]
    exact adjoins_append_iff.2 ⟨_, hadj, adjoins_rest hcap⟩
  · rw [keys_compact]
    exact h.layout.keys
  · intro e he
    have hmem := hids.subset (mem_map_of_mem he)
    rw [mem_range'_1] at hmem
    exact (show e.id < m.nextId + (allocated m.extents).length + 1 by omega)

theorem Sound.compact (h : m.Sound) (hcap : m.usedBytes ≤ m.capacityBytes) : (m.compact args).2.Sound where
  layout := layout_compact h hcap
  apart := by
    rw [extents_compact, isChain_append]
    refine ⟨isChain_of_keys keys_of_mem_repack, isChain_rest _ _ _, ?_⟩
    intro x hx y _ hxy
    have hkey := keys_of_mem_repack x (mem_of_mem_getLast? hx)
    rw [hxy.1] at hkey
    cases hkey
  positive := by
    intro hpos e he
    rw [extents_compact, mem_append] at he
    rcases he with he | he
    · obtain ⟨x, hx, hsz, -⟩ := mem_repack he
      rw [hsz]
      exact h.positive hpos x (mem_allocated.1 hx).1
    · exact (mem_rest he).2
  indexed := by
    intro key e
    refine get?_byKey ?_
    have hks := h.layout.keys
    rw [← keys_compact args] at hks
    exact hks

theorem inside_compact (hin : m.usedBytes ≤ m.weightCapacityBytes) : (m.compact args).2.Inside := by
  intro e he
  rw [allocated_compact] at he
  have hadj := adjoins_repack 0 m.nextId (allocated m.extents)
  have hend := (hadj.pairwise.2 e he).2
  rw [Nat.zero_add] at hend
  exact hend.trans hin

theorem HoldsGroups.compact (hg : m.HoldsGroups models) : (m.compact args).2.HoldsGroups models := by
  intro e he
  rw [allocated_compact] at he
  obtain ⟨x, hx, hsz, hk⟩ := mem_repack he
  obtain ⟨model, g, hkey, hrs⟩ := hg x hx
  refine ⟨model, g, hk.trans hkey, ?_⟩
  rw [hsz]
  exact hrs

theorem largestFree_compact (hcap : m.weightCapacityBytes ≤ m.capacityBytes) :
    (m.compact args).2.largestFree = m.weightCapacityBytes - m.usedBytes := by
  have hbelow : freeBelow m.weightCapacityBytes (m.compact args).2.extents =
      freeBelow m.weightCapacityBytes (rest (m.nextId + (allocated m.extents).length) m.usedBytes m.capacityBytes) := by
    rw [extents_compact, freeBelow_append, freeBelow_of_keys keys_of_mem_repack, nil_append]
  rw [largestFree, show (m.compact args).2.weightCapacityBytes = m.weightCapacityBytes from rfl, hbelow]
  exact largest_rest hcap

/-! ## Requests -/

/-- A sound pool in the middle of a request of a model that fits. -/
structure Serving (models : Models) (t : TensorModel) (m : SegmentMemory) : Prop where
  sound : m.Sound
  holds : m.HoldsGroups models
  inside : m.Inside
  limit : m.weightCapacityBytes ≤ m.capacityBytes
  fits : t.logicalBytes ≤ m.weightCapacityBytes

theorem Drops.serving {keep : Key → Prop} (h : Drops keep m m') (hm : m.Serving models t) (hs : m'.Sound) :
    m'.Serving models t where
  sound := hs
  holds := h.holdsGroups hm.holds
  inside := h.inside hm.inside
  limit := by
    rw [h.weightCapacity_eq, h.capacity_eq]
    exact hm.limit
  fits := by
    rw [h.weightCapacity_eq]
    exact hm.fits

theorem Serving.usedBytes_le (hm : m.Serving models t) : m.usedBytes ≤ m.weightCapacityBytes := by
  have := freeBytes_add_usedBytes hm.sound hm.inside hm.limit
  omega

theorem Serving.compact {t : TensorModel} (hm : m.Serving models t) : (m.compact args).2.Serving models t where
  sound := hm.sound.compact (hm.usedBytes_le.trans hm.limit)
  holds := hm.holds.compact
  inside := inside_compact hm.usedBytes_le
  limit := hm.limit
  fits := hm.fits

theorem not_candidate_of_model {key : Key} (h : key.model = some active) : notOf active key = false := by
  simp [notOf, h]

theorem beginRequest_spec (args : Args) (hs : m.Sound) (hg : m.HoldsGroups models) {kv : Nat}
    (ht : models.byId.get? active = some t) (hfit : t.logicalBytes + kv ≤ m.capacityBytes) :
    ∃ cost m', m.beginRequest models args (notOf active) kv = .ok (cost, m') ∧ m'.Serving models t ∧
      m'.capacityBytes = m.capacityBytes ∧ m'.accesses = m.accesses ∧
      ∀ key, key.model = some active → m.Resident key → m'.Resident key := by
  have hs₀ : { m with weightCapacityBytes := m.capacityBytes - kv }.Sound := ⟨hs.layout, hs.apart, hs.positive, hs.indexed⟩
  have hlen := length_allocated_le { m with weightCapacityBytes := m.capacityBytes - kv }
  unfold beginRequest trimToCapacity
  rcases evictUntil_spec (fun m => m.usedBytes ≤ m.weightCapacityBytes) {} hs₀ hlen with
    ⟨cost, m₁, heq, hw, hs₁, hd⟩ | ⟨-, m₁, hw, hs₁, hd, hc⟩
  · have hused : m₁.usedBytes ≤ m₁.weightCapacityBytes := of_decide_eq_true hw
    have hcap : m₁.weightCapacityBytes = m.capacityBytes - kv := hd.weightCapacity_eq
    have hpo : m₁.capacityBytes = m.capacityBytes := hd.capacity_eq
    have hlimit : m₁.weightCapacityBytes ≤ m₁.capacityBytes := by omega
    have hft : t.logicalBytes ≤ m₁.weightCapacityBytes := by omega
    have hhld : m₁.HoldsGroups models := hd.holdsGroups hg
    have hres : ∀ key, key.model = some active → m.Resident key → m₁.Resident key := by
      intro key hkey hr
      exact hd.resident (not_candidate_of_model hkey) hr
    rw [heq]
    dsimp only
    split
    · refine ⟨_, _, rfl, ?_, hpo, hd.accesses_eq, ?_⟩
      · exact ⟨hs₁.compact (hused.trans hlimit), hhld.compact, inside_compact hused, hlimit, hft⟩
      · intro key hkey hr
        rw [Resident, keys_compact]
        exact hres key hkey hr
    · rename_i hin
      refine ⟨_, _, rfl, ⟨hs₁, hhld, ?_, hlimit, hft⟩, hpo, hd.accesses_eq, hres⟩
      intro e he
      by_contra hlt
      exact hin ⟨e, he, by omega⟩
  · -- Without a candidate only groups of the active model are left, and they fit.
    have hall := holdsGroup_of_no_candidates (hd.holdsGroups hg) hc
    have hks : ((allocated m₁.extents).filterMap key).Nodup := by
      rw [filterMap_key_allocated]
      exact hs₁.layout.keys
    have hle := total_le_logicalBytes ht hks hall
    have hcap : m₁.weightCapacityBytes = m.capacityBytes - kv := hd.weightCapacity_eq
    have hused : ¬m₁.usedBytes ≤ m₁.weightCapacityBytes := of_decide_eq_false hw
    rw [usedBytes] at hused
    omega

theorem Serving.room_of_no_candidates (hm : m.Serving models t)
    (ht : models.byId.get? active = some t) (hc : m.candidates (notOf active) = []) {g : Nat} (hg : g < t.groups.length)
    (hr : ¬m.Resident (.weight active g)) : t.groupBytes g ≤ m.freeBytes := by
  have hfe := freeBytes_add_usedBytes hm.sound hm.inside hm.limit
  have hall := holdsGroup_of_no_candidates hm.holds hc
  have hnew : ∀ e ∈ ⟨0, 0, t.groupBytes g, some (.weight active g)⟩ :: allocated m.extents,
      ∃ g, e.HoldsGroup models active g := by
    intro e he
    rcases mem_cons.1 he with rfl | he
    · exact ⟨g, rfl, t, ht, hg, rfl⟩
    · exact hall e he
  have hks : ((⟨0, 0, t.groupBytes g, some (.weight active g)⟩ :: allocated m.extents).filterMap key).Nodup := by
    rw [filterMap_cons_some (f := key) (b := weight active g) rfl, nodup_cons, filterMap_key_allocated]
    exact ⟨hr, hm.sound.layout.keys⟩
  have hle := total_le_logicalBytes ht hks hnew
  have hft := hm.fits
  rw [total_cons] at hle
  rw [usedBytes] at hfe
  dsimp only at hle
  omega

theorem evictOne_map_snd (models : Models) (args : Args) (candidate : Key → Bool) (m : SegmentMemory) (cost cost' : LoadCost) :
    (m.evictOne models args candidate cost).map snd = (m.evictOne models args candidate cost').map snd := by
  unfold evictOne
  split <;> rfl

theorem evictUntil_map_snd (models : Models) (args : Args) (candidate : Key → Bool) (wanted : SegmentMemory → Bool) (fuel : Nat)
    (cost cost' : LoadCost) (m : SegmentMemory) : (evictUntil models args candidate wanted fuel cost m).map snd =
      (evictUntil models args candidate wanted fuel cost' m).map snd := by
  induction fuel generalizing m cost cost' with
  | zero =>
    rw [evictUntil, evictUntil]
    split <;> rfl
  | succ fuel ih =>
    rw [evictUntil, evictUntil]
    by_cases hw : wanted m = true
    · rw [if_pos hw, if_pos hw]
      rfl
    · rw [if_neg hw, if_neg hw]
      have hone := evictOne_map_snd models args candidate m cost cost'
      cases h : m.evictOne models args candidate cost with
      | none =>
        rw [h] at hone
        rw [map_eq_none_iff.1 hone.symm]
      | some x =>
        rw [h] at hone
        obtain ⟨y, hy, hxy⟩ := map_eq_some_iff.1 hone.symm
        rw [hy]
        dsimp only
        rw [hxy]
        exact ih x.1 y.1 x.2

theorem makeContiguous_spec (active : Nat) (hm : m.Serving models t)
    (hnever : args.compactionPolicy ≠ .never) (hn : n ≤ m.freeBytes) (cost : LoadCost) :
    ∃ cost' m', m.makeContiguous models args (notOf active) n cost = .ok (cost', m') ∧ m'.Serving models t ∧
      m'.capacityBytes = m.capacityBytes ∧ m'.accesses = m.accesses ∧ n ≤ m'.largestFree ∧
      (∀ key, key.model = some active → m.Resident key → m'.Resident key) ∧
      ∀ key, m'.Resident key → m.Resident key := by
  have hcompact : ∃ cost' m', (Except.ok (cost.add (m.compact args).1, (m.compact args).2) : Except Fault _) = .ok (cost', m') ∧
      m'.Serving models t ∧ m'.capacityBytes = m.capacityBytes ∧ m'.accesses = m.accesses ∧ n ≤ m'.largestFree ∧
      (∀ key, key.model = some active → m.Resident key → m'.Resident key) ∧ ∀ key, m'.Resident key → m.Resident key := by
    have hfe := freeBytes_add_usedBytes hm.sound hm.inside hm.limit
    refine ⟨_, _, rfl, hm.compact, rfl, rfl, ?_, ?_, ?_⟩
    · rw [largestFree_compact hm.limit]
      omega
    · intro key _ hr
      rw [Resident, keys_compact]
      exact hr
    · intro key hr
      rw [Resident, keys_compact] at hr
      exact hr
  unfold makeContiguous
  cases hpolicy : args.compactionPolicy with
  | never => exact absurd hpolicy hnever
  | onAllocationFailure => exact hcompact
  | costAware =>
    cases halt : m.evictionAlternativeMs models args (notOf active) n with
    | none => exact hcompact
    | some evictionMs =>
      dsimp only
      split
      · exact hcompact
      · -- The copy found enough victims, and so does the pool itself.
        have hprobe : ∃ x, evictUntil models args (notOf active) (fun m => n ≤ m.largestFree) m.extents.length
          {} m = some x := by
          unfold evictionAlternativeMs at halt
          obtain ⟨x, hx, -⟩ := map_eq_some_iff.1 halt
          exact ⟨x, hx⟩
        have hsa := evictUntil_map_snd models args (notOf active) (fun m => n ≤ m.largestFree) m.extents.length cost {} m
        rcases evictUntil_spec (fun m => n ≤ m.largestFree) cost hm.sound (length_allocated_le m) with
          ⟨cost', m', heq, hw, hs', hd⟩ | ⟨heq, -⟩
        · refine ⟨cost', m', ?_, hd.serving hm hs', hd.capacity_eq, hd.accesses_eq, of_decide_eq_true hw, ?_, ?_⟩
          · rw [heq]
          · intro key hkey hr
            exact hd.resident (not_candidate_of_model hkey) hr
          · intro key hr
            exact hd.resident_of hr
        · obtain ⟨x, hx⟩ := hprobe
          rw [heq, hx] at hsa
          cases hsa

theorem exists_of_le_largestFree (hpos : 0 < n) (h : n ≤ m.largestFree) :
    ∃ e ∈ freeBelow m.weightCapacityBytes m.extents, n ≤ e.room m.weightCapacityBytes := by
  have hmax : ∀ l : List Extent, n ≤ (l.map (room m.weightCapacityBytes)).foldr max 0 →
      ∃ e ∈ l, n ≤ e.room m.weightCapacityBytes := by
    intro l hl
    induction l with
    | nil => exact absurd hl (by simp; omega)
    | cons e l ih =>
      rw [map_cons, foldr_cons] at hl
      rcases le_max_iff.1 hl with hl | hl
      · exact ⟨e, mem_cons_self, hl⟩
      · obtain ⟨x, hx, hn⟩ := ih hl
        exact ⟨x, mem_cons_of_mem _ hx, hn⟩
  exact hmax _ h

theorem Serving.place {active g : Nat} {t : TensorModel} (hm : m.Serving models t) (ht : models.byId.get? active = some t)
    (hg : g < t.groups.length) (hpos : 0 < t.groupBytes g) (hr : ¬m.Resident (.weight active g))
    (hlrg : t.groupBytes g ≤ m.largestFree) (cost : LoadCost) :
    ∃ cost' m', m.place args (.weight active g) (t.groupBytes g) cost = .ok (cost', m') ∧ m'.Serving models t ∧
      m'.capacityBytes = m.capacityBytes ∧ m'.accesses = m.accesses.touch (.weight active g) ∧
      ∀ key, m'.Resident key ↔ key = .weight active g ∨ m.Resident key := by
  obtain ⟨e, he, hro⟩ := exists_of_le_largestFree hpos hlrg
  have hfnd := firstFit_isSome m.nextId (.weight active g) he hro
  obtain ⟨⟨x, l⟩, hfit⟩ := isSome_iff_exists.1 hfnd
  unfold SegmentMemory.place
  rw [hfit]
  refine ⟨_, _, rfl, ?_, rfl, rfl, ?_⟩ <;> obtain ⟨before, e, after, hspl, rfl, rfl, hfe, hend, hsz⟩ := firstFit_eq_some hfit
  · have hs := hm.sound
    have hlay := hs.layout
    rw [Resident, hspl] at hr
    rw [hspl] at hlay
    have halloc : allocated m.extents = allocated before ++ allocated after := by
      rw [hspl, allocated_append_free hfe]
    have hnew := hlay.carve hfe hsz hr
    refine ⟨⟨hnew, isChain_carve (hspl ▸ hs.apart) hfe, ?_, indexed_carve hs.indexed hspl hfe hnew.keys⟩, ?_, ?_,
      hm.limit, hm.fits⟩
    · intro hcap
      exact size_carve (hspl ▸ hs.positive hcap) hpos fun hlt => Nat.sub_pos_of_lt hlt
    · intro y hy
      dsimp only at hy
      rw [allocated_append_carve] at hy
      rcases mem_append.1 hy with hy | hy
      · exact hm.holds y (halloc ▸ mem_append_left _ hy)
      · rcases mem_cons.1 hy with rfl | hy
        · exact ⟨active, g, rfl, t, ht, hg, rfl⟩
        · exact hm.holds y (halloc ▸ mem_append_right _ hy)
    · intro y hy
      dsimp only at hy ⊢
      rw [allocated_append_carve] at hy
      rcases mem_append.1 hy with hy | hy
      · exact hm.inside y (halloc ▸ mem_append_left _ hy)
      · rcases mem_cons.1 hy with rfl | hy
        · exact hend
        · exact hm.inside y (halloc ▸ mem_append_right _ hy)
  · intro key
    rw [Resident, (keys_split hfe _ _ _).mem_iff, mem_cons, Resident, hspl]

theorem Serving.makeRoom {active g : Nat} {t : TensorModel} (hm : m.Serving models t) (ht : models.byId.get? active = some t)
    (hnever : args.compactionPolicy ≠ .never) (hg : g < t.groups.length) (hr : ¬m.Resident (.weight active g)) :
    ∃ cost m', m.makeRoom models args (notOf active) (.weight active g) (t.groupBytes g) = .ok (cost, m') ∧
      m'.Serving models t ∧ m'.capacityBytes = m.capacityBytes ∧ m'.accesses = m.accesses ∧
      t.groupBytes g ≤ m'.largestFree ∧ (∀ key, key.model = some active → m.Resident key → m'.Resident key) ∧
      ∀ key, m'.Resident key → m.Resident key := by
  unfold SegmentMemory.makeRoom
  rcases evictUntil_spec (fun m => t.groupBytes g ≤ m.freeBytes) {} hm.sound (length_allocated_le m) with
    ⟨cost₁, m₁, heq, hw, hs₁, hd⟩ | ⟨-, m₁, hw, hs₁, hd, hc⟩
  · have hm₁ := hd.serving hm hs₁
    have hkept : ∀ key, key.model = some active → m.Resident key → m₁.Resident key := by
      intro key hkey hres
      exact hd.resident (not_candidate_of_model hkey) hres
    rw [heq]
    dsimp only
    split
    · obtain ⟨cost₂, m₂, heq₂, hm₂, hcap₂, hacc₂, hlrg, hkept₂, hold₂⟩ :=
        makeContiguous_spec active hm₁ hnever (of_decide_eq_true hw) cost₁
      refine ⟨cost₂, m₂, heq₂, hm₂, hcap₂.trans hd.capacity_eq, hacc₂.trans hd.accesses_eq, hlrg, ?_, ?_⟩
      · intro key hkey hres
        exact hkept₂ key hkey (hkept key hkey hres)
      · intro key hres
        exact hd.resident_of (hold₂ key hres)
    · rename_i hlrg
      exact ⟨cost₁, m₁, rfl, hm₁, hd.capacity_eq, hd.accesses_eq, Nat.le_of_not_lt hlrg, hkept, fun _ => hd.resident_of⟩
  · have hro := (hd.serving hm hs₁).room_of_no_candidates ht hc hg fun hr₁ => hr (hd.resident_of hr₁)
    have hshort : ¬t.groupBytes g ≤ m₁.freeBytes := of_decide_eq_false hw
    omega

theorem prepareTensor_spec (hm : m.Serving models t) (ht : models.byId.get? active = some t)
    (hnever : args.compactionPolicy ≠ .never) {tensor : TensorSpec} {group : TensorGroup}
    (hgrp : t.group? tensor = some group) (hpos : 0 < group.logicalBytes) :
    ∃ cost m', m.prepareTensor models args (notOf active) active tensor = .ok (cost, m') ∧ m'.Serving models t ∧
      m'.capacityBytes = m.capacityBytes ∧ m'.accesses = m.accesses.touch (.weight active group.groupId) ∧
      ∀ key, key.model = some active → m.Resident key → m'.Resident key := by
  obtain ⟨-, hlt, hbyt⟩ := group?_spec (models.wellGrouped active t ht) hgrp
  unfold prepareTensor
  rw [ht, bind_some, hgrp]
  dsimp only
  rw [allocatedExtent_eq hm.sound.indexed]
  cases hget : m.allocatedExtents.get? (.weight active group.groupId) with
  | some e =>
    have hs : { m with accesses := m.accesses.touch (.weight active group.groupId) }.Sound :=
      ⟨hm.sound.layout, hm.sound.apart, hm.sound.positive, hm.sound.indexed⟩
    exact ⟨_, _, rfl, ⟨hs, hm.holds, hm.inside, hm.limit, hm.fits⟩, rfl, rfl, fun _ _ hkey => hkey⟩
  | none =>
    have hr : ¬m.Resident (.weight active group.groupId) := by
      rw [← get?_isSome_iff hm.sound.indexed, hget]
      simp
    rw [← hbyt] at hpos ⊢
    obtain ⟨cost₁, m₁, heq₁, hm₁, hcap₁, hacc₁, hlrg, hkept, hold⟩ := hm.makeRoom ht hnever hlt hr
    obtain ⟨cost₂, m₂, heq₂, hm₂, hcap₂, hacc₂, hks⟩ := hm₁.place ht hlt hpos (fun hr₁ => hr (hold _ hr₁)) hlrg cost₁
    refine ⟨cost₂, m₂, ?_, hm₂, hcap₂.trans hcap₁, ?_, ?_⟩
    · dsimp only
      rw [heq₁]
      exact heq₂
    · rw [hacc₂, hacc₁]
    · intro key hkey hres
      exact (hks key).2 (.inr (hkept key hkey hres))

end SegmentMemory

end ServerlessLLM.Simulator

/-! ## Runs -/

namespace ServerlessLLM.Simulator.SegmentMemory

variable {models : Models} {args : Args} {m : SegmentMemory}

/-- The pool between two requests. -/
structure Idle (models : Models) (capacity : Nat) (m : SegmentMemory) : Prop where
  sound : m.Sound
  holds : m.HoldsGroups models
  capacity_eq : m.capacityBytes = capacity
  counted : m.accesses.Counted models

structure StepSound (capacity : Nat) (m : SegmentMemory) (action : Action) (m' : SegmentMemory) : Prop where
  sound : m'.Sound
  capacity_eq : m'.capacityBytes = capacity
  /-- After `begin_request` every allocated extent lies inside the weight capacity. -/
  inside : ∀ kvBytes active, action = .beginRequest kvBytes active → m'.Inside
  /-- No group of the active model is evicted. -/
  kept : ∀ active, action.model = some active → ∀ g, m.Resident (.weight active g) → m'.Resident (.weight active g)

/-- The pool in the middle of a request. -/
structure Busy (models : Models) (capacity : Nat) (t : TensorModel) (m : SegmentMemory) : Prop where
  serving : m.Serving models t
  capacity_eq : m.capacityBytes = capacity
  counted : m.accesses.Counted models

variable {capacity active : Nat} {t : TensorModel}

theorem Idle.goes_begin (hm : m.Idle models capacity) {o : Outlook} {kv : Nat}
    (ht : models.byId.get? active = some t) (hfit : t.logicalBytes + kv ≤ capacity) (tensors : List TensorSpec) :
    (segmentMemory models args).Goes (StepSound capacity) (Busy models capacity t) m
      [.expect o, .beginRequest kv active, .planRequest active tensors] := by
  have hcap := hm.capacity_eq
  have hs : { m with accesses := m.accesses.expect o }.Sound :=
    ⟨hm.sound.layout, hm.sound.apart, hm.sound.positive, hm.sound.indexed⟩
  obtain ⟨cost, m₁, hbegin, hsvg, hcap₁, hacc₁, hkept⟩ := beginRequest_spec args hs hm.holds ht (hfit.trans hcap.ge)
  have hcnt : m₁.accesses.Counted models := hacc₁ ▸ hm.counted
  refine ⟨_, _, rfl, ⟨hs, hcap, nofun, nofun⟩, cost, m₁, hbegin, ⟨hsvg.sound, hcap₁.trans hcap, ?_, ?_⟩,
    _, m₁, rfl, ⟨hsvg.sound, hcap₁.trans hcap, nofun, ?_⟩, ⟨hsvg, hcap₁.trans hcap, hcnt⟩⟩
  · intro _ _ _
    exact hsvg.inside
  · intro active' hact g hres
    obtain rfl : active = active' := Option.some.inj hact
    exact hkept _ rfl hres
  · intro _ _ _ hres
    exact hres

theorem Busy.step_prepare (hpos : models.PositiveGroups) (hnever : args.compactionPolicy ≠ .never)
    (ht : models.byId.get? active = some t) (hm : m.Busy models capacity t) {tensor : TensorSpec} (hten : tensor ∈ t.tensors) :
    ∃ cost m', (segmentMemory models args).step m (.prepareTensor active tensor) = .ok (cost, m') ∧
      StepSound capacity m (.prepareTensor active tensor) m' ∧ m'.Busy models capacity t := by
  obtain ⟨group, hgrp⟩ := TensorModel.exists_group? (models.wellGrouped active t ht) hten
  have hmem := (TensorModel.group?_spec (models.wellGrouped active t ht) hgrp).1
  obtain ⟨cost, m', hok, hsvg, hcap, hacc, hkept⟩ := prepareTensor_spec hm.serving ht hnever hgrp (hpos active t ht group hmem)
  have hcap' : m'.capacityBytes = capacity := hcap.trans hm.capacity_eq
  refine ⟨cost, m', hok, ⟨hsvg.sound, hcap', nofun, ?_⟩, hsvg, hcap', ?_⟩
  · intro active' hact g hres
    obtain rfl : active = active' := Option.some.inj hact
    exact hkept _ rfl hres
  · rw [hacc]
    exact hm.counted

theorem Busy.goes_finish (ht : models.byId.get? active = some t) (hm : m.Busy models capacity t) :
    (segmentMemory models args).Goes (StepSound capacity) (Idle models capacity) m [.finishRequest active] := by
  obtain ⟨a, ha, hcnt⟩ := hm.counted.finishRequest ht
  have hs := hm.serving.sound
  have hs' : { m with accesses := a }.Sound := ⟨hs.layout, hs.apart, hs.positive, hs.indexed⟩
  refine ⟨{}, { m with accesses := a }, ?_, ⟨hs', hm.capacity_eq, nofun, ?_⟩, hs', hm.serving.holds, hm.capacity_eq, hcnt⟩
  · simp only [MemoryBackend.step, segmentMemory, ha]
    rfl
  · intro _ _ _ hres
    exact hres

theorem Idle.goes (hpos : models.PositiveGroups) (hnever : args.compactionPolicy ≠ .never)
    (hm : m.Idle models capacity) {x : Outlook × Request} (hx : Feasible args capacity (physicalModelBytes models) x.2) :
    (segmentMemory models args).Goes (StepSound capacity) (Idle models capacity) m (requestActions models args x) := by
  obtain ⟨footprint, hfoot, hfit⟩ := hx
  obtain ⟨t, ht, rfl⟩ := Option.map_eq_some_iff.1 hfoot
  unfold requestActions
  rw [ht]
  refine MemoryBackend.Goes.append (R := Busy models capacity t) ((hm.goes_begin ht hfit _).append ?_) ?_
  · intro m₁ hm₁
    refine MemoryBackend.Goes.map ?_ hm₁
    intro tensor hten m₂ hm₂
    exact hm₂.step_prepare hpos hnever ht hten
  · intro m₁ hm₁
    exact hm₁.goes_finish ht

def twoModels : Models := MockSegmentMemory.modelsOfTwo

end ServerlessLLM.Simulator.SegmentMemory
