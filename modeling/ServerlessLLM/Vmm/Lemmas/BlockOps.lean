import ServerlessLLM.Vmm.Lemmas.EvictionOps

/-!
# Allocating and releasing KV blocks

`AllocateKVBlocks` takes a block's slots, maps its pages and stores it; `ReleaseKVBlocks` goes the other way. A call that fails
leaves the blocks and the slots as they were.
-/

namespace ServerlessLLM.Vmm

open List Dict Prod Slots Pool

namespace Pool

variable {S : Surroundings} {p p' p'' : Pool} {a : Allocation} {inflight : List (PageAddr × Nat)}
  {lost : List Nat} {logicalId : Nat}
  {protectedFps : List String}

/-! ## The arena -/

theorem KVArena.congr (h : KVArena p) (hg : p'.granularity = p.granularity) (hc : p'.pageCapacity = p.pageCapacity)
    (hs : p'.kvVaSlots = p.kvVaSlots) (hb : p'.kvBlocks = p.kvBlocks) : KVArena p' where
  slots := by rw [hs, hc, h.slots]
  covers := by
    unfold blockSlots
    rw [hs, hb, hg]
    exact h.covers
  blocks := by
    intro e he
    rw [hb] at he
    have hblk := h.blocks e he
    have hpgs : p'.pagesFor e.2.logicalBytes = p.pagesFor e.2.logicalBytes := by
      unfold pagesFor
      rw [hg]
    exact ⟨by rw [hpgs, hg, hblk.pages], by rw [hpgs, hblk.offsets], hblk.logicalBytes_pos⟩

theorem KVArena.sameKV (h : KVArena p) (hs : SameKV p p') : KVArena p' :=
  h.congr hs.granularity hs.capacity hs.kvVaSlots hs.kvBlocks

theorem mappedBytes_div (h : IsBlock p a) : a.mappedBytes / p.granularity = p.pagesFor a.logicalBytes := by
  rw [h.pages, Nat.mul_div_cancel _ p.granularity_pos]

theorem length_held (h : IsBlock p a) : a.held.length = p.pagesFor a.logicalBytes := by
  unfold Allocation.held
  rw [length_map, ← length_map (f := Mapping.virtualOffset), h.offsets, length_range]

theorem Sound.range_of_mapped (h : Sound p [] lost) {addr : PageAddr} {handle : Handle}
    (hm : p.driver.mapped.get? addr = some handle) :
    addr.range ∈ p.ranges ∧
      (addr.range = p.kvVaBase → ∃ e ∈ p.kvBlocks.entries, ∃ m ∈ e.2.mappings, addr.page = e.2.va.page + m.virtualOffset) := by
  have hnd := h.ranges_nodup
  unfold ranges at hnd
  rw [nodup_cons, mem_append, mem_append, not_or, not_or] at hnd
  obtain ⟨⟨hars, hwts, hleg⟩, -⟩ := hnd
  have hmem := h.mapped.mem_iff.1 (mem_entries_iff.2 hm)
  rw [append_nil, mem_append] at hmem
  unfold ranges
  rcases hmem with hhe | halias
  · obtain ⟨⟨addr', id⟩, he, heq⟩ := mem_map.1 hhe
    obtain ⟨rfl, -⟩ := Prod.mk.inj heq
    unfold held allocationHeld at he
    rw [mem_append, mem_append, mem_append] at he
    rcases he with hs | hw | hk | hl
    · obtain ⟨e, he, hpg⟩ := mem_flatMap.1 hs
      unfold StableWeightArena.held at hpg
      obtain ⟨⟨x, i⟩, -, hx⟩ := mem_filterMap.1 hpg
      obtain ⟨id', -, hid⟩ := Option.map_eq_some_iff.1 hx
      obtain ⟨rfl, -⟩ := Prod.mk.inj hid
      have hva : e.2.va ∈ p.arenas.map snd := mem_map.2 ⟨(e.1, e.2.va), mem_map.2 ⟨e, he, rfl⟩, rfl⟩
      exact ⟨mem_cons_of_mem _ (mem_append_left _ hva), fun hba => absurd (hba ▸ hva) hars⟩
    · obtain ⟨e, he, hpg⟩ := mem_flatMap.1 hw
      obtain ⟨m, -, heq⟩ := mem_map.1 hpg
      obtain ⟨rfl, -⟩ := Prod.mk.inj heq
      have hva : e.2.va.range ∈ p.weights.entries.map fun e => e.2.va.range := mem_map.2 ⟨e, he, rfl⟩
      exact ⟨mem_cons_of_mem _ (mem_append_right _ (mem_append_left _ hva)), fun hba => absurd (hba ▸ hva) hwts⟩
    · obtain ⟨e, he, hpg⟩ := mem_flatMap.1 hk
      obtain ⟨m, hmem, heq⟩ := mem_map.1 hpg
      obtain ⟨rfl, -⟩ := Prod.mk.inj heq
      refine ⟨?_, fun _ => ⟨e, he, m, hmem, rfl⟩⟩
      rw [h.kvRange e he]
      exact mem_cons_self
    · obtain ⟨b, hb, hpg⟩ := mem_flatMap.1 hl
      obtain ⟨m, -, heq⟩ := mem_map.1 hpg
      obtain ⟨rfl, -⟩ := Prod.mk.inj heq
      have hva : b.va.range ∈ p.legacyKv.map fun a => a.va.range := mem_map.2 ⟨b, hb, rfl⟩
      exact ⟨mem_cons_of_mem _ (mem_append_right _ (mem_append_right _ hva)), fun hba => absurd (hba ▸ hva) hleg⟩
  · unfold aliased at halias
    obtain ⟨e, he, hpg⟩ := mem_flatMap.1 halias
    obtain ⟨i, -, heq⟩ := mem_map.1 hpg
    obtain ⟨rfl, -⟩ := Prod.mk.inj heq
    obtain ⟨arena, ha⟩ := mem_keys_iff.1 (h.bound e.1 (mem_map_of_mem (f := fst) he))
    have hva : arena.va ∈ p.arenas.map snd :=
      mem_map.2 ⟨(e.1, arena.va), mem_map.2 ⟨(e.1, arena), mem_entries_iff.2 ha, rfl⟩, rfl⟩
    rw [pageAddr_eq ha]
    exact ⟨mem_cons_of_mem _ (mem_append_left _ hva), fun hba => absurd (hba ▸ hva) hars⟩

theorem unmapped_of_isFree (h : Sound p [] lost) (hk : KVArena p) {slot n i : Nat}
    (hfe : Slots.IsFree p.kvVaSlots slot n) (hi : i < n) :
    p.driver.mapped.get? ⟨p.kvVaBase, slot + i⟩ = none := by
  by_contra hso
  obtain ⟨handle, hm⟩ := Option.ne_none_iff_exists'.1 hso
  obtain ⟨e, he, m, hmem, hpg⟩ := (h.range_of_mapped hm).2 rfl
  have hblk := hk.blocks e he
  have hoff : m.virtualOffset < p.pagesFor e.2.logicalBytes := by
    rw [← mem_range, ← hblk.offsets]
    exact mem_map_of_mem hmem
  have hwth : Within (p.blockSlots e.2) (slot + i) := by
    unfold Within blockSlots
    simp only [mappedBytes_div hblk]
    simp only at hpg
    omega
  have hused := hk.covers.getD_eq_true_iff.2 ⟨_, mem_map_of_mem he, hwth⟩
  rw [hfe.2 (slot + i) ⟨by simp, by simpa using hi⟩] at hused
  cases hused

/-! ## First fit -/

theorem findFreeRun_spec {pages : Nat} (hpgs : 0 < pages) (slots before : List Bool) (run : Nat) (hrun : run < pages)
    (hle : run ≤ before.length) (hfe : ∀ i, before.length - run ≤ i → i < before.length →
      (before ++ slots).getD i false = false)
    (hbef : before.length - run = 0 ∨ (before ++ slots).getD (before.length - run - 1) false = true)
    (hno : ∀ s, s + pages ≤ before.length → ¬IsFree (before ++ slots) s pages) :
    (∀ s, findFreeRun pages slots before.length run = some s →
      IsFree (before ++ slots) s pages ∧ ∀ s' < s, ¬IsFree (before ++ slots) s' pages) ∧
      (findFreeRun pages slots before.length run = none → ∀ s, ¬IsFree (before ++ slots) s pages) := by
  induction slots generalizing before run with
  | nil =>
    refine ⟨by simp [findFreeRun], fun _ s hs => hno s ?_ hs⟩
    have hlen := hs.1
    rwa [append_nil] at hlen
  | cons used slots ih =>
    have hspl : before ++ used :: slots = (before ++ [used]) ++ slots := by rw [append_assoc]; rfl
    have hlen : (before ++ [used]).length = before.length + 1 := by rw [length_append]; rfl
    have hused : (before ++ used :: slots).getD before.length false = used := by simp
    unfold findFreeRun
    rw [hspl] at hfe hbef hno hused ⊢
    cases used with
    | true =>
      simp only [if_true]
      rw [if_neg (by omega), ← hlen]
      refine ih (before ++ [true]) 0 hpgs (Nat.zero_le _) (fun i hi hlt => by omega) (.inr ?_) fun s hs hisFree => ?_
      · rw [hlen]
        exact hused
      · -- a run that ends here would have the slot that is in use
        rcases Nat.lt_or_ge before.length (s + pages) with hlt | hge
        · have hfal := hisFree.2 before.length ⟨by simp only; omega, hlt⟩
          rw [hused] at hfal
          cases hfal
        · exact hno s hge hisFree
    | false =>
      simp only [Bool.false_eq_true, if_false]
      have hfe' : ∀ i, before.length - run ≤ i → i < before.length + 1 →
        ((before ++ [false]) ++ slots).getD i false = false := by
        intro i hi hlt
        rcases Nat.lt_or_ge i before.length with hlt' | hge
        · exact hfe i hi hlt'
        · rw [Nat.le_antisymm (Nat.le_of_lt_succ hlt) hge]
          exact hused
      split
      · rename_i heq
        refine ⟨fun s hs => ?_, by simp⟩
        rw [Option.some.injEq] at hs
        refine ⟨⟨?_, fun i hi => hfe' i ?_ ?_⟩, ?_⟩
        · rw [length_append, hlen]
          omega
        · have := hi.1
          simp only at this
          omega
        · have := hi.2
          simp only at this
          omega
        · intro s' hs' hisFree
          -- an earlier run would begin before the slots that are known to be free
          rcases hbef with hzero | htrue
          · omega
          · rcases Nat.lt_or_ge before.length (s' + pages) with hlt | hge
            · have hfal := hisFree.2 (before.length - run - 1) ⟨by simp only; omega, by simp only; omega⟩
              rw [htrue] at hfal
              cases hfal
            · exact hno s' hge hisFree
      · rename_i hne
        rw [← hlen]
        refine ih (before ++ [false]) (run + 1) (by omega) (by omega) (fun i hi hlt => hfe' i (by omega) (by omega)) ?_ ?_
        · rw [hlen, Nat.add_sub_add_right]
          exact hbef
        · intro s hs hisFree
          rcases Nat.lt_or_ge before.length (s + pages) with hlt | hge
          · rcases hbef with hzero | htrue
            · omega
            · have hfal := hisFree.2 (before.length - run - 1) ⟨by simp only; omega, by simp only; omega⟩
              rw [htrue] at hfal
              cases hfal
          · exact hno s hge hisFree

theorem findFreeKVSlot_spec (p : Pool) {pages : Nat} (hpgs : 0 < pages) : (∀ s, p.findFreeKVSlot pages = some s →
      IsFree p.kvVaSlots s pages ∧ ∀ s' < s, ¬IsFree p.kvVaSlots s' pages) ∧
      (p.findFreeKVSlot pages = none → ∀ s, ¬IsFree p.kvVaSlots s pages) := by
  unfold findFreeKVSlot
  split
  · rename_i hbig
    refine ⟨by simp, ?_⟩
    intro _ s hs
    have := hs.1
    omega
  · have hrun := findFreeRun_spec hpgs p.kvVaSlots [] 0 hpgs (Nat.le_refl _) (by simp) (.inl rfl) (fun s hs => by
      simp only [length_nil] at hs
      omega)
    exact hrun

end Pool

namespace Pool

variable {S : Surroundings} {p p' p'' : Pool} {a : Allocation} {inflight : List (PageAddr × Nat)}
  {lost : List Nat} {logicalId : Nat}
  {protectedFps : List String}

/-- What KV operations do to the weights: some may have been evicted. -/
structure Shrunk (protectedFps : List String) (p p' : Pool) : Prop where
  granularity : p'.granularity = p.granularity
  capacity : p'.pageCapacity = p.pageCapacity
  kvVaBase : p'.kvVaBase = p.kvVaBase
  bindings : p'.bindingAliases = p.bindingAliases
  shapes : p'.shapes = p.shapes
  memory : p'.driver.memory = p.driver.memory
  shrinks : ∀ m page id, p'.extentOf m page = some id → p.extentOf m page = some id
  keeps : ∀ m ∈ protectedFps, ∀ page, p'.extentOf m page = p.extentOf m page
  weights : ∀ e ∈ p'.weights.entries, e ∈ p.weights.entries

theorem Shrunk.refl (protectedFps : List String) (p : Pool) : Shrunk protectedFps p p :=
  ⟨rfl, rfl, rfl, rfl, rfl, rfl, fun _ _ _ h => h, fun _ _ _ => rfl, fun _ h => h⟩

theorem Shrunk.trans (h : Shrunk protectedFps p p') (h' : Shrunk protectedFps p' p'') : Shrunk protectedFps p p'' where
  granularity := h'.granularity.trans h.granularity
  capacity := h'.capacity.trans h.capacity
  kvVaBase := h'.kvVaBase.trans h.kvVaBase
  bindings := h'.bindings.trans h.bindings
  shapes := h'.shapes.trans h.shapes
  memory := h'.memory.trans h.memory
  shrinks m page id hid := h.shrinks m page id (h'.shrinks m page id hid)
  keeps m hm page := (h'.keeps m hm page).trans (h.keeps m hm page)
  weights e he := h.weights e (h'.weights e he)

theorem Evicted.shrunk (h : Evicted protectedFps p p') : Shrunk protectedFps p p' :=
  ⟨h.granularity, h.capacity, h.kvVaBase, h.bindings, h.shapes, h.memory, h.shrinks, h.keeps, h.weights⟩

theorem SameTables.shrunk (h : SameTables p p') : Shrunk protectedFps p p' where
  granularity := h.granularity
  capacity := h.capacity
  kvVaBase := h.kvVaBase
  bindings := h.bindings
  shapes := h.sameKV.shapes
  memory := h.memory
  shrinks m page id hid := by rwa [h.extentOf] at hid
  keeps m _ page := h.extentOf m page
  weights e he := by rwa [h.weights] at he

/-! ## Releasing -/

def withoutBlock (p : Pool) (logicalId : Nat) (a : Allocation) : Pool :=
  { p.markKVSlots a.va.page (a.mappedBytes / p.granularity) false with kvBlocks := p.kvBlocks.erase logicalId }

theorem releaseKVBlock_of_none (h : p.kvBlocks.get? logicalId = none) : p.releaseKVBlock logicalId = p := by
  unfold releaseKVBlock
  rw [h]

theorem releaseKVBlock_of_some (h : p.kvBlocks.get? logicalId = some a) :
    p.releaseKVBlock logicalId = (p.withoutBlock logicalId a).release a := by
  unfold releaseKVBlock
  rw [h]
  have htab := sameTables_release p a
  have hrls := release_update
    (fun q => { q with kvVaSlots := mark p.kvVaSlots a.va.page (a.mappedBytes / p.granularity) false
                       kvBlocks := p.kvBlocks.erase logicalId }) (fun _ _ _ => rfl) p a
  refine Eq.trans ?_ hrls.symm
  simp only [markKVSlots, htab.kvVaSlots, htab.kvBlocks, htab.granularity]
  rfl

theorem held_withoutBlock (h : p.kvBlocks.get? logicalId = some a) :
    p.held.Perm (a.held ++ (p.withoutBlock logicalId a).held) := by
  have hpm := (entries_perm_erase h).flatMap_right fun e => e.2.held
  rw [flatMap_cons] at hpm
  unfold held allocationHeld
  refine ((((hpm.append_right _).append_left _).append_left _)).trans ?_
  simp only [append_assoc]
  refine ((perm_append_comm_assoc _ _ _).append_left _).trans ?_
  exact perm_append_comm_assoc _ _ _

theorem Sound.withoutBlock (h : Sound p inflight lost) (ha : p.kvBlocks.get? logicalId = some a) :
    Sound (p.withoutBlock logicalId a) (a.held ++ inflight) lost := by
  refine h.retable rfl rfl rfl rfl rfl ?_ rfl h.ranges_nodup h.ranges_le ?_ h.bound
  · refine ((held_withoutBlock ha).append_right _).trans ?_
    rw [append_assoc]
    exact perm_append_comm_assoc _ _ _
  · intro e he
    exact h.kvRange e (mem_filter.1 he).1

theorem Sound.block_range (h : Sound p inflight lost) (ha : p.kvBlocks.get? logicalId = some a) : a.va.range ≠ 0 := by
  rw [h.kvRange (logicalId, a) (mem_entries_iff.2 ha)]
  exact Nat.pos_iff_ne_zero.1 (h.ranges_le p.kvVaBase mem_cons_self).1

theorem KVArena.withoutBlock (h : KVArena p) (ha : p.kvBlocks.get? logicalId = some a) :
    KVArena (p.withoutBlock logicalId a) where
  slots := by
    change (mark _ _ _ _).length = _
    rw [length_mark, h.slots]
    rfl
  covers := by
    refine Covers.mark_false (h.covers.mono ?_)
    exact (entries_perm_erase ha).map _
  blocks e he :=
    have hblk := h.blocks e (mem_filter.1 he).1
    ⟨hblk.pages, hblk.offsets, hblk.logicalBytes_pos⟩

theorem releaseKVBlock_spec (h : Sound p inflight lost) (hk : KVArena p) (protectedFps : List String) (logicalId : Nat) :
    Sound (p.releaseKVBlock logicalId) inflight lost ∧ KVArena (p.releaseKVBlock logicalId) ∧
      Shrunk protectedFps p (p.releaseKVBlock logicalId) ∧ (p.releaseKVBlock logicalId).log = p.log ∧
      (p.releaseKVBlock logicalId).legacyKv = p.legacyKv ∧ (p.releaseKVBlock logicalId).stableWeights = p.stableWeights ∧
      (p.releaseKVBlock logicalId).kvBlocks.entries = p.kvBlocks.entries.filter fun e => e.1 ≠ logicalId := by
  cases ha : p.kvBlocks.get? logicalId with
  | none =>
    rw [releaseKVBlock_of_none ha]
    refine ⟨h, hk, Shrunk.refl _ p, rfl, rfl, rfl, (filter_eq_self.2 ?_).symm⟩
    intro e he
    refine decide_eq_true fun heq => get?_eq_none_iff.1 ha ?_
    rw [← heq]
    exact mem_map_of_mem (f := fst) he
  | some a =>
    rw [releaseKVBlock_of_some ha]
    have htab := sameTables_release (p.withoutBlock logicalId a) a
    have hshr : Shrunk protectedFps p (p.withoutBlock logicalId a) :=
      ⟨rfl, rfl, rfl, rfl, rfl, rfl, fun _ _ _ hid => hid, fun _ _ _ => rfl, fun _ he => he⟩
    refine ⟨(h.withoutBlock ha).release (h.block_range ha), (hk.withoutBlock ha).sameKV htab.sameKV,
      hshr.trans htab.shrunk, log_release _ a, htab.legacyKv, htab.stableWeights, ?_⟩
    rw [htab.kvBlocks]
    rfl

theorem releaseKVBlocks_spec (h : Sound p inflight lost) (hk : KVArena p) (protectedFps : List String) (ids : List Nat) :
    Sound (p.releaseKVBlocks ids) inflight lost ∧ KVArena (p.releaseKVBlocks ids) ∧
      Shrunk protectedFps p (p.releaseKVBlocks ids) ∧ (p.releaseKVBlocks ids).log = p.log ∧
      (p.releaseKVBlocks ids).legacyKv = p.legacyKv ∧ (p.releaseKVBlocks ids).stableWeights = p.stableWeights ∧
      (p.releaseKVBlocks ids).kvBlocks.entries = p.kvBlocks.entries.filter fun e => e.1 ∉ ids := by
  unfold releaseKVBlocks
  induction ids generalizing p with
  | nil =>
    refine ⟨h, hk, Shrunk.refl _ p, rfl, rfl, rfl, (filter_eq_self.2 ?_).symm⟩
    intro _ _
    exact decide_eq_true not_mem_nil
  | cons id ids ih =>
    obtain ⟨h₁, hk₁, hshr, hlog, hleg, hstb, hent⟩ := releaseKVBlock_spec h hk protectedFps id
    obtain ⟨h', hk', hshr', hlog', hleg', hstb', hent'⟩ := ih h₁ hk₁
    refine ⟨h', hk', hshr.trans hshr', hlog'.trans hlog, hleg'.trans hleg, hstb'.trans hstb, ?_⟩
    rw [foldl_cons, hent', hent, filter_filter]
    refine filter_congr ?_
    intro e _
    simp only [mem_cons, not_or, Bool.decide_and, Bool.and_comm]

/-! ## Allocating -/

theorem like_markKVSlots (p : Pool) (start n : Nat) (used : Bool) : Like p (p.markKVSlots start n used) :=
  ⟨⟨rfl, rfl, rfl, rfl, Nat.le_refl _, rfl, rfl⟩, rfl, rfl, rfl, rfl, rfl⟩

theorem pagesFor_pos {n : Nat} (p : Pool) (hn : 0 < n) : 0 < p.pagesFor n := by
  unfold pagesFor
  have := p.granularity_pos
  exact Nat.div_pos (by omega) p.granularity_pos

theorem lt_pagesFor {x n : Nat} (p : Pool) (hx : x < n) : x / p.granularity < p.pagesFor n := by
  have hps := p.granularity_pos
  unfold pagesFor
  calc x / p.granularity < (x + p.granularity) / p.granularity := by rw [Nat.add_div_right _ hps]; exact Nat.lt_succ_self _
    _ ≤ (n + p.granularity - 1) / p.granularity := Nat.div_le_div_right (by omega)

theorem Sound.storeBlock (h : Sound p (a.held ++ inflight) lost) (hid : logicalId ∉ p.kvBlocks.keys)
    (ha : a.va.range = p.kvVaBase) :
    Sound { p with kvBlocks := p.kvBlocks.set logicalId a } inflight lost := by
  refine h.retable rfl rfl rfl rfl rfl ?_ rfl h.ranges_nodup h.ranges_le ?_ h.bound
  · unfold held allocationHeld stableHeld
    simp only [entries_set_of_not_mem hid, flatMap_append, flatMap_cons, flatMap_nil, append_nil, append_assoc]
    refine ((List.Perm.append_left _ ?_).append_left _).append_left _
    exact perm_append_comm_assoc _ _ _
  · intro e he
    simp only [entries_set_of_not_mem hid, mem_append, mem_singleton] at he
    rcases he with he | rfl
    · exact h.kvRange e he
    · exact ha

/-- Why a block is not allocated, for a block of so many pages. -/
def Refused (S : Surroundings) (p : Pool) (lost : List Nat) (protectedFps : List String) (pages : Nat) : KVFailure → Prop
  | .noBlockSize => False
  | .noPages => p.freePages + (p.reclaimableHeld protectedFps).length < pages
  | .noFreeSlot => pages ≤ p.freePages + (p.reclaimableHeld protectedFps).length ∧ ∀ s, ¬IsFree p.kvVaSlots s pages
  | .notMapped => ¬(S.NoFailure ∧ lost = [])

/-- What allocating blocks leaves, whether it succeeds or not. -/
structure KVStep (S : Surroundings) (lost : List Nat) (protectedFps : List String) (p p' : Pool) : Prop where
  arena : KVArena p'
  shrunk : Shrunk protectedFps p p'
  legacyKv : p'.legacyKv = p.legacyKv
  sound : ∃ lost', Sound p' [] lost' ∧ (S.MapsExtents → lost' = lost)
  log : S.MapsExtents → lost = [] → ∀ f ∈ p'.log, f ∈ p.log ∨ ∃ c, f = .cuda c

theorem KVStep.trans (h : KVStep S lost protectedFps p p')
    (h' : ∀ lost', Sound p' [] lost' → KVStep S lost' protectedFps p' p'') : KVStep S lost protectedFps p p'' := by
  obtain ⟨lost', hsnd, hlost⟩ := h.sound
  have hst := h' lost' hsnd
  obtain ⟨lost'', hsnd', hlost'⟩ := hst.sound
  refine ⟨hst.arena, h.shrunk.trans hst.shrunk, hst.legacyKv.trans h.legacyKv,
    ⟨lost'', hsnd', fun hS => (hlost' hS).trans (hlost hS)⟩, ?_⟩
  intro hS hnil f hf
  rcases hst.log hS ((hlost hS).trans hnil) f hf with hf | hf
  · exact h.log hS hnil f hf
  · exact .inr hf

theorem Evicted.kvStep (h : Evicted protectedFps p p') (hs : Sound p' [] lost) (hk : KVArena p') :
    KVStep S lost protectedFps p p' :=
  ⟨hk, h.shrunk, h.legacyKv, ⟨lost, hs, fun _ => rfl⟩, fun _ _ f hf => .inl (by rwa [h.log] at hf)⟩

theorem KVArena.storeBlock {p₂ : Pool} {blockSize slot : Nat} {a : Allocation} (hk : KVArena p)
    (hgra : p₂.granularity = p.granularity)
    (hcap : p₂.pageCapacity = p.pageCapacity) (hks : p₂.kvBlocks = p.kvBlocks)
    (hmrk : p₂.kvVaSlots = mark p.kvVaSlots slot (p.pagesFor blockSize) true)
    (hfe : IsFree p.kvVaSlots slot (p.pagesFor blockSize)) (hid : logicalId ∉ p₂.kvBlocks.keys) (hblk : IsBlock p a)
    (hslot : a.va.page = slot) (hpgs : a.mappedBytes / p.granularity = p.pagesFor blockSize) :
    KVArena { p₂ with kvBlocks := p₂.kvBlocks.set logicalId a } := by
  have hent : (p₂.kvBlocks.set logicalId a).entries = p.kvBlocks.entries ++ [(logicalId, a)] := by
    rw [entries_set_of_not_mem hid, hks]
  have hcongr : ∀ b, p.IsBlock b → IsBlock { p₂ with kvBlocks := p₂.kvBlocks.set logicalId a } b := by
    intro b hb
    have hfor : pagesFor { p₂ with kvBlocks := p₂.kvBlocks.set logicalId a } b.logicalBytes = p.pagesFor b.logicalBytes := by
      unfold pagesFor
      simp only [hgra]
    refine ⟨?_, ?_, hb.logicalBytes_pos⟩
    · rw [hfor, hb.pages]
      simp only [hgra]
    · rw [hfor, hb.offsets]
  refine ⟨?_, ?_, fun e he => hcongr _ ?_⟩
  · rw [hmrk, length_mark, hk.slots]
    exact hcap.symm
  · simp only [hent, hmrk, map_append, map_cons, map_nil]
    refine Covers.mono ?_ perm_append_comm
    unfold blockSlots
    simp only [hgra, hslot, hpgs, singleton_append]
    exact hk.covers.mark_true hfe
  · simp only [hent, mem_append, mem_singleton] at he
    rcases he with he | rfl
    · exact hk.blocks e he
    · exact hblk

theorem placeKVBlock_spec (S : Surroundings) (protectedFps : List String) {blockSize slot : Nat}
    (h : Sound p [] lost) (hk : KVArena p)
    (hsz : 0 < blockSize) (hid : logicalId ∉ p.kvBlocks.keys) (hfe : IsFree p.kvVaSlots slot (p.pagesFor blockSize))
    (hen : p.pagesFor blockSize ≤ p.freePages) :
    ∃ r p', p.placeKVBlock S blockSize logicalId slot = (r, p') ∧ KVStep S lost protectedFps p p' ∧
      (∀ e, r = .error e → p'.kvBlocks = p.kvBlocks ∧ p'.kvVaSlots = p.kvVaSlots ∧ e = .notMapped ∧
        ¬(S.NoFailure ∧ lost = [])) ∧
      ∀ offset, r = .ok offset → ∃ a, p'.kvBlocks = p.kvBlocks.set logicalId a ∧ offset = slot * p.granularity ∧
        a.va.page = slot ∧ a.logicalBytes = blockSize ∧
        p'.freePages + (p'.reclaimableHeld protectedFps).length + p.pagesFor blockSize =
          p.freePages + (p.reclaimableHeld protectedFps).length := by
  let q := p.markKVSlots slot (p.pagesFor blockSize) true
  let new : Allocation := ⟨⟨p.kvVaBase, slot⟩, blockSize, p.pagesFor blockSize * p.granularity, [], 1, 0⟩
  have hq : Sound q [] lost := h.like (like_markKVSlots p _ _ _)
  have hrng : p.kvVaBase ≠ 0 := Nat.pos_iff_ne_zero.1 (h.ranges_le p.kvVaBase mem_cons_self).1
  have hpgs : new.mappedBytes / q.granularity = p.pagesFor blockSize := Nat.mul_div_cancel _ p.granularity_pos
  have hunm : ∀ i, i < new.mappedBytes / q.granularity → q.driver.mapped.get? ⟨new.va.range, new.va.page + i⟩ = none := by
    rw [hpgs]
    exact fun i hi => unmapped_of_isFree h hk hfe hi
  obtain ⟨r, p₂, hmap, htab, ⟨lost', hstd, hrel, hlost⟩, hshp, hlogs, hok⟩ :=
    mapAtReservedAddress_spec S (a := new) hq hrng rfl
  have hmrk : p₂.kvVaSlots = mark p.kvVaSlots slot (p.pagesFor blockSize) true := htab.kvVaSlots
  have hgra : p₂.granularity = p.granularity := htab.granularity
  have hlen : lost = [] → new.mappedBytes / q.granularity ≤ q.freeExtentIds.length := by
    intro hnil
    subst hnil
    rw [hpgs, ← hq.freePages]
    exact hen
  have hlog : S.MapsExtents → lost = [] → ∀ f ∈ p₂.log, f ∈ p.log ∨ ∃ c, f = .cuda c := fun _ hnil => hlogs (hlen hnil)
  have hshr : Shrunk protectedFps p p₂ := by
    have hmark : Shrunk protectedFps p q :=
      ⟨rfl, rfl, rfl, rfl, rfl, rfl, fun _ _ _ hid => hid, fun _ _ _ => rfl, fun _ he => he⟩
    exact hmark.trans htab.shrunk
  unfold placeKVBlock
  dsimp only
  rw [hmap]
  cases r with
  | none =>
    have hslots : (p₂.markKVSlots slot (p.pagesFor blockSize) false).kvVaSlots = p.kvVaSlots := by
      change mark p₂.kvVaSlots _ _ _ = _
      rw [hmrk, mark_mark_of_isFree hfe]
    have hbks : (p₂.markKVSlots slot (p.pagesFor blockSize) false).kvBlocks = p.kvBlocks := htab.kvBlocks
    have hmark : Shrunk protectedFps p₂ (p₂.markKVSlots slot (p.pagesFor blockSize) false) :=
      ⟨rfl, rfl, rfl, rfl, rfl, rfl, fun _ _ _ hid => hid, fun _ _ _ => rfl, fun _ he => he⟩
    refine ⟨_, _, rfl, ⟨hk.congr hgra htab.capacity hslots hbks, hshr.trans hmark, htab.legacyKv,
      ⟨lost', (hrel rfl).like (like_markKVSlots p₂ _ _ _), fun hS => hlost hS hunm⟩, hlog⟩, ?_, by simp⟩
    rintro e ⟨⟩
    refine ⟨hbks, hslots, rfl, ?_⟩
    rintro ⟨hS, hnil⟩
    exact (hok (hlen hnil) hS hunm).1 rfl
  | some a =>
    obtain ⟨hva, hlogical, hbyt, hofs⟩ := hshp a rfl
    have hks : p₂.kvBlocks = p.kvBlocks := htab.kvBlocks
    have hrng' : a.va.range = p₂.kvVaBase := by
      rw [hva, htab.kvVaBase]
      rfl
    have hid₂ : logicalId ∉ p₂.kvBlocks.keys := by rwa [hks]
    have hstoredSound := hstd a rfl
    rw [append_nil] at hstoredSound
    have hsnd : Sound { p₂ with kvBlocks := p₂.kvBlocks.set logicalId a } [] lost' := by
      refine Sound.storeBlock ?_ hid₂ hrng'
      rwa [append_nil]
    have hblk : IsBlock p a := by
      refine ⟨?_, ?_, ?_⟩
      · rw [hbyt, hlogical]
      · rw [hofs, hpgs, hlogical]
      · rw [hlogical]
        exact hsz
    have har : KVArena { p₂ with kvBlocks := p₂.kvBlocks.set logicalId a } :=
      hk.storeBlock hgra htab.capacity hks hmrk hfe hid₂ hblk (by rw [hva]) (by rw [hbyt, ← hpgs]; rfl)
    have hst : KVStep S lost protectedFps p { p₂ with kvBlocks := p₂.kvBlocks.set logicalId a } := by
      refine ⟨har, hshr.trans ?_, htab.legacyKv, ⟨lost', hsnd, fun hS => hlost hS hunm⟩, hlog⟩
      exact ⟨rfl, rfl, rfl, rfl, rfl, rfl, fun _ _ _ hid => hid, fun _ _ _ => rfl, fun _ he => he⟩
    refine ⟨_, _, rfl, hst, by simp, ?_⟩
    rintro offset ⟨⟩
    refine ⟨a, by rw [hks], by rw [hva, hgra], by rw [hva], hlogical, ?_⟩
    have hrcl : reclaimableHeld { p₂ with kvBlocks := p₂.kvBlocks.set logicalId a } protectedFps =
      p.reclaimableHeld protectedFps := by
      unfold reclaimableHeld stableHeldOf weightsHeldOf
      simp only [htab.stableWeights, htab.weights]
      rfl
    have hused : p₂.usedPages = p.usedPages + p.pagesFor blockSize := by
      rw [hstoredSound.used, htab.held, h.used, append_nil, length_append, length_held hblk, hlogical]
      rfl
    have hle := hsnd.usedPages_le
    have hcap : p₂.pageCapacity = p.pageCapacity := htab.capacity
    rw [hrcl]
    unfold freePages
    simp only at hle ⊢
    omega

theorem allocateKVBlock_spec (S : Surroundings) (protectedFps : List String) {blockSize : Nat}
    (h : Sound p [] lost) (hk : KVArena p)
    (hsz : 0 < blockSize) (hid : logicalId ∉ p.kvBlocks.keys) :
    ∃ r p', p.allocateKVBlock S blockSize logicalId protectedFps = (r, p') ∧ KVStep S lost protectedFps p p' ∧
      (∀ e, r = .error e → p'.kvBlocks = p.kvBlocks ∧ p'.kvVaSlots = p.kvVaSlots ∧
        Refused S p lost protectedFps (p.pagesFor blockSize) e) ∧
      ∀ offset, r = .ok offset → ∃ a, p'.kvBlocks = p.kvBlocks.set logicalId a ∧ offset = a.va.page * p.granularity ∧
        a.logicalBytes = blockSize ∧ IsFree p.kvVaSlots a.va.page (p.pagesFor blockSize) ∧
        (∀ s < a.va.page, ¬IsFree p.kvVaSlots s (p.pagesFor blockSize)) ∧
        p'.freePages + (p'.reclaimableHeld protectedFps).length + p.pagesFor blockSize =
          p.freePages + (p.reclaimableHeld protectedFps).length := by
  obtain ⟨b, p₁, heq, h₁, hev, hen, hfe₁⟩ := ensurePages_spec S (p.pagesFor blockSize) protectedFps h
  have hk₁ := hk.sameKV hev.toSameKV
  have hfor : p₁.pagesFor blockSize = p.pagesFor blockSize := by
    unfold pagesFor
    rw [hev.granularity]
  unfold allocateKVBlock
  simp only [heq]
  cases b with
  | false =>
    refine ⟨_, p₁, rfl, hev.kvStep h₁ hk₁, ?_, by simp⟩
    rintro e ⟨⟩
    refine ⟨hev.kvBlocks, hev.kvVaSlots, Nat.lt_of_not_le ?_⟩
    intro hle
    cases hen.2 hle
  | true =>
    obtain ⟨hfnd, hnotFound⟩ := findFreeKVSlot_spec p₁ (pagesFor_pos p hsz)
    cases hslot : p₁.findFreeKVSlot (p.pagesFor blockSize) with
    | none =>
      simp only [hslot]
      refine ⟨_, p₁, rfl, hev.kvStep h₁ hk₁, ?_, by simp⟩
      rintro e ⟨⟩
      refine ⟨hev.kvBlocks, hev.kvVaSlots, hen.1 rfl, ?_⟩
      rw [← hev.kvVaSlots]
      exact hnotFound hslot
    | some slot =>
      simp only [hslot]
      obtain ⟨hisFree, hfst⟩ := hfnd slot hslot
      rw [← hfor] at hisFree hfst
      have hid₁ : logicalId ∉ p₁.kvBlocks.keys := by rwa [hev.kvBlocks]
      have hen₁ : p₁.pagesFor blockSize ≤ p₁.freePages := by
        rw [hfor]
        exact hfe₁ rfl
      obtain ⟨r, p', hplace, hst, herr, hok⟩ := placeKVBlock_spec S protectedFps h₁ hk₁ hsz hid₁ hisFree hen₁
      refine ⟨r, p', hplace, (hev.kvStep h₁ hk₁).trans ?_, ?_, ?_⟩
      · intro lost' hs
        obtain ⟨r', p'', hplace', hst', -⟩ := placeKVBlock_spec S protectedFps hs hk₁ hsz hid₁ hisFree hen₁
        obtain ⟨-, rfl⟩ := Prod.mk.inj (hplace'.symm.trans hplace)
        exact hst'
      · intro e he
        obtain ⟨hbks, hslots, rfl, hfail⟩ := herr e he
        exact ⟨hbks.trans hev.kvBlocks, hslots.trans hev.kvVaSlots, hfail⟩
      · intro offset ho
        obtain ⟨a, hbks, hoff, hpg, hlog, hsum⟩ := hok offset ho
        rw [hfor, hev.kvVaSlots] at hisFree hfst
        rw [hfor, hev.sum] at hsum
        rw [← hpg] at hisFree hfst
        refine ⟨a, by rw [hbks, hev.kvBlocks], ?_, hlog, hisFree, hfst, hsum⟩
        rw [hoff, hpg, hev.granularity]

end Pool

end ServerlessLLM.Vmm
