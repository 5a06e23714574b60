import Mathlib.Data.List.Flatten
import ServerlessLLM.Vmm.Lemmas.BindingOps
import ServerlessLLM.Vmm.Lemmas.BlockOps

/-!
# Allocations with a range of their own

`Map` reserves a range that no page of the pool lies in. `MapKV` and `MapWeight` store what it maps, and `CleanKV` and `Clear`
give everything back.
-/

namespace ServerlessLLM.Vmm

open List Dict Slots Pool

namespace Pool

variable {S : Surroundings} {p p' : Pool} {lost : List Nat} {protectedFps : List String} {blockSize : Nat}

def offsetOf (p : Pool) (logicalId : Nat) : Option Nat := (p.kvBlocks.get? logicalId).map fun a => a.va.page * p.granularity

theorem Covers_unique {slots slots' : List Bool} {blocks : List (Nat × Nat)} (h : Slots.Covers slots blocks)
    (h' : Slots.Covers slots' blocks)
    (hlen : slots'.length = slots.length) : slots' = slots := by
  refine ext_getD hlen ?_
  intro i
  have hcnt := (h'.count i).symm.trans (h.count i)
  cases hs : slots.getD i false <;> cases hs' : slots'.getD i false <;> simp_all

theorem KVArena.slots_eq (h : KVArena p) (h' : KVArena p') (hg : p'.granularity = p.granularity)
    (hc : p'.pageCapacity = p.pageCapacity)
    (hb : p'.kvBlocks = p.kvBlocks) : p'.kvVaSlots = p.kvVaSlots := by
  have hcov := h'.covers
  unfold blockSlots at hcov
  rw [hb, hg] at hcov
  exact Covers_unique h.covers hcov (by rw [h'.slots, h.slots, hc])

theorem dict_ext {κ ν : Type} {d d' : Dict κ ν} (h : d.entries = d'.entries) : d = d' := by
  cases d
  cases d'
  simp only at h
  subst h
  rfl

theorem kvStep_releaseKVBlocks (h : Sound p [] lost) (hk : KVArena p) (ids : List Nat) :
    KVStep S lost protectedFps p (p.releaseKVBlocks ids) := by
  obtain ⟨h', hk', hshr, hlog, hleg, -⟩ := releaseKVBlocks_spec h hk protectedFps ids
  exact ⟨hk', hshr, hleg, ⟨lost, h', fun _ => rfl⟩, fun _ _ f hf => .inl (by rwa [hlog] at hf)⟩

theorem allocateKVBlocksLoop_spec (S : Surroundings) (protectedFps : List String) (hsz : 0 < blockSize)
    (ids offsets newly : List Nat)
    (h : Sound p [] lost) (hk : KVArena p) :
    ∃ r p', allocateKVBlocksLoop S blockSize protectedFps ids offsets newly p = (r, p') ∧ KVStep S lost protectedFps p p' ∧
      (∀ e, r = .error e → p'.kvBlocks.entries = p.kvBlocks.entries.filter fun e => e.1 ∉ newly) ∧
      ∀ out, r = .ok out → (∃ l, out = offsets ++ l ∧ l.map some = ids.map p'.offsetOf) ∧
        (∀ id a, p.kvBlocks.get? id = some a → p'.kvBlocks.get? id = some a) ∧
        ∀ id a, p'.kvBlocks.get? id = some a → p.kvBlocks.get? id = some a ∨ id ∈ ids ∧ a.logicalBytes = blockSize := by
  induction ids generalizing p offsets newly lost with
  | nil =>
    refine ⟨_, p, rfl, (Evicted.refl _ p).kvStep h hk, by simp, ?_⟩
    rintro out ⟨⟩
    exact ⟨⟨[], by simp, rfl⟩, fun _ _ ha => ha, fun _ _ ha => .inl ha⟩
  | cons id ids ih =>
    unfold allocateKVBlocksLoop
    cases ha : p.kvBlocks.get? id with
    | some a =>
      obtain ⟨r, p', heq, hst, herr, hok⟩ := ih (offsets ++ [a.va.page * p.granularity]) newly h hk
      refine ⟨r, p', heq, hst, herr, ?_⟩
      intro out ho
      obtain ⟨⟨l, hout, hl⟩, hold, hnew⟩ := hok out ho
      refine ⟨⟨a.va.page * p.granularity :: l, by rw [hout, append_assoc]; rfl, ?_⟩, hold, fun id' a' ha' => ?_⟩
      · rw [map_cons, map_cons, hl]
        unfold offsetOf
        rw [hold id a ha, hst.shrunk.granularity]
        rfl
      · exact (hnew id' a' ha').imp_right fun hboth => ⟨mem_cons_of_mem _ hboth.1, hboth.2⟩
    | none =>
      have hid : id ∉ p.kvBlocks.keys := get?_eq_none_iff.1 ha
      obtain ⟨r, p₁, heq, hst, herr, hok⟩ := allocateKVBlock_spec S protectedFps h hk hsz hid
      simp only [heq]
      cases r with
      | error e =>
        obtain ⟨lost', hs, -⟩ := hst.sound
        have hrls := (releaseKVBlocks_spec hs hst.arena protectedFps newly).2.2.2.2.2.2
        refine ⟨_, _, rfl, hst.trans fun lost' hs => kvStep_releaseKVBlocks hs hst.arena newly, ?_, by simp⟩
        intro e' _
        rw [hrls, (herr e rfl).1]
      | ok offset =>
        obtain ⟨a, hbks, hoff, hlog, -⟩ := hok offset rfl
        obtain ⟨lost₁, hs₁, -⟩ := hst.sound
        obtain ⟨r, p', heq', -, herr', hok'⟩ := ih (offsets ++ [offset]) (newly ++ [id]) hs₁ hst.arena
        have hget : ∀ id', p₁.kvBlocks.get? id' = if id' = id then some a else p.kvBlocks.get? id' := by
          intro id'
          rw [hbks, get?_set]
        have hst' : KVStep S lost protectedFps p p' := by
          refine hst.trans ?_
          intro lost' hs
          obtain ⟨r', p'', heq'', hst'', -⟩ := ih (offsets ++ [offset]) (newly ++ [id]) hs hst.arena
          obtain ⟨-, rfl⟩ := Prod.mk.inj (heq''.symm.trans heq')
          exact hst''
        refine ⟨r, p', heq', hst', ?_, ?_⟩
        · intro e he
          -- the new block comes last, and goes with the others
          rw [herr' e he, hbks, entries_set_of_not_mem hid, filter_append,
            filter_cons_of_neg (by simp), filter_nil, append_nil]
          refine filter_congr ?_
          intro b hb
          have hne : b.1 ≠ id := fun heq => hid (heq ▸ mem_map_of_mem (f := Prod.fst) hb)
          simp [hne]
        · intro out ho
          obtain ⟨⟨l, hout, hl⟩, hold, hnew⟩ := hok' out ho
          refine ⟨⟨offset :: l, by rw [hout, append_assoc]; rfl, ?_⟩, fun id' a' ha' => ?_, fun id' a' ha' => ?_⟩
          · rw [map_cons, map_cons, hl]
            unfold offsetOf
            rw [hold id a (by rw [hget, if_pos rfl]), hst'.shrunk.granularity, hoff]
            rfl
          · refine hold id' a' ?_
            rw [hget, if_neg]
            · exact ha'
            · rintro rfl
              rw [ha] at ha'
              cases ha'
          · rcases hnew id' a' ha' with hmid | ⟨hmem, hbyt⟩
            · rw [hget] at hmid
              split at hmid
              · rename_i heqid
                rw [← Option.some.inj hmid, heqid]
                exact .inr ⟨mem_cons_self, hlog⟩
              · exact .inl hmid
            · exact .inr ⟨mem_cons_of_mem _ hmem, hbyt⟩

theorem allocateKVBlocks_spec (S : Surroundings) (blockSize : Nat) (ids : List Nat) (protectedFps : List String)
    (h : Sound p [] lost)
    (hk : KVArena p) :
    ∃ r p', p.allocateKVBlocks S blockSize ids protectedFps = (r, p') ∧ KVStep S lost protectedFps p p' ∧
      (∀ e, r = .error e → p'.kvBlocks = p.kvBlocks ∧ p'.kvVaSlots = p.kvVaSlots) ∧
      ∀ offsets, r = .ok offsets → offsets.map some = ids.map p'.offsetOf ∧
        (∀ id a, p.kvBlocks.get? id = some a → p'.kvBlocks.get? id = some a) ∧
        ∀ id a, p'.kvBlocks.get? id = some a → p.kvBlocks.get? id = some a ∨ id ∈ ids ∧ a.logicalBytes = blockSize := by
  unfold allocateKVBlocks
  split
  · exact ⟨_, p, rfl, (Evicted.refl _ p).kvStep h hk, fun _ _ => ⟨rfl, rfl⟩, by simp⟩
  · rename_i hsz
    obtain ⟨r, p', heq, hst, herr, hok⟩ := allocateKVBlocksLoop_spec S protectedFps (Nat.pos_of_ne_zero hsz) ids [] [] h hk
    refine ⟨r, p', heq, hst, ?_, ?_⟩
    · intro e he
      have hbks : p'.kvBlocks = p.kvBlocks := dict_ext <| by
        rw [herr e he, filter_eq_self.2]
        intro b _
        exact decide_eq_true not_mem_nil
      exact ⟨hbks, hk.slots_eq hst.arena hst.shrunk.granularity hst.shrunk.capacity hbks⟩
    · intro offsets ho
      obtain ⟨⟨l, hout, hl⟩, hrs⟩ := hok offsets ho
      rw [nil_append] at hout
      rw [hout]
      exact ⟨hl, hrs⟩

/-! ## Blocks of one size -/

/-- All blocks have one size, and lie at multiples of their length. -/
def Uniform (blockSize : Nat) (p : Pool) : Prop :=
  ∀ e ∈ p.kvBlocks.entries, e.2.logicalBytes = blockSize ∧ p.pagesFor blockSize ∣ e.2.va.page

theorem Uniform.aligned (h : Uniform blockSize p) (hk : KVArena p) :
    Aligned (p.pagesFor blockSize) (p.kvBlocks.entries.map fun e => p.blockSlots e.2) := by
  intro b hb
  obtain ⟨e, he, rfl⟩ := mem_map.1 hb
  obtain ⟨hbyt, hdvd⟩ := h e he
  refine ⟨hdvd, ?_⟩
  unfold blockSlots
  simp only
  rw [mappedBytes_div (hk.blocks e he), hbyt]

theorem reclaimable_add_blocks_le (h : Sound p [] lost) (protectedFps : List String) :
    (p.reclaimableHeld protectedFps).length + (p.kvBlocks.entries.flatMap fun e => e.2.held).length ≤ p.usedPages := by
  have hstb : (p.stableHeldOf (· ∉ protectedFps)).length ≤ p.stableHeld.length := by
    unfold stableHeldOf stableHeld
    exact (filter_sublist.flatMap _).length_le
  have hwts : (p.weightsHeldOf (· ∉ protectedFps)).length ≤ (p.weights.entries.flatMap fun e => e.2.held).length := by
    unfold weightsHeldOf
    exact (filter_sublist.flatMap _).length_le
  rw [h.used, append_nil]
  unfold reclaimableHeld held allocationHeld
  simp only [length_append]
  omega

theorem Uniform.length_blocks (h : Uniform blockSize p) (hk : KVArena p) :
    (p.kvBlocks.entries.flatMap fun e => e.2.held).length = p.kvBlocks.entries.length * p.pagesFor blockSize := by
  rw [length_flatMap, map_congr_left (g := fun _ => p.pagesFor blockSize)]
  · rw [map_const', sum_replicate_nat]
  · intro e he
    rw [length_held (hk.blocks e he), (h e he).1]

theorem Uniform.exists_isFree (h : Uniform blockSize p) (hk : KVArena p) (hs : Sound p [] lost) (hsz : 0 < blockSize)
    (hen : p.pagesFor blockSize ≤ p.freePages + (p.reclaimableHeld protectedFps).length) :
    ∃ s, IsFree p.kvVaSlots s (p.pagesFor blockSize) := by
  refine hk.covers.exists_isFree (h.aligned hk) (pagesFor_pos p hsz) ?_
  have hle := reclaimable_add_blocks_le hs protectedFps
  have hused := hs.usedPages_le
  rw [h.length_blocks hk] at hle
  rw [length_map, hk.slots, Nat.add_mul, Nat.one_mul]
  unfold freePages at hen
  omega

theorem Uniform.allocateKVBlock {logicalId : Nat} (S : Surroundings) (protectedFps : List String) (hu : Uniform blockSize p)
    (hs : Sound p [] lost) (hk : KVArena p) (hsz : 0 < blockSize) (hid : logicalId ∉ p.kvBlocks.keys) :
    Uniform blockSize (p.allocateKVBlock S blockSize logicalId protectedFps).2 ∧
      (p.allocateKVBlock S blockSize logicalId protectedFps).1 ≠ .error .noFreeSlot := by
  obtain ⟨r, p', heq, hst, herr, hok⟩ := allocateKVBlock_spec S protectedFps hs hk hsz hid
  rw [heq]
  have hfor : p'.pagesFor blockSize = p.pagesFor blockSize := by
    unfold pagesFor
    rw [hst.shrunk.granularity]
  constructor
  · intro e he
    change e ∈ p'.kvBlocks.entries at he
    change _ ∧ p'.pagesFor blockSize ∣ _
    rw [hfor]
    cases r with
    | error err =>
      rw [(herr err rfl).1] at he
      exact hu e he
    | ok offset =>
      obtain ⟨a, hbks, -, hlog, hfe, hfst, -⟩ := hok offset rfl
      rw [hbks, entries_set_of_not_mem hid, mem_append, mem_singleton] at he
      rcases he with he | rfl
      · exact hu e he
      · exact ⟨hlog, hk.covers.dvd_of_first (hu.aligned hk) (pagesFor_pos p hsz) hfe hfst⟩
  · rintro rfl
    obtain ⟨-, -, hen, hno⟩ := herr _ rfl
    obtain ⟨s, hfe⟩ := hu.exists_isFree hk hs hsz hen
    exact hno s hfe

theorem Uniform.of_subset (hu : Uniform blockSize p) (hg : p'.granularity = p.granularity)
    (hsub : ∀ e ∈ p'.kvBlocks.entries, e ∈ p.kvBlocks.entries) : Uniform blockSize p' := by
  intro e he
  unfold pagesFor
  rw [hg]
  exact hu e (hsub e he)

theorem Uniform.allocateKVBlocksLoop (hu : Uniform blockSize p) (hs : Sound p [] lost) (hk : KVArena p) (hsz : 0 < blockSize)
    (ids offsets newly : List Nat) :
    Uniform blockSize (allocateKVBlocksLoop S blockSize protectedFps ids offsets newly p).2 ∧
      (allocateKVBlocksLoop S blockSize protectedFps ids offsets newly p).1 ≠ .error .noFreeSlot := by
  induction ids generalizing p offsets newly lost with
  | nil => exact ⟨hu, by simp [allocateKVBlocksLoop]⟩
  | cons id ids ih =>
    unfold allocateKVBlocksLoop
    cases ha : p.kvBlocks.get? id with
    | some a => exact ih hu hs hk _ _
    | none =>
      have hid : id ∉ p.kvBlocks.keys := get?_eq_none_iff.1 ha
      obtain ⟨hu₁, hslot⟩ := hu.allocateKVBlock S protectedFps hs hk hsz hid
      obtain ⟨r, p₁, heq, hst, -, -⟩ := allocateKVBlock_spec S protectedFps hs hk hsz hid
      obtain ⟨lost₁, hs₁, -⟩ := hst.sound
      rw [heq] at hu₁ hslot
      simp only [heq]
      cases r with
      | error e =>
        have hrls := (releaseKVBlocks_spec hs₁ hst.arena protectedFps newly)
        refine ⟨hu₁.of_subset hrls.2.2.1.granularity ?_, fun heq' => hslot ?_⟩
        · intro e he
          rw [hrls.2.2.2.2.2.2] at he
          exact (mem_filter.1 he).1
        · exact congrArg _ (Except.error.inj heq')
      | ok offset => exact ih hu₁ hs₁ hst.arena _ _

end Pool

namespace Pool

variable {S : Surroundings} {p p' : Pool} {a : Allocation} {inflight : List (PageAddr × Nat)} {lost : List Nat}
  {protectedFps : List String}

theorem map_spec (S : Surroundings) (h : Sound p [] lost) (hemp : a.mappings = []) :
    ∃ r p', p.map S a = (r, p') ∧ SameTables p p' ∧
      (∃ lost', (∀ a' ∈ r, Sound p' a'.held lost') ∧ (r = none → Sound p' [] lost') ∧ (S.MapsExtents → lost' = lost)) ∧
      (∀ a' ∈ r, a'.va = ⟨p.driver.ranges + 1, 0⟩ ∧ p.driver.ranges < p'.driver.ranges ∧ a'.logicalBytes = a.logicalBytes ∧
        a'.mappedBytes = a.mappedBytes ∧ a'.mappings.map Mapping.virtualOffset = List.range (a.mappedBytes / p.granularity)) ∧
      (a.mappedBytes / p.granularity ≤ p.freeExtentIds.length → ∀ f ∈ p'.log, f ∈ p.log ∨ ∃ c, f = .cuda c) ∧
      (a.mappedBytes / p.granularity ≤ p.freeExtentIds.length → S.NoFailure → r ≠ none) := by
  unfold map Driver.cuMemAddressReserve
  by_cases hok : S.succeeds .reserveAllocation p.driver.calls = true
  · simp only [hok, if_true]
    let q := p.withDriver { p.driver.called with ranges := p.driver.ranges + 1 }
    let new : Allocation := { a with va := ⟨p.driver.ranges + 1, 0⟩ }
    have hq : Sound q [] lost := h.like (like_withDriver p (Nat.le_succ _) rfl)
    have hqTables : SameTables p q := sameTables_withDriver p (Nat.le_succ _) rfl
    have hunm : ∀ i, i < new.mappedBytes / q.granularity → q.driver.mapped.get? ⟨new.va.range, new.va.page + i⟩ = none := by
      intro i _
      by_contra hso
      obtain ⟨handle, hm⟩ := Option.ne_none_iff_exists'.1 hso
      have hle := (h.ranges_le _ (h.range_of_mapped hm).1).2
      exact Nat.not_succ_le_self _ hle
    obtain ⟨r, p', hmap, htab, ⟨lost', hstd, hrel, hlost⟩, hshp, hlogs, hsuc⟩ :=
      mapAtReservedAddress_spec S (a := new) hq (Nat.succ_ne_zero _) hemp
    refine ⟨r, p', hmap, hqTables.trans htab, ⟨lost', ?_, hrel, fun hS => hlost hS hunm⟩,
      ?_, hlogs, fun hlen hS => (hsuc hlen hS hunm).1⟩
    · intro a' ha'
      have hsnd := hstd a' ha'
      rwa [append_nil] at hsnd
    · intro a' ha'
      obtain ⟨hva, hlog, hbyt, hofs⟩ := hshp a' ha'
      exact ⟨hva, htab.driverRanges, hlog, hbyt, hofs⟩
  · simp only [if_neg hok]
    have htab : SameTables p (p.withDriver p.driver.called) := sameTables_withDriver p (Nat.le_refl _) rfl
    refine ⟨none, _, rfl, htab.trans (sameTables_logged _ _),
      ⟨lost, by simp, fun _ => (h.like (like_called p)).like (like_logged _ _), fun _ => rfl⟩, by simp,
        fun _ f hf => ?_, fun _ hS => ?_⟩
    · change f ∈ p.log ++ [Fault.cuda .reserveAllocation] at hf
      rw [mem_append, mem_singleton] at hf
      exact hf.imp_right fun heq => ⟨_, heq⟩
    · exact absurd (hS _ _) hok

theorem ranges_of_fresh {r : Nat} (h : Sound p inflight lost) (hpm : p'.ranges.Perm (r :: p.ranges)) (hlt : p.driver.ranges < r)
    (hle : r ≤ p'.driver.ranges) : p'.ranges.Nodup ∧ ∀ r' ∈ p'.ranges, 0 < r' ∧ r' ≤ p'.driver.ranges := by
  constructor
  · refine hpm.nodup_iff.2 (nodup_cons.2 ⟨?_, h.ranges_nodup⟩)
    intro hmem
    exact absurd (h.ranges_le r hmem).2 (Nat.not_le_of_lt hlt)
  · intro r' hr'
    rcases mem_cons.1 (hpm.mem_iff.1 hr') with rfl | hmem
    · omega
    · have := h.ranges_le r' hmem
      omega

theorem Sound.storeLegacy {p₀ : Pool} {lost₀ : List Nat} (h₀ : Sound p₀ [] lost₀) (h : Sound p (a.held ++ inflight) lost)
    (ht : SameTables p₀ p)
    (hlt : p₀.driver.ranges < a.va.range) (hle : a.va.range ≤ p.driver.ranges) :
    Sound { p with legacyKv := p.legacyKv ++ [a] } inflight lost := by
  have hpm : ranges { p with legacyKv := p.legacyKv ++ [a] } |>.Perm (a.va.range :: p₀.ranges) := by
    rw [← ht.layout.ranges]
    unfold ranges arenas
    simp only [map_append, map_cons, map_nil]
    refine (List.Perm.cons _ ?_).trans (List.Perm.swap _ _ _)
    rw [← append_assoc, ← append_assoc]
    refine (perm_append_singleton _ _).trans (List.Perm.cons _ ?_)
    rw [append_assoc]
  obtain ⟨hnd, hbd⟩ := ranges_of_fresh h₀ hpm hlt hle
  refine h.retable rfl rfl rfl rfl rfl ?_ rfl hnd hbd h.kvRange h.bound
  unfold held allocationHeld stableHeld
  simp only [flatMap_append, flatMap_cons, flatMap_nil, append_nil, append_assoc]
  exact List.Perm.refl _

theorem Sound.storeWeights {p₀ : Pool} {lost₀ : List Nat} {fp : String} (clock n : Nat) (h₀ : Sound p₀ [] lost₀)
    (h : Sound p (a.held ++ inflight) lost) (ht : SameTables p₀ p) (hlt : p₀.driver.ranges < a.va.range)
      (hle : a.va.range ≤ p.driver.ranges) (hfp : fp ∉ p.weights.keys) :
    Sound { p with clock := clock, weights := p.weights.set fp { a with accessCount := n } } inflight lost := by
  have hent : (p.weights.set fp { a with accessCount := n }).entries = p.weights.entries ++
    [(fp, { a with accessCount := n })] :=
    entries_set_of_not_mem hfp _
  have hpm : ranges { p with clock := clock, weights := p.weights.set fp { a with accessCount := n } } |>.Perm
      (a.va.range :: p₀.ranges) := by
    rw [← ht.layout.ranges]
    unfold ranges arenas
    simp only [hent, map_append, map_cons, map_nil, append_assoc]
    refine (List.Perm.cons _ ?_).trans (List.Perm.swap _ _ _)
    rw [singleton_append, ← append_assoc, ← append_assoc]
    exact perm_middle
  obtain ⟨hnd, hbd⟩ := ranges_of_fresh h₀ hpm hlt hle
  refine h.retable rfl rfl rfl rfl rfl ?_ rfl hnd hbd h.kvRange h.bound
  unfold held allocationHeld stableHeld
  simp only [hent, flatMap_append, flatMap_cons, flatMap_nil, append_nil, append_assoc]
  refine (List.Perm.append_left _ ?_).append_left _
  exact ((perm_append_comm_assoc _ _ _).append_left _).trans (perm_append_comm_assoc _ _ _)

theorem mapKV_spec (S : Surroundings) (blockSize : Nat) (blockCount : ℤ) (protectedFps : List String) (h : Sound p [] lost)
    (hk : KVArena p) :
    ∃ r p', p.mapKV S blockSize blockCount protectedFps = (r, p') ∧ KVArena p' ∧ Shrunk protectedFps p p' ∧
      p'.kvBlocks = p.kvBlocks ∧
      (∃ lost', Sound p' [] lost' ∧ (S.MapsExtents → lost' = lost)) ∧
      (lost = [] → ∀ f ∈ p'.log, f ∈ p.log ∨ ∃ c, f = .cuda c) ∧
      (0 < blockCount → 0 < blockSize → S.NoFailure → lost = [] → (r.length = blockCount.toNat ↔
        p.pagesFor (blockSize * blockCount.toNat) ≤ p.freePages + (p.reclaimableHeld protectedFps).length)) ∧
      (blockCount ≤ 0 ∨ blockSize = 0 → r = []) := by
  unfold mapKV
  split
  · rename_i hzero
    exact ⟨[], p, rfl, hk, Shrunk.refl _ p, rfl, ⟨lost, h, fun _ => rfl⟩, fun _ f hf => .inl hf,
      fun _ _ => by omega, fun _ => rfl⟩
  · rename_i hpos
    obtain ⟨b, p₁, heq, h₁, hev, hen, hfe⟩ := ensurePages_spec S (p.pagesFor (blockSize * blockCount.toNat)) protectedFps h
    have hk₁ := hk.sameKV hev.toSameKV
    have hfor : p₁.pagesFor (blockSize * blockCount.toNat) = p.pagesFor (blockSize * blockCount.toNat) := by
      unfold pagesFor
      rw [hev.granularity]
    simp only [heq]
    cases b with
    | false =>
      refine ⟨[], p₁, rfl, hk₁, hev.shrunk, hev.kvBlocks, ⟨lost, h₁, fun _ => rfl⟩, fun _ f hf => .inl (by rwa [hev.log] at hf),
        fun hcnt _ _ _ => iff_of_false (by simp only [length_nil]; omega) fun hle => ?_, fun _ => rfl⟩
      cases hen.2 hle
    | true =>
      obtain ⟨r, p₂, hmap, htab, ⟨lost', hstd, hrel, hlost⟩, hshp, hlogs, hsuc⟩ :=
        map_spec S (a := ⟨⟨0, 0⟩, blockSize * blockCount.toNat, p₁.pagesFor (blockSize * blockCount.toNat) *
          p₁.granularity, [], 1, 0⟩) h₁ rfl
      have hlen : lost = [] → p₁.pagesFor (blockSize * blockCount.toNat) * p₁.granularity / p₁.granularity ≤
        p₁.freeExtentIds.length := by
        intro hnil
        subst hnil
        rw [Nat.mul_div_cancel _ p₁.granularity_pos, hfor, ← h₁.freePages]
        exact hfe rfl
      have hlog : lost = [] → ∀ f ∈ p₂.log, f ∈ p.log ∨ ∃ c, f = .cuda c := by
        intro hnil f hf
        rw [← hev.log]
        exact hlogs (hlen hnil) f hf
      simp only [hmap]
      cases r with
      | none =>
        refine ⟨[], p₂, rfl, hk₁.sameKV htab.sameKV, hev.shrunk.trans htab.shrunk, htab.kvBlocks.trans hev.kvBlocks,
          ⟨lost', hrel rfl, hlost⟩, hlog, fun _ _ hS hnil => absurd rfl (hsuc (hlen hnil) hS), fun _ => rfl⟩
      | some a' =>
        obtain ⟨hva, hlt, -, -, -⟩ := hshp a' rfl
        have hrng : a'.va.range = p₁.driver.ranges + 1 := by rw [hva]
        have hsnd : Sound { p₂ with legacyKv := p₂.legacyKv ++ [a'] } [] lost' := by
          have h₂ := hstd a' rfl
          refine Sound.storeLegacy h₁ ?_ htab (by omega) (by omega)
          rwa [append_nil]
        refine ⟨_, _, rfl, ?_, ?_, htab.kvBlocks.trans hev.kvBlocks, ⟨lost', hsnd, hlost⟩, hlog, ?_, ?_⟩
        · exact (hk₁.sameKV htab.sameKV).congr rfl rfl rfl rfl
        · refine (hev.shrunk.trans htab.shrunk).trans ?_
          exact ⟨rfl, rfl, rfl, rfl, rfl, rfl, fun _ _ _ hid => hid, fun _ _ _ => rfl, fun _ he => he⟩
        · intro _ _ _ _
          refine iff_of_true (by simp) (hen.1 rfl)
        · intro hzero
          exact absurd hzero hpos

end Pool

end ServerlessLLM.Vmm
