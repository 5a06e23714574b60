import ServerlessLLM.Vmm.Theorems.Contents

/-!
# Availability of KV blocks

`GetAvailableKVBlocks` and `GetAvailableBlocks` count the free pages, and allocation evicts resident weights too.
-/

namespace ServerlessLLM.Vmm

open List Option Dict Slots Pool VmmVRAMManager

namespace Pool

variable {S : Surroundings} {p p' : Pool} {lost : List Nat} {protectedFps : List String} {blockSize : Nat}

/-- The resident pages of the models that are not protected. -/
def unprotectedPages (p : Pool) (protectedFps : List String) : Nat :=
  ((p.stableWeights.entries.filter fun e => e.1 ∉ protectedFps).map fun e => e.2.physicalExtentIds.countP isSome).sum

/-- How many blocks of `n` slots the live blocks leave room for. -/
def kvRoom (p : Pool) (n : Nat) : Nat := Slots.room n p.kvVaSlots

theorem length_reclaimableHeld (h : p.weights.entries = []) (protectedFps : List String) :
    (p.reclaimableHeld protectedFps).length = p.unprotectedPages protectedFps := by
  unfold reclaimableHeld stableHeldOf weightsHeldOf unprotectedPages
  rw [h, filter_nil, flatMap_nil, append_nil, length_flatMap]
  exact congrArg List.sum (map_congr_left fun e _ => StableWeightArena.length_held e.2)

theorem reclaimablePages_eq (h : p.weights.entries = []) (protectedFps : List String) :
    p.reclaimablePages protectedFps = p.freePages := by
  simp [reclaimablePages, h]

theorem kvRoom_of_set {id : Nat} {a : Allocation} (hk : KVArena p) (hk' : KVArena p') (hg : p'.granularity = p.granularity)
    (hc : p'.pageCapacity = p.pageCapacity) (hid : id ∉ p.kvBlocks.keys) (hbks : p'.kvBlocks = p.kvBlocks.set id a)
    (hpos : 0 < p.pagesFor a.logicalBytes) (hfe : IsFree p.kvVaSlots a.va.page (p.pagesFor a.logicalBytes))
    (hfst : ∀ s < a.va.page, ¬IsFree p.kvVaSlots s (p.pagesFor a.logicalBytes)) :
    p'.kvRoom (p.pagesFor a.logicalBytes) + 1 = p.kvRoom (p.pagesFor a.logicalBytes) := by
  have hent : p'.kvBlocks.entries = p.kvBlocks.entries ++ [(id, a)] := by
    rw [hbks, entries_set_of_not_mem hid]
  have hnew : p'.blockSlots a = (a.va.page, p.pagesFor a.logicalBytes) := by
    have hin : (id, a) ∈ p'.kvBlocks.entries := by
      rw [hent]
      exact mem_append_right _ (mem_singleton_self _)
    have hfor : p'.pagesFor a.logicalBytes = p.pagesFor a.logicalBytes := by
      unfold pagesFor
      rw [hg]
    unfold blockSlots
    rw [mappedBytes_div (hk'.blocks _ hin), hfor]
  have hcov : Covers p'.kvVaSlots ((a.va.page, p.pagesFor a.logicalBytes) :: p.kvBlocks.entries.map fun e =>
    p.blockSlots e.2) := by
    have hc' := hk'.covers
    rw [hent, map_append, map_cons, map_nil, hnew] at hc'
    unfold blockSlots at hc' ⊢
    rw [hg] at hc'
    exact hc'.mono (perm_append_singleton _ _)
  have hslots : p'.kvVaSlots = mark p.kvVaSlots a.va.page (p.pagesFor a.logicalBytes) true :=
    Covers_unique (hk.covers.mark_true hfe) hcov (by rw [length_mark, hk.slots, hk'.slots, hc])
  unfold kvRoom
  rw [hslots, room_mark hpos hfe hfst]

theorem allocateKVBlocksLoop_iff (hS : S.NoFailure) (hs : Sound p [] []) (hk : KVArena p) (hsz : 0 < blockSize) {ids : List Nat}
    (hfr : ∀ id ∈ ids, id ∉ p.kvBlocks.keys) (hnd : ids.Nodup) (offsets newly : List Nat) :
    (∃ out, (allocateKVBlocksLoop S blockSize protectedFps ids offsets newly p).1 = .ok out) ↔
      ids.length * p.pagesFor blockSize ≤ p.freePages + (p.reclaimableHeld protectedFps).length ∧
        ids.length ≤ p.kvRoom (p.pagesFor blockSize) := by
  induction ids generalizing p offsets newly with
  | nil =>
    refine iff_of_true ⟨offsets, rfl⟩ ⟨?_, Nat.zero_le _⟩
    rw [length_nil, Nat.zero_mul]
    exact Nat.zero_le _
  | cons id ids ih =>
    have hid := hfr id mem_cons_self
    obtain ⟨hnot, hnd⟩ := nodup_cons.1 hnd
    obtain ⟨r, p₁, heq, hst, herr, hok⟩ := allocateKVBlock_spec S protectedFps hs hk hsz hid
    unfold allocateKVBlocksLoop
    rw [get?_eq_none_iff.2 hid]
    simp only [heq]
    rw [length_cons, Nat.add_mul, Nat.one_mul]
    cases r with
    | error e =>
      refine iff_of_false (by simp) ?_
      rintro ⟨hen, hro⟩
      obtain ⟨-, -, href⟩ := herr e rfl
      cases e with
      | noBlockSize => exact href
      | noPages =>
        change _ < _ at href
        omega
      | noFreeSlot =>
        obtain ⟨s, hfe⟩ := (room_pos_iff (pagesFor_pos p hsz)).1 (Nat.lt_of_lt_of_le (Nat.succ_pos _) hro)
        exact href.2 s hfe
      | notMapped => exact href ⟨hS, rfl⟩
    | ok offset =>
      obtain ⟨a, hbks, -, rfl, hfe, hfst, hsum⟩ := hok offset rfl
      obtain ⟨lost₁, hs₁, hlost⟩ := hst.sound
      obtain rfl := hlost (hS .mapExtent)
      have hfr₁ : ∀ id' ∈ ids, id' ∉ p₁.kvBlocks.keys := by
        intro id' hmem
        rw [hbks, mem_keys_set, not_or]
        exact ⟨fun heq => hnot (heq ▸ hmem), hfr id' (mem_cons_of_mem _ hmem)⟩
      have hro := kvRoom_of_set hk hst.arena hst.shrunk.granularity hst.shrunk.capacity hid hbks (pagesFor_pos p hsz) hfe hfst
      have hfor : p₁.pagesFor a.logicalBytes = p.pagesFor a.logicalBytes := by
        unfold pagesFor
        rw [hst.shrunk.granularity]
      rw [ih hs₁ hst.arena hfr₁ hnd (offsets ++ [offset]) (newly ++ [id]), hfor]
      omega

theorem allocateKVBlocks_iff (protectedFps : List String) (hS : S.NoFailure) (hs : Sound p [] []) (hk : KVArena p)
    (hwts : p.weights.entries = []) (hsz : 0 < blockSize)
    {ids : List Nat} (hfr : ∀ id ∈ ids, id ∉ p.kvBlocks.keys) (hnd : ids.Nodup) :
    (∃ out, (p.allocateKVBlocks S blockSize ids protectedFps).1 = .ok out) ↔
      ids.length * p.pagesFor blockSize ≤ p.freePages + p.unprotectedPages protectedFps ∧
        ids.length ≤ p.kvRoom (p.pagesFor blockSize) := by
  unfold allocateKVBlocks
  rw [if_neg (Nat.pos_iff_ne_zero.1 hsz), allocateKVBlocksLoop_iff hS hs hk hsz hfr hnd, length_reclaimableHeld hwts]

theorem mapKV_iff (protectedFps : List String) (hS : S.NoFailure) (hs : Sound p [] []) (hk : KVArena p)
    (hwts : p.weights.entries = []) (hsz : 0 < blockSize) (n : Nat) :
    (p.mapKV S blockSize n protectedFps).1.length = n ↔
      n = 0 ∨ p.pagesFor (blockSize * n) ≤ p.freePages + p.unprotectedPages protectedFps := by
  obtain ⟨r, p', heq, -, -, -, -, -, hiff, hnil⟩ := mapKV_spec S blockSize n protectedFps hs hk
  rw [heq]
  rcases Nat.eq_zero_or_pos n with rfl | hpos
  · simp [hnil (.inl (Int.le_refl _))]
  · rw [length_reclaimableHeld hwts, Int.toNat_natCast] at hiff
    simp only
    rw [hiff (by omega) hsz hS rfl, or_iff_right (Nat.pos_iff_ne_zero.1 hpos)]

/-- Some slots in a row belong to no live block. -/
def HasHole (p : Pool) (n : Nat) : Prop :=
  ∃ s, s + n ≤ p.pageCapacity ∧ ∀ e ∈ p.kvBlocks.entries, e.2.va.page + p.pagesFor e.2.logicalBytes ≤ s ∨ s + n ≤ e.2.va.page

theorem hasHole_iff (hk : KVArena p) {n : Nat} (hn : 0 < n) : p.HasHole n ↔ ∃ s, Slots.IsFree p.kvVaSlots s n := by
  have hslots : ∀ e ∈ p.kvBlocks.entries, p.blockSlots e.2 = (e.2.va.page, p.pagesFor e.2.logicalBytes) := by
    intro e he
    unfold blockSlots
    rw [mappedBytes_div (hk.blocks e he)]
  refine exists_congr fun s => ⟨fun ⟨hin, hap⟩ => ⟨by rwa [hk.slots], fun i hi => ?_⟩, fun ⟨hin, hfe⟩ =>
    ⟨by rwa [hk.slots] at hin, fun e he => ?_⟩⟩
  · by_contra hused
    obtain ⟨b, hb, hw⟩ := hk.covers.getD_eq_true_iff.1 (by simpa using hused)
    obtain ⟨e, he, rfl⟩ := mem_map.1 hb
    rw [hslots e he] at hw
    obtain ⟨hle, hlt⟩ := hi
    obtain ⟨hle', hlt'⟩ := hw
    simp only at hle hlt hle' hlt'
    have := hap e he
    omega
  · by_contra hover
    have hpos := pagesFor_pos p (hk.blocks e he).logicalBytes_pos
    -- the two overlap at the later of their first slots
    have hfal := hfe (max s e.2.va.page) ⟨by simp only; omega, by simp only; omega⟩
    have htrue := hk.covers.getD_eq_true_iff.2 ⟨_, mem_map_of_mem (f := fun e => p.blockSlots e.2) he, (by
      simp only [hslots e he]
      exact ⟨by simp only; omega, by simp only; omega⟩ : Within _ (max s e.2.va.page))⟩
    rw [hfal] at htrue
    cases htrue

end Pool

namespace VmmVRAMManager

open Pool Runs

variable {M M' : VmmVRAMManager}

/-- No extent of a pool is lost. -/
def Intact (M : VmmVRAMManager) : Prop := ∀ device p, M.pools.get? device = some p → Sound p [] [] ∧ KVArena p

theorem throughout_intact {native : ℤ → Nat} {memory : ℤ → Handle → Nat → UInt8} {poolSize requested : Nat} {gpuIds : List ℤ}
    (hM : create native memory poolSize gpuIds requested = some M) {cs : List (Outside × Op)}
    (hcs : EachStep step (fun _ c => c.1.NoFailure) M cs) : Throughout step (fun M => Kept M ∧ Intact M) M cs := by
  obtain ⟨hkept, -, -, hintact⟩ := create_spec hM
  refine throughout_of_eachStep ?_ ⟨hkept, hintact⟩ hcs
  rintro M c M' ⟨hk, hi⟩ hS hst
  have hnx := step_kept hk hst
  refine ⟨hnx.kept, fun device p' hp' => ?_⟩
  obtain ⟨p, hp, hgoes⟩ := hnx.goes device p' hp'
  obtain ⟨hs, har⟩ := hi device p hp
  exact hgoes.sound (hS device .mapExtent) hs har

end VmmVRAMManager

/-- The blocks of so many bytes that the free pages give are all that can be had, and there are holes for them. -/
def Pool.KVExact (p : Pool) (model : String) (blockSize n : Nat) : Prop :=
  let pages := p.pagesFor blockSize
  let free := VmmVRAMManager.toInt (p.freePages / pages)
  (n ≤ free → n ≤ p.kvRoom pages) ∧ (free < n → n * pages ≤ p.freePages + p.unprotectedPages [model] → p.kvRoom pages < n)

/-- The bytes of the free pages give all blocks that can be had. -/
def Pool.BlocksExact (p : Pool) (protectedFps : List String) (blockSize n : Nat) : Prop :=
  let free := VmmVRAMManager.toInt (p.freePages * p.granularity / blockSize)
  (n = 0 → 0 ≤ free) ∧ (0 < n → free < n → p.freePages + p.unprotectedPages protectedFps < p.pagesFor (blockSize * n))

namespace VmmVRAMManager

open Pool Runs

variable {S : Outside} {M : VmmVRAMManager} {device : ℤ} {model : String} {blockSize : Nat}

/-- `AllocateKVBlocks` succeeds when `GetAvailableKVBlocks` reports so many blocks, and only then. -/
def KVAgrees (S : Outside) (M : VmmVRAMManager) (model : String) (blockSize : Nat) (device : ℤ) (ids : List Nat) : Prop :=
  (∃ offsets, (M.allocateKVBlocks S model blockSize device ids).1 = some offsets) ↔
    ids.length ≤ M.getAvailableKVBlocks model blockSize device

/-- `AllocateBlocks` returns the addresses when `GetAvailableBlocks` reports so many blocks, and only then. -/
def BlocksAgree (S : Outside) (M : VmmVRAMManager) (model : String) (blockSize : Nat) (device : ℤ) (n : Nat) : Prop :=
  (M.allocateBlocks S device blockSize model n).1.length = n ↔ n ≤ M.getAvailableBlocks model blockSize device

theorem toInt_le (n : Nat) : toInt n ≤ n := by
  unfold toInt Int.bmod
  simp only
  split <;> omega

theorem kvAgrees_iff (hS : S.NoFailure) (hk : Kept M) (hi : Intact M) {ids : List Nat} (hnd : ids.Nodup)
    (hfr : ∀ p ∈ M.pools.get? device, ∀ id ∈ ids, id ∉ p.kvBlocks.keys) :
    KVAgrees S M model blockSize device ids ↔
      ∀ p ∈ M.pools.get? device, model ∈ M.models.keys → 0 < blockSize → p.KVExact model blockSize ids.length := by
  unfold KVAgrees allocateKVBlocks getAvailableKVBlocks
  cases hp : M.pools.get? device with
  | none =>
    have hneg : (-1 : ℤ) < ids.length := by omega
    simp [hneg]
  | some p =>
    by_cases hmod : model ∈ M.models.keys
    · rcases Nat.eq_zero_or_pos blockSize with rfl | hsz
      · have hneg : (-1 : ℤ) < ids.length := by omega
        simp [hmod, Pool.allocateKVBlocks, Except.toOption, hneg]
      · obtain ⟨hs, har⟩ := hi device p hp
        obtain ⟨-, hwts, -⟩ := hk.pools device p hp
        have hiff := allocateKVBlocks_iff [model] (hS device) hs har hwts hsz (hfr p (by rw [hp]; rfl)) hnd
        have hok : (∃ offsets, (p.allocateKVBlocks (S.gpu device) blockSize ids [model]).1.toOption = some offsets) ↔
            ∃ out, (p.allocateKVBlocks (S.gpu device) blockSize ids [model]).1 = .ok out := by
          cases (p.allocateKVBlocks (S.gpu device) blockSize ids [model]).1 <;> simp [Except.toOption]
        have hpgs := pagesFor_pos p hsz
        have havailable : p.availableKVBlocks blockSize [model] = p.freePages / p.pagesFor blockSize := by
          unfold availableKVBlocks
          rw [if_neg (by omega), if_neg (by omega), reclaimablePages_eq hwts]
        have hle := toInt_le (p.freePages / p.pagesFor blockSize)
        have hfe : (ids.length : ℤ) ≤ toInt (p.freePages / p.pagesFor blockSize) →
          ids.length * p.pagesFor blockSize ≤ p.freePages := by
          intro h
          exact (Nat.le_div_iff_mul_le hpgs).1 (by omega)
        simp only [hmod, not_true_eq_false, if_false, false_or, if_neg (Nat.pos_iff_ne_zero.1 hsz)]
        rw [hok, hiff, havailable]
        simp only [Option.mem_def, Option.some.injEq, forall_eq', hsz, forall_const]
        unfold Pool.KVExact
        simp only
        omega
    · have hneg : (-1 : ℤ) < ids.length := by omega
      simp [hmod, hneg]

theorem blocksAgree_iff (hS : S.NoFailure) (hk : Kept M) (hi : Intact M) (n : Nat) :
    BlocksAgree S M model blockSize device n ↔
      ∀ p ∈ M.pools.get? device, 0 < blockSize → p.BlocksExact (M.protectedFps model) blockSize n := by
  unfold BlocksAgree allocateBlocks getAvailableBlocks
  cases hp : M.pools.get? device with
  | none => simp [eq_comm]
  | some p =>
    rcases Nat.eq_zero_or_pos blockSize with rfl | hsz
    · simp [mapKV, eq_comm]
    · obtain ⟨hs, har⟩ := hi device p hp
      obtain ⟨-, hwts, -⟩ := hk.pools device p hp
      have hiff := mapKV_iff (M.protectedFps model) (hS device) hs har hwts hsz n
      have hle := toInt_le (p.freePages * p.granularity / blockSize)
      have hfe : (n : ℤ) ≤ toInt (p.freePages * p.granularity / blockSize) → p.pagesFor (blockSize * n) ≤ p.freePages := by
        intro h
        have hbyt : n * blockSize ≤ p.freePages * p.granularity := (Nat.le_div_iff_mul_le hsz).1 (by omega)
        have hps := p.granularity_pos
        unfold pagesFor
        refine Nat.lt_succ_iff.1 ((Nat.div_lt_iff_lt_mul hps).2 ?_)
        rw [Nat.succ_mul, Nat.mul_comm blockSize]
        omega
      simp only [hiff, if_neg (Nat.pos_iff_ne_zero.1 hsz), reclaimablePages_eq hwts, mem_def, some.injEq, forall_eq', hsz,
        forall_const]
      unfold BlocksExact
      simp only
      rcases Nat.eq_zero_or_pos n with rfl | hpos
      · simp
      · omega

/-- In every state of a run without failures, a report is exact in this case only: the free pages give all blocks that can be
had, and the live blocks leave holes for those reported. -/
theorem available_iff_exact {native : ℤ → Nat} {memory : ℤ → Handle → Nat → UInt8} {poolSize requested : Nat} {gpuIds : List ℤ}
    (hM : create native memory poolSize gpuIds requested = some M) {cs : List (Outside × Op)}
    (hcs : EachStep step (fun _ c => c.1.NoFailure) M cs) :
    Throughout step (fun M => ∀ S : Outside, S.NoFailure → ∀ device model blockSize,
      (∀ ids : List Nat, ids.Nodup → (∀ p ∈ M.pools.get? device, ∀ id ∈ ids, id ∉ p.kvBlocks.keys) →
        (KVAgrees S M model blockSize device ids ↔
          ∀ p ∈ M.pools.get? device, model ∈ M.models.keys → 0 < blockSize → p.KVExact model blockSize ids.length)) ∧
      ∀ n : Nat, BlocksAgree S M model blockSize device n ↔
        ∀ p ∈ M.pools.get? device, 0 < blockSize → p.BlocksExact (M.protectedFps model) blockSize n) M cs := by
  refine (throughout_intact hM hcs).mono fun M ⟨hk, hi⟩ S hS device model blockSize => ⟨fun ids hnd hfr => ?_, fun n => ?_⟩
  · exact kvAgrees_iff hS hk hi hnd hfr
  · exact blocksAgree_iff hS hk hi n

def loadAndRegister : List (Outside × Op) :=
  [registerPair, (.reliable, .loadModel "a" 0 false),
    (.reliable, .registerModel "b" 1 (-1) [⟨0, 1, "h", [⟨"u", 0, 1⟩]⟩] [⟨1, fun _ => 9⟩])]

theorem available_iff_exact_loadAndRegister : Throughout step (fun M => ∀ S : Outside, S.NoFailure → ∀ device model blockSize,
      (∀ ids : List Nat, ids.Nodup → (∀ p ∈ M.pools.get? device, ∀ id ∈ ids, id ∉ p.kvBlocks.keys) →
        (KVAgrees S M model blockSize device ids ↔
          ∀ p ∈ M.pools.get? device, model ∈ M.models.keys → 0 < blockSize → p.KVExact model blockSize ids.length)) ∧
      ∀ n : Nat, BlocksAgree S M model blockSize device n ↔
        ∀ p ∈ M.pools.get? device, 0 < blockSize → p.BlocksExact (M.protectedFps model) blockSize n)
          (ofPages 4) loadAndRegister :=
  available_iff_exact create_ofPages_four
    ⟨fun _ _ _ => rfl, fun _ _ => ⟨fun _ _ _ => rfl, fun _ _ => ⟨fun _ _ _ => rfl, fun _ _ => trivial⟩⟩⟩

/-- Two free pages are reported, and there is a block for each of the four pages. -/
theorem evictable_pages_not_reported : ∃ M, loadAndRegister.foldlM step (ofPages 4) = some M ∧
    (∀ p ∈ M.pools.get? 0, p.kvBlocks.entries = []) ∧ M.getAvailableKVBlocks "b" 1 0 = 2 ∧
    ¬KVAgrees .reliable M "b" 1 0 [0, 1, 2] ∧ ¬BlocksAgree .reliable M "b" 1 0 3 := by
  obtain ⟨M, hrun⟩ : ∃ M, loadAndRegister.foldlM step (ofPages 4) = some M := ⟨_, rfl⟩
  have hbks : (M.allocateKVBlocks .reliable "b" 1 0 [0, 1, 2]).1 = some [0, 1, 2] := by
    cases hrun
    decide +kernel
  have haddresses : (M.allocateBlocks .reliable 0 1 "b" (3 : Nat)).1.length = 3 := by
    cases hrun
    decide +kernel
  have hreported : M.getAvailableKVBlocks "b" 1 0 = 2 ∧ M.getAvailableBlocks "b" 1 0 = 2 := by
    cases hrun
    decide +kernel
  refine ⟨M, hrun, ?_, hreported.1, fun hagr => ?_, fun hagr => ?_⟩
  · cases hrun
    rintro p ⟨⟩
    rfl
  · have hle := hagr.1 ⟨_, hbks⟩
    rw [hreported.1] at hle
    revert hle
    decide
  · have hle := hagr.1 haddresses
    rw [hreported.2] at hle
    revert hle
    decide

/-!
## Fragmentation of the KV arena

Pages are mapped one by one, but a KV block takes slots in a row, in an arena that has as many slots as the pool has pages. So
enough pages are not enough for a block: the live blocks have to leave a hole for it.
-/

/-- A new block is allocated whenever there are pages for it. -/
def Fits (S : Outside) (M : VmmVRAMManager) (model : String) (blockSize : Nat) (device : ℤ) (id : Nat) : Prop :=
  ∀ p ∈ M.pools.get? device, model ∈ M.models.keys → 0 < blockSize → id ∉ p.kvBlocks.keys →
    p.pagesFor blockSize ≤ p.freePages + p.unprotectedPages [model] →
      ∃ offsets, (M.allocateKVBlocks S model blockSize device [id]).1 = some offsets

/-- There is a hole for a new block whenever there are pages for it. -/
def Holed (M : VmmVRAMManager) (model : String) (blockSize : Nat) (device : ℤ) (id : Nat) : Prop :=
  ∀ p ∈ M.pools.get? device, model ∈ M.models.keys → 0 < blockSize → id ∉ p.kvBlocks.keys →
    p.pagesFor blockSize ≤ p.freePages + p.unprotectedPages [model] → p.HasHole (p.pagesFor blockSize)

/-- In every state of a run without failures, pages are enough for a block when there is a hole, and only then. -/
theorem fits_iff_holed {native : ℤ → Nat} {memory : ℤ → Handle → Nat → UInt8} {poolSize requested : Nat} {gpuIds : List ℤ}
    (hM : create native memory poolSize gpuIds requested = some M) {cs : List (Outside × Op)}
    (hcs : EachStep step (fun _ c => c.1.NoFailure) M cs) :
    Throughout step (fun M => ∀ S : Outside, S.NoFailure → ∀ model blockSize device id,
      Fits S M model blockSize device id ↔ Holed M model blockSize device id) M cs := by
  refine (throughout_intact hM hcs).mono fun M ⟨hk, hi⟩ S hS model blockSize device id => ?_
  refine forall₂_congr fun p hp => forall_congr' fun hmod => forall_congr' fun hsz => forall_congr' fun hid =>
    forall_congr' fun hpgs => ?_
  obtain ⟨hs, har⟩ := hi device p hp
  obtain ⟨-, hwts, -⟩ := hk.pools device p hp
  have hpos := pagesFor_pos p hsz
  have hiff := allocateKVBlocks_iff [model] (hS device) hs har hwts hsz
    (fun id' hid' => by rwa [mem_singleton.1 hid'] : ∀ id' ∈ [id], id' ∉ p.kvBlocks.keys) (nodup_singleton id)
  have hok : (∃ offsets, (M.allocateKVBlocks S model blockSize device [id]).1 = some offsets) ↔
      ∃ out, (p.allocateKVBlocks (S.gpu device) blockSize [id] [model]).1 = .ok out := by
    unfold allocateKVBlocks
    rw [Option.mem_def] at hp
    simp only [hp, hmod, not_true_eq_false, if_false]
    cases (p.allocateKVBlocks (S.gpu device) blockSize [id] [model]).1 <;> simp [Except.toOption]
  rw [hok, hiff, hasHole_iff har hpos, ← Slots.room_pos_iff hpos, length_singleton, Nat.one_mul]
  exact and_iff_right hpgs

/-- A model is registered, four blocks of one page are allocated, and the first and the third of them are released. -/
def releaseTwo : List (Outside × Op) :=
  [registerPair, (.reliable, .allocateKVBlocks "a" 1 0 [0, 1, 2, 3]), (.reliable, .releaseKVBlocks 0 [0, 2])]

theorem fits_iff_holed_releaseTwo : Throughout step (fun M => ∀ S : Outside, S.NoFailure → ∀ model blockSize device id,
    Fits S M model blockSize device id ↔ Holed M model blockSize device id) (ofPages 4) releaseTwo :=
  fits_iff_holed create_ofPages_four
    ⟨fun _ _ _ => rfl, fun _ _ => ⟨fun _ _ _ => rfl, fun _ _ => ⟨fun _ _ _ => rfl, fun _ _ => trivial⟩⟩⟩

/-- Two pages are free, and a block of two pages is refused. -/
theorem free_pages_apart : ∃ M, releaseTwo.foldlM step (ofPages 4) = some M ∧ ¬Fits .reliable M "a" 2 0 4 := by
  obtain ⟨M, hrun⟩ : ∃ M, releaseTwo.foldlM step (ofPages 4) = some M := ⟨_, rfl⟩
  refine ⟨M, hrun, fun hft => ?_⟩
  have href : (M.allocateKVBlocks .reliable "a" 2 0 [4]).1 = none := by
    cases hrun
    decide +kernel
  obtain ⟨p, hp, hsta⟩ : ∃ p, M.pools.get? 0 = some p ∧ 4 ∉ p.kvBlocks.keys ∧ p.pagesFor 2 = 2 ∧ p.freePages = 2 := by
    cases hrun
    exact ⟨_, rfl, by decide +kernel⟩
  obtain ⟨hid, hpgs, hfe⟩ := hsta
  have hmod : "a" ∈ M.models.keys := by
    cases hrun
    decide +kernel
  obtain ⟨offsets, hofs⟩ := hft p hp hmod Nat.two_pos hid (by omega)
  rw [href] at hofs
  cases hofs

end VmmVRAMManager

end ServerlessLLM.Vmm
