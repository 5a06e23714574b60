import ServerlessLLM.Vram.Lemmas.Invariants

/-!
# What is available and what is allocated

`AllocateBlocks` succeeds exactly when the blocks that `GetAvailableBlocks` counts are enough: a region that is freed merges
with its neighbours, and the merged region holds at least the blocks of its parts.
-/

namespace ServerlessLLM

open Linked List GPUTensorPool Tiling Region

namespace GPUTensorPool

variable {P : Platform} {a b blockSize n : Nat} {p : GPUTensorPool} {modelPath : String}

/-! ## Counting -/

theorem freeBlocks_eq (h : WellFormed a b p) (blockSize : Nat) : p.freeBlocks blockSize = blocksOf blockSize p.cells := by
  rw [freeBlocks, h.holds.map_regions fun r => if r.status = .FREE then r.size / blockSize else 0]
  rfl

theorem availableBlocks_eq (p : GPUTensorPool) (modelPath : String) (blockSize : Nat) :
    p.availableBlocks modelPath blockSize = p.freeBlocks blockSize + p.droppableBlocks blockSize modelPath := by
  unfold availableBlocks freeBlocks droppableBlocks
  induction p.regions with
  | nil => rfl
  | cons i l ih =>
    rw [map_cons, sum_cons, ih, map_cons, sum_cons, filter_cons]
    cases hother : isOther modelPath (p.region i) with
    | false =>
      have hdrop : isDroppable blockSize modelPath (p.region i) = false := by simp [isDroppable, hother]
      simp only [hdrop, Bool.false_eq_true, if_false]
      omega
    | true =>
      have hsts : (p.region i).status ≠ .FREE := by simp [(isOther_spec modelPath _ hother).1]
      by_cases hsz : blockSize ≤ (p.region i).size
      · have hdrop : isDroppable blockSize modelPath (p.region i) = true := by simp [isDroppable, hother, hsz]
        simp only [hdrop, hsts, if_true, if_false, map_cons, sum_cons]
        omega
      · have hdrop : isDroppable blockSize modelPath (p.region i) = false := by simp [isDroppable, hsz]
        simp only [hdrop, hsts, Bool.false_eq_true, if_true, if_false, Nat.div_eq_of_lt (not_le.1 hsz)]
        omega

theorem greedyDropBlocks_cases (h : WellFormed a b p) (modelPath : String) (hb : 0 < blockSize) (hn : 0 < n) :
    (n ≤ p.availableBlocks modelPath blockSize ∧ (p.greedyDropBlocks P blockSize modelPath n).1 = 0 ∧
        n ≤ blocksOf blockSize (p.greedyDropBlocks P blockSize modelPath n).2.cells) ∨
      (p.availableBlocks modelPath blockSize < n ∧ (p.greedyDropBlocks P blockSize modelPath n).1 ≠ 0 ∧
        ∃ ma, (p.greedyDropBlocks P blockSize modelPath n).2 = { p with modelAccess := ma }) := by
  have hfe := freeBlocks_eq h blockSize
  have htot := availableBlocks_eq p modelPath blockSize
  have h0 : ¬(blockSize = 0 ∨ (n : Int) ≤ 0) := by omega
  unfold greedyDropBlocks
  rw [if_neg h0]
  by_cases h1 : (n : Int) ≤ p.freeBlocks blockSize
  · rw [if_pos h1]
    exact .inl ⟨by omega, rfl, by dsimp only; omega⟩
  rw [if_neg h1]
  by_cases h2 : p.droppableBlocks blockSize modelPath < (n : Int).toNat - p.freeBlocks blockSize
  · obtain ⟨ma, hma⟩ := collectDrops_fst (P := P)
      (l := p.regions.filter fun i => isDroppable blockSize modelPath (p.region i)) p []
    have hshort : p.availableBlocks modelPath blockSize < n := by omega
    unfold droppableBlocks at h2
    simp only [h2, if_true, hma]
    exact .inr ⟨hshort, by decide, ma, rfl⟩
  · have hd := dropPhase (P := P) h (isDroppable_spec blockSize modelPath) (fun r => r.size / blockSize)
      ((n : Int).toNat - p.freeBlocks blockSize)
    unfold dropInOrder inDropOrder at hd
    obtain ⟨-, -, hpm⟩ := ordered_spec (P := P) h.wellLinked (isDroppable_spec blockSize modelPath)
    have hworth : p.worth (fun r => r.size / blockSize)
        (collectDrops P (p.regions.filter fun i => isDroppable blockSize modelPath (p.region i)) p []).2 =
          p.droppableBlocks blockSize modelPath := by
      unfold worth droppableBlocks
      rw [total_perm hpm, total, map_map]
      rfl
    have hneed : (n : Int).toNat - p.freeBlocks blockSize ≤ p.worth (fun r => r.size / blockSize)
        (p.victims (fun r => r.size / blockSize) ((n : Int).toNat - p.freeBlocks blockSize) 0
          (collectDrops P (p.regions.filter fun i => isDroppable blockSize modelPath (p.region i)) p []).2) := by
      by_contra hless
      -- the loop has then taken all that there is
      have hall : p.victims (fun r => r.size / blockSize) ((n : Int).toNat - p.freeBlocks blockSize) 0
          (collectDrops P (p.regions.filter fun i => isDroppable blockSize modelPath (p.region i)) p []).2 =
            (collectDrops P (p.regions.filter fun i => isDroppable blockSize modelPath (p.region i)) p []).2 :=
        Greedy.takeUntil_eq_self (by unfold worth victims at hless; omega)
      rw [hall, hworth] at hless
      omega
    have hbks := hd.blocks blockSize
    have hrel := hd.released_eq
    have hen : n ≤ p.availableBlocks modelPath blockSize := by omega
    unfold droppableBlocks at h2
    simp only [h2, if_false]
    rw [if_neg (by rw [hrel]; omega)]
    exact .inl ⟨hen, rfl, by dsimp only; omega⟩

end GPUTensorPool

/-! ## Cutting off the blocks -/

/-- The rounds that the loop of `AllocateBlocks` makes over a list at most: one more for a region that it cuts. -/
def rounds (blockSize : Nat) (l : List Cell) : Nat :=
  total (fun c : Cell => if c.2.status = .FREE ∧ blockSize ≤ c.2.size then 2 else 1) l

section Loop

variable {a b m blockSize blockNumber : Nat} {x : Cell} {R : List Cell}

theorem rounds_cons (blockSize : Nat) (c : Cell) (l : List Cell) :
    rounds blockSize (c :: l) = (if c.2.status = .FREE ∧ blockSize ≤ c.2.size then 2 else 1) + rounds blockSize l := by
  simp [rounds]

theorem rounds_le (blockSize : Nat) (l : List Cell) : rounds blockSize l ≤ 2 * l.length := by
  induction l with
  | nil => exact Nat.le_refl _
  | cons c l ih =>
    rw [rounds_cons, length_cons]
    split <;> omega

theorem isTiling_cutRest (h : IsTiling m (x :: R) b) {size : Nat} (fresh : Nat) (hs : size ≤ x.2.size) :
    IsTiling (m + size) (cutRest x fresh size ++ R) b := by
  obtain ⟨haddr, -, hrs⟩ := isTiling_cons.1 h
  unfold cutRest
  by_cases hlt : size < x.2.size
  · rw [if_pos hlt, singleton_append]
    refine isTiling_cons.2 ⟨by simp [mk', haddr], Nat.sub_pos_of_lt hlt, ?_⟩
    have hend : m + size + (x.2.size - size) = m + x.2.size := by omega
    simpa only [mk', hend] using hrs
  · obtain rfl : size = x.2.size := by omega
    rw [if_neg hlt]
    exact hrs

theorem cutRest_all (hb : 0 < blockSize) (fresh : Nat) :
    blocksOf blockSize (cutRest x fresh (x.2.size / blockSize * blockSize) ++ R) = blocksOf blockSize R ∧
      rounds blockSize (cutRest x fresh (x.2.size / blockSize * blockSize) ++ R) ≤ 1 + rounds blockSize R := by
  have hmod : x.2.size - x.2.size / blockSize * blockSize < blockSize := by
    have hdiv := Nat.div_add_mod x.2.size blockSize
    have hlt := Nat.mod_lt x.2.size hb
    rw [Nat.mul_comm] at hdiv
    omega
  unfold cutRest
  split
  · rw [singleton_append, blocksOf_cons, rounds_cons]
    simp only [mk', true_and, if_true, Nat.div_eq_of_lt hmod, Nat.zero_add, if_neg (not_le.2 hmod)]
    exact Nat.le_refl _
  · exact ⟨rfl, Nat.le_add_left _ _⟩

theorem pairwise_append_blocks {result : List Nat} {start : Nat} (blocks : Nat)
    (hpair : result.Pairwise fun o o' => o + blockSize ≤ o')
    (hbef : ∀ o ∈ result, o + blockSize ≤ start) :
    ((result ++ (range blocks).map fun i => start + i * blockSize).Pairwise fun o o' => o + blockSize ≤ o') ∧
      ∀ o ∈ result ++ (range blocks).map fun i => start + i * blockSize, o + blockSize ≤ start + blocks * blockSize := by
  have hst : ∀ {i j : Nat}, i < j → i * blockSize + blockSize ≤ j * blockSize := by
    intro i j hij
    have hmul : (i + 1) * blockSize ≤ j * blockSize := Nat.mul_le_mul_right _ hij
    rwa [Nat.add_mul, Nat.one_mul] at hmul
  constructor
  · rw [pairwise_append]
    refine ⟨hpair, pairwise_map.2 (pairwise_lt_range.imp fun {i j} hij => ?_), ?_⟩
    · have := hst hij
      omega
    · intro o ho o' ho'
      obtain ⟨i, -, rfl⟩ := mem_map.1 ho'
      exact (hbef o ho).trans (Nat.le_add_right _ _)
  · intro o ho
    rcases mem_append.1 ho with ho | ho
    · exact (hbef o ho).trans (Nat.le_add_right _ _)
    · obtain ⟨i, hi, rfl⟩ := mem_map.1 ho
      have := hst (mem_range.1 hi)
      omega

theorem allocateBlocksLoop_full (hb : 0 < blockSize) :
    ∀ (fuel : Nat) (p : GPUTensorPool) (D R : List Cell) (result : List Nat) (m : Nat), WellFormed a b p → p.gpuBaseAddr = a →
      p.cells = D ++ R → IsTiling m R b → a ≤ m → result.length ≤ blockNumber →
      (result.length = blockNumber ∨
        rounds blockSize R ≤ fuel ∧ blockNumber ≤ result.length + blocksOf blockSize R) →
      result.Pairwise (fun o o' => o + blockSize ≤ o') → (∀ o ∈ result, a + o + blockSize ≤ m) →
      (allocateBlocksLoop blockSize blockNumber fuel (first R) result p).1.length = blockNumber ∧
        (allocateBlocksLoop blockSize blockNumber fuel (first R) result p).1.Pairwise fun o o' => o + blockSize ≤ o' := by
  intro fuel
  induction fuel with
  | zero =>
    intro p D R result m _ _ _ _ _ hle hleft hpair _
    refine ⟨?_, hpair⟩
    rcases hleft with hdone | ⟨hrnd, hen⟩
    · exact hdone
    · cases R with
      | nil => exact le_antisymm hle hen
      | cons x R =>
        rw [rounds_cons] at hrnd
        split at hrnd <;> omega
  | succ fuel ih =>
    intro p D R result m hw hba hc ht hm hle hleft hpair hbef
    cases R with
    | nil => exact ⟨hleft.elim id fun h => le_antisymm hle h.2, hpair⟩
    | cons x R =>
      have hh : Holds p (D ++ x :: R) := hc ▸ hw.holds
      have hr : p.region x.1 = x.2 := hh.region_mid
      simp only [first_cons, allocateBlocksLoop, hr]
      by_cases hlen : result.length < blockNumber
      · obtain ⟨hrnd, hen⟩ := hleft.resolve_left hlen.ne
        rw [rounds_cons] at hrnd
        rw [blocksOf_cons] at hen
        obtain ⟨haddr, -, hrs⟩ := isTiling_cons.1 ht
        by_cases hx : x.2.status = .FREE ∧ blockSize ≤ x.2.size
        · simp only [hlen, hx, and_self, if_true]
          rw [if_pos hx] at hrnd
          rw [if_pos hx.1] at hen
          have hdiv : 0 < x.2.size / blockSize := Nat.div_pos hx.2 hb
          obtain ⟨blocks, hbks⟩ : ∃ blocks, blocks = min (x.2.size / blockSize) (blockNumber - result.length) := ⟨_, rfl⟩
          rw [← hbks]
          have hn : 0 < blocks := by omega
          have hs : blocks * blockSize ≤ x.2.size := (Nat.mul_le_mul_right _ (by omega)).trans (Nat.div_mul_le_self _ _)
          obtain ⟨h1, D', fresh, h2, h3⟩ := hw.carveBlocks hba hc hx.1 hb hn hs
          rw [h3]
          have hoff : x.2.addr - p.gpuBaseAddr = m - a := by rw [haddr, hba]
          rw [hoff]
          have hlength : (result ++ (range blocks).map fun i => m - a + i * blockSize).length = result.length + blocks := by
            rw [length_append, length_map, length_range]
          have hstart : ∀ o ∈ result, o + blockSize ≤ m - a := by
            intro o ho
            have := hbef o ho
            omega
          obtain ⟨hpair', hbef'⟩ := pairwise_append_blocks blocks hpair hstart
          refine ih _ D' _ _ (m + blocks * blockSize) h1.wellFormed (h1.base.trans hba) h2 (isTiling_cutRest ht fresh hs)
            (hm.trans (Nat.le_add_right _ _)) (by omega) ?_ hpair' ?_
          · rcases Nat.le_total (blockNumber - result.length) (x.2.size / blockSize) with hfew | hmany
            · exact .inl (by omega)
            · rw [min_eq_left hmany] at hbks
              obtain ⟨hsa, hless⟩ := cutRest_all (x := x) (R := R) hb fresh
              rw [hbks, hsa]
              rw [← hbks] at hless ⊢
              exact .inr ⟨by omega, by omega⟩
          · intro o ho
            have := hbef' o ho
            omega
        · simp only [hlen, hx, if_true, if_false]
          rw [if_neg hx] at hrnd
          rw [hh.next_eq]
          refine ih p (D ++ [x]) R result (m + x.2.size) hw hba (by simpa using hc) hrs (hm.trans (Nat.le_add_right _ _)) hle
            (.inr ⟨by omega, ?_⟩) hpair fun o ho => (hbef o ho).trans (Nat.le_add_right _ _)
          -- a region without room for a block has none
          have hno : (if x.2.status = .FREE then x.2.size / blockSize else 0) = 0 := by
            split
            · rename_i hfe
              exact Nat.div_eq_of_lt (not_le.1 fun hsz => hx ⟨hfe, hsz⟩)
            · rfl
          omega
      · simp only [hlen, if_false]
        exact ⟨le_antisymm hle (not_lt.1 hlen), hpair⟩

end Loop

/-! ## The two functions -/

section Agreement

variable {P : Platform} {b blockSize n : Nat} {p : GPUTensorPool} {modelPath : String}

theorem Carved.mem_or_new {k k' : Nat} {v v' : View} (h : Carved k v k' v') {c : Cell} (hc : c ∈ allocatedOf v'.cells) :
    c ∈ allocatedOf v.cells ∨ ∃ j, k < j ∧ c.2.fingerprint = kvFingerprint j := by
  induction h with
  | refl k v => exact .inl hc
  | @carve k n k' size addr m v v₁ v' hn hp h ih =>
    rcases ih hc with hc | ⟨j, hj, hfp⟩
    · obtain ⟨i, -, hmem, -⟩ := hp.mem_iff
      rcases (hmem c).1 hc with rfl | hc
      · exact .inr ⟨k + n, by omega, rfl⟩
      · exact .inl hc
    · exact .inr ⟨j, by omega, hfp⟩

/-- The blocks that fit into the FREE regions and into those of other models. -/
def roomFor (modelPath : String) (blockSize : Nat) (l : List Cell) : Nat :=
  total (fun c : Cell => if c.2.status = .FREE ∨ isOther modelPath c.2 = true then c.2.size / blockSize else 0) l

theorem availableBlocks_eq_roomFor {a : Nat} (h : WellFormed a b p) (modelPath : String) (blockSize : Nat) :
    p.availableBlocks modelPath blockSize = roomFor modelPath blockSize p.cells := by
  unfold availableBlocks
  rw [h.holds.map_regions fun r => if r.status = .FREE then r.size / blockSize
    else if isOther modelPath r then r.size / blockSize else 0]
  refine congrArg sum (map_congr_left ?_)
  intro c _
  by_cases hfe : c.2.status = .FREE
  · simp [hfe]
  · simp [hfe]

/-- The blocks that a call has returned: as many as it was asked for, apart from each other, inside the pool, and apart from the
regions that are still ALLOCATED under their fingerprint. -/
structure Allocates (P : Platform) (p : GPUTensorPool) (b blockSize : Nat) (modelPath : String) (n : Nat) : Prop where
  count : (p.allocateBlocks P blockSize modelPath n).1.length = n
  disjoint : (p.allocateBlocks P blockSize modelPath n).1.Pairwise fun o o' => Apart o blockSize o' blockSize
  inside : ∀ o ∈ (p.allocateBlocks P blockSize modelPath n).1, p.gpuBaseAddr + o + blockSize ≤ b
  kept : ∀ c ∈ allocatedOf p.cells, ∀ d ∈ allocatedOf (p.allocateBlocks P blockSize modelPath n).2.cells, d.1 = c.1 →
    d.2.fingerprint = c.2.fingerprint → ∀ o ∈ (p.allocateBlocks P blockSize modelPath n).1,
      Apart c.2.addr c.2.size (p.gpuBaseAddr + o) blockSize

/-- `AllocateBlocks` succeeds exactly when `GetAvailableBlocks` has enough; then it allocates, and else it leaves the list and
the index. -/
structure Agrees (P : Platform) (p : GPUTensorPool) (b blockSize : Nat) (modelPath : String) (n : Nat) : Prop where
  iff : (p.allocateBlocks P blockSize modelPath n).1 ≠ [] ↔ (n : Int) ≤ p.getAvailableBlocks modelPath blockSize
  allocates : (p.allocateBlocks P blockSize modelPath n).1 ≠ [] → Allocates P p b blockSize modelPath n
  refused : (p.allocateBlocks P blockSize modelPath n).1 = [] →
    (p.allocateBlocks P blockSize modelPath n).2.store = p.store ∧
      (p.allocateBlocks P blockSize modelPath n).2.memoryRegions = p.memoryRegions ∧
      (p.allocateBlocks P blockSize modelPath n).2.allocatedRegions = p.allocatedRegions

theorem allocateBlocks_cases (P : Platform) (modelPath : String) (h : WellFormed p.gpuBaseAddr b p)
    (hb : 0 < blockSize) (hn : 0 < n) :
    (n ≤ roomFor modelPath blockSize p.cells ∧ (p.allocateBlocks P blockSize modelPath n).1.length = n ∧
        (p.allocateBlocks P blockSize modelPath n).1.Pairwise fun o o' => o + blockSize ≤ o') ∨
      (roomFor modelPath blockSize p.cells < n ∧ (p.allocateBlocks P blockSize modelPath n).1 = [] ∧
        ∃ ma, (p.allocateBlocks P blockSize modelPath n).2 = { p with modelAccess := ma }) := by
  have hev := greedyDropBlocks_spec (P := P) h blockSize modelPath n
  rw [← availableBlocks_eq_roomFor h]
  unfold allocateBlocks
  rcases greedyDropBlocks_cases (P := P) h modelPath hb hn with
    ⟨hen, hret, hbks⟩ | ⟨hshort, hret, ma, hsa⟩
  · refine .inl ⟨hen, ?_⟩
    generalize p.greedyDropBlocks P blockSize modelPath n = r at hev hret hbks
    have hrnd : rounds blockSize r.2.cells ≤ 2 * r.2.store.fresh :=
      (rounds_le blockSize _).trans (Nat.mul_le_mul_left 2 hev.wellFormed.holds.rep.length_le)
    obtain ⟨hlen, hpair⟩ := allocateBlocksLoop_full hb (2 * r.2.store.fresh) r.2 [] r.2.cells [] p.gpuBaseAddr hev.wellFormed
      hev.frame.base rfl hev.wellFormed.layout.tiling (Nat.le_refl _) (Nat.zero_le n)
      (.inr ⟨hrnd, by rw [length_nil, Nat.zero_add]; exact hbks⟩) List.Pairwise.nil (by simp)
    simp only [hret, ne_eq, not_true_eq_false, if_false, hev.wellFormed.holds.head, Int.toNat_natCast]
    rw [if_neg (by rw [hlen]; exact lt_irrefl n)]
    exact ⟨hlen, hpair⟩
  · refine .inr ⟨hshort, ?_⟩
    simp only [hret, ne_eq, not_false_eq_true, if_true]
    exact ⟨trivial, ma, hsa⟩

theorem allocates (h : WellFormed p.gpuBaseAddr b p) (hk : KvBelow p.allocatedBlockId p.view)
    (hcnt : (p.allocateBlocks P blockSize modelPath n).1.length = n)
    (hpair : (p.allocateBlocks P blockSize modelPath n).1.Pairwise fun o o' => o + blockSize ≤ o') :
    Allocates P p b blockSize modelPath n := by
  obtain ⟨q, hq, hcrv⟩ := h.allocateBlocks (P := P) rfl blockSize modelPath n
  have hba := hcrv.base.trans hq.frame.base
  refine ⟨hcnt, hpair.imp .inl, ?_, ?_⟩
  · intro o ho
    obtain ⟨e, he, -, -, hcov⟩ := hcrv.fresh o ho
    have hmem := hcrv.wellFormed.layout.tiling.mem (mem_allocatedOf.1 he).1
    rw [hba] at hcov
    exact hcov.2.trans hmem.2.2
  · intro c hc d hd hid hfp o ho
    obtain ⟨e, he, hnew, -, hcov⟩ := hcrv.fresh o ho
    rw [hba] at hcov
    rcases hcrv.carved.mem_or_new hd with hdq | ⟨j, hj, hkv⟩
    · -- the region was not freed, so it is the same
      have hdp := hq.evicted.mem_of_mem hdq
      have hdc : d = c := eq_of_fst_eq h.layout.nodup (mem_allocatedOf.1 hdp).1 (mem_allocatedOf.1 hc).1 hid
      rw [hdc] at hd hdq
      have hne : c ≠ e := by
        rintro rfl
        exact hnew hdq
      have happart := hcrv.wellFormed.layout.tiling.apart (mem_allocatedOf.1 hd).1 (mem_allocatedOf.1 he).1 hne
      unfold Covers at hcov
      unfold Apart at happart ⊢
      omega
    · -- a new region has a number that was never used
      rw [hq.frame.blockId] at hj
      exact absurd (hfp.symm.trans hkv) (hk j hj c hc)

/-- The two functions agree exactly when there is not room enough, or the `int` of the room is still enough. -/
theorem allocateBlocks_agrees_iff (P : Platform) (modelPath : String) (h : WellFormed p.gpuBaseAddr b p)
    (hk : KvBelow p.allocatedBlockId p.view) (hb : 0 < blockSize) (hn : 0 < n) (hmax : n < 2 ^ 31) :
    Agrees P p b blockSize modelPath n ↔ roomFor modelPath blockSize p.cells < n ∨
      n ≤ roomFor modelPath blockSize p.cells % 2 ^ 32 ∧ roomFor modelPath blockSize p.cells % 2 ^ 32 < 2 ^ 31 := by
  have hint : (n : Int) ≤ p.getAvailableBlocks modelPath blockSize ↔
      n ≤ roomFor modelPath blockSize p.cells % 2 ^ 32 ∧ roomFor modelPath blockSize p.cells % 2 ^ 32 < 2 ^ 31 := by
    unfold getAvailableBlocks
    rw [availableBlocks_eq_roomFor h]
    unfold Int.bmod
    dsimp only
    split <;> omega
  have hmod : roomFor modelPath blockSize p.cells % 2 ^ 32 ≤ roomFor modelPath blockSize p.cells := Nat.mod_le _ _
  rcases allocateBlocks_cases P modelPath h hb hn with ⟨hen, hcnt, hpair⟩ | ⟨hshort, hnil, ma, hsa⟩
  · have hne : (p.allocateBlocks P blockSize modelPath n).1 ≠ [] := by
      intro hnil
      rw [hnil] at hcnt
      exact hn.ne hcnt
    constructor
    · intro hagr
      exact .inr (hint.1 (hagr.iff.1 hne))
    · rintro (hshort | hro)
      · omega
      · exact ⟨⟨fun _ => hint.2 hro, fun _ => hne⟩, fun _ => allocates h hk hcnt hpair, fun hnil => absurd hnil hne⟩
  · refine ⟨fun _ => .inl hshort, fun _ => ⟨⟨fun hne => absurd hnil hne, ?_⟩, fun hne => absurd hnil hne, ?_⟩⟩
    · intro hle
      have hro := hint.1 hle
      omega
    · intro _
      rw [hsa]
      exact ⟨rfl, rfl, rfl⟩

/-- A pool of one FREE region. -/
def emptyPool (total : Nat) : GPUTensorPool := .init 1 total 1 fun _ => 0

theorem wellFormed_emptyPool {total : Nat} (ht : 0 < total) : WellFormed (emptyPool total).gpuBaseAddr (1 + total)
    (emptyPool total) :=
  wellFormed_init ht 1 fun _ => 0

theorem kvBelow_emptyPool {total : Nat} (ht : 0 < total) : KvBelow (emptyPool total).allocatedBlockId (emptyPool total).view :=
  (poolComplete_init Nat.one_pos ht 1 fun _ => 0).kvBelow

theorem roomFor_emptyPool (total : Nat) (modelPath : String) (blockSize : Nat) :
    roomFor modelPath blockSize (emptyPool total).cells = total / blockSize := by
  unfold emptyPool
  rw [(holds_init 1 total 1 fun _ => 0).cells_eq]
  simp [roomFor, mk']

theorem allocateBlocks_agrees_iff_small : Agrees .reliable (emptyPool 5) 6 2 "A" 2 := by
  refine (allocateBlocks_agrees_iff .reliable "A" (wellFormed_emptyPool (by decide)) (kvBelow_emptyPool (by decide)) (by decide)
    (by decide) (by decide)).2 ?_
  rw [roomFor_emptyPool]
  decide

/-- A pool of two gigabytes has a negative number of blocks of one byte, but `AllocateBlocks` finds one. -/
theorem getAvailableBlocks_not_agrees : ¬∀ (P : Platform) (p : GPUTensorPool) (b blockSize : Nat)
    (modelPath : String) (n : Nat),
    WellFormed p.gpuBaseAddr b p → KvBelow p.allocatedBlockId p.view → 0 < blockSize → 0 < n → n < 2 ^ 31 →
    Agrees P p b blockSize modelPath n := by
  intro hall
  have hagr := hall .reliable (emptyPool (2 ^ 31)) _ 1 "A" 1 (wellFormed_emptyPool (by decide)) (kvBelow_emptyPool (by decide))
    Nat.one_pos Nat.one_pos (by decide)
  have hle : ((1 : Nat) : Int) ≤ (emptyPool (2 ^ 31)).getAvailableBlocks "A" 1 := by
    refine hagr.iff.1 ?_
    intro hnil
    rcases allocateBlocks_cases .reliable "A" (wellFormed_emptyPool (by decide : 0 < 2 ^ 31)) Nat.one_pos Nat.one_pos with
      ⟨-, hcnt, -⟩ | ⟨hshort, -⟩
    · rw [hnil] at hcnt
      nomatch hcnt
    · rw [roomFor_emptyPool] at hshort
      exact absurd hshort (by decide)
  unfold getAvailableBlocks at hle
  rw [availableBlocks_eq_roomFor (wellFormed_emptyPool (by decide)), roomFor_emptyPool] at hle
  exact absurd hle (by decide)

end Agreement

end ServerlessLLM
