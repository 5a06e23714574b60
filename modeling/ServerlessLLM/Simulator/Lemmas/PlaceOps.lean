import Mathlib.Algebra.BigOperators.Ring.List
import Mathlib.Algebra.Order.BigOperators.Group.List
import Mathlib.Algebra.Order.Group.Nat
import Mathlib.Algebra.Ring.Nat
import ServerlessLLM.Simulator.Lemmas.SegmentOps
import ServerlessLLM.Simulator.MockSegment

/-!
# Placing the groups of a request

What a list of extents holds, as keys with their sizes, is what the merging of partitions keeps and what reserving adds to.
-/

namespace ServerlessLLM.Simulator

open List Option Except Prod Tiling MockSegmentMemory Extent

namespace MockSegmentMemory

open Extent

variable {limit : Nat} {extents : List Extent}

def bytesOf (sizes : Sizes) : Nat := Tiling.total Prod.snd sizes

theorem bytesOf_perm {sizes sizes' : Sizes} (h : sizes.Perm sizes') : bytesOf sizes = bytesOf sizes' := (h.map _).sum_eq

theorem splitRequests_spec {sizes left right : Sizes} {leftFree rightFree : Nat}
    (h : splitRequests leftFree rightFree sizes = some (left, right)) :
    (left ++ right).Perm sizes ∧ bytesOf left ≤ leftFree ∧ bytesOf right ≤ rightFree := by
  induction sizes generalizing leftFree rightFree left right with
  | nil =>
    obtain ⟨rfl, rfl⟩ := Prod.mk.inj (Option.some.inj h)
    exact ⟨List.Perm.refl _, Nat.zero_le _, Nat.zero_le _⟩
  | cons x sizes ih =>
    obtain ⟨key, size⟩ := x
    rw [splitRequests] at h
    split at h
    · rename_i hsz
      obtain ⟨⟨l, r⟩, hs, heq⟩ := map_eq_some_iff.1 h
      obtain ⟨rfl, rfl⟩ := Prod.mk.inj heq
      obtain ⟨hpm, hl, hr⟩ := ih hs
      refine ⟨hpm.cons _, ?_, hr⟩
      have := hsz.1
      rw [bytesOf, total_cons]
      rw [bytesOf] at hl
      dsimp only
      omega
    · split at h
      · rename_i hsz
        obtain ⟨⟨l, r⟩, hs, heq⟩ := map_eq_some_iff.1 h
        obtain ⟨rfl, rfl⟩ := Prod.mk.inj heq
        obtain ⟨hpm, hl, hr⟩ := ih hs
        refine ⟨perm_middle.trans (hpm.cons _), hl, ?_⟩
        rw [bytesOf, total_cons]
        rw [bytesOf] at hr
        dsimp only
        omega
      · cases h

def Fits (limit : Nat) (group : List Extent × Sizes) : Prop := bytesOf group.2 ≤ Tiling.total (room limit) group.1

variable {frees : List Extent} {requests : Sizes}

theorem splitAt_spec {pending : Sizes} {split n : Nat} {left right : List Extent × Sizes}
    (h : splitAt limit extents frees pending split = some (n, left, right)) :
    left.1 ++ right.1 = frees ∧ left.1 ≠ [] ∧ right.1 ≠ [] ∧ (left.2 ++ right.2).Perm pending ∧ Fits limit left ∧
      Fits limit right := by
  unfold splitAt at h
  split at h
  · rename_i x y hx hy
    obtain ⟨⟨l, r⟩, hs, heq⟩ := map_eq_some_iff.1 h
    obtain ⟨-, rfl, rfl⟩ : _ ∧ _ ∧ _ := by simpa using heq
    obtain ⟨hpm, hl, hr⟩ := splitRequests_spec hs
    obtain ⟨hlt, -⟩ := List.getElem?_eq_some_iff.1 hy
    refine ⟨take_append_drop _ _, ?_, ?_, hpm, hl, hr⟩
    · intro hnil
      rcases take_eq_nil_iff.1 hnil with hnil | hnil
      · cases hnil
      · rw [hnil] at hlt
        cases hlt
    · intro hnil
      have := drop_eq_nil_iff.1 hnil
      omega
  · cases h

theorem bestSplit_spec {pending : Sizes} {s : Nat × (List Extent × Sizes) × (List Extent × Sizes)}
    (h : bestSplit limit extents frees pending = some s) : ∃ split, splitAt limit extents frees pending split = some s := by
  unfold bestSplit at h
  revert s
  refine foldlRecOn (motive := fun best => ∀ {s}, best = some s →
    ∃ split, splitAt limit extents frees pending split = some s) _ _
    (by simp) ?_
  intro best hbest split _ s hs
  cases hcand : splitAt limit extents frees pending split with
  | none =>
    rw [hcand] at hs
    exact hbest hs
  | some candidate =>
    rw [hcand] at hs
    dsimp only at hs
    split at hs
    · obtain rfl := some.inj hs
      exact ⟨split, hcand⟩
    · exact hbest hs

/-- Consecutive pieces of the free extents, with the requests that they are to hold. -/
structure Pieces (limit : Nat) (frees : List Extent) (requests : Sizes) (groups : List (List Extent × Sizes)) : Prop where
  frees_eq : groups.flatMap fst = frees
  requests_perm : (groups.flatMap snd).Perm requests
  fits : ∀ group ∈ groups, Fits limit group

theorem pieces_splitGroup (extents : List Extent) {group : List Extent × Sizes} (h : Fits limit group) :
    Pieces limit group.1 group.2 ((splitGroup limit extents group).getD [group]) := by
  cases hs : splitGroup limit extents group with
  | none => exact ⟨by simp, by simp, by simpa using h⟩
  | some groups =>
    unfold splitGroup at hs
    split at hs
    · cases hs
    · obtain ⟨⟨n, left, right⟩, hb, rfl⟩ := map_eq_some_iff.1 hs
      obtain ⟨split, hspl⟩ := bestSplit_spec hb
      obtain ⟨hfrees, -, -, hpm, hl, hr⟩ := splitAt_spec hspl
      refine ⟨by simpa using hfrees, by simpa using hpm, ?_⟩
      intro g hg
      rw [getD_some, mem_cons, mem_singleton] at hg
      rcases hg with rfl | rfl
      · exact hl
      · exact hr

theorem Pieces.round {groups : List (List Extent × Sizes)} (h : Pieces limit frees requests groups) :
    Pieces limit frees requests (groups.flatMap fun group => (splitGroup limit extents group).getD [group]) := by
  obtain ⟨hfrees, hpm, hft⟩ := h
  subst hfrees
  induction groups generalizing requests with
  | nil => exact ⟨rfl, hpm, by simp⟩
  | cons group groups ih =>
    obtain ⟨h1, h2, h3⟩ := pieces_splitGroup extents (hft group mem_cons_self)
    obtain ⟨h4, h5, h6⟩ := ih (List.Perm.refl _) fun g hg => hft g (mem_cons_of_mem _ hg)
    refine ⟨?_, ?_, ?_⟩
    · rw [flatMap_cons, flatMap_append, h1, h4, flatMap_cons]
    · rw [flatMap_cons, flatMap_append]
      exact (h2.append h5).trans hpm
    · intro g hg
      rw [flatMap_cons] at hg
      rcases mem_append.1 hg with hg | hg
      · exact h3 g hg
      · exact h6 g hg

theorem Pieces.rounds {groups : List (List Extent × Sizes)} (h : Pieces limit frees requests groups) (fuel : Nat) :
    Pieces limit frees requests (partitionRounds limit extents fuel groups) := by
  induction fuel generalizing groups with
  | zero => exact h
  | succ fuel ih =>
    rw [partitionRounds]
    split
    · exact ih h.round
    · exact h

theorem pieces_partitionRequests (hne : requests ≠ [])
    (h : bytesOf requests ≤ total (room limit) (freeBelow limit extents)) :
    Pieces limit (freeBelow limit extents) requests (partitionRequests limit extents requests) := by
  unfold partitionRequests
  rw [if_neg hne]
  refine Pieces.rounds ⟨by simp, by simp, ?_⟩ _
  intro group hg
  rw [mem_singleton.1 hg]
  exact h

end MockSegmentMemory

namespace Extent

variable {capacity nextId nextId' : Nat} {l before region after mid : List Extent}

/-! ## What extents hold -/

def held (l : List Extent) : Sizes := l.filterMap fun e => e.key.map fun key => (key, e.size)

variable (l : List Extent) {e : Extent}

@[simp] theorem held_append (l' : List Extent) : held (l ++ l') = held l ++ held l' := filterMap_append

theorem held_cons_free (h : e.key = none) (l : List Extent) : held (e :: l) = held l := by simp [held, h]

theorem held_cons_key {key : Key} (h : e.key = some key) (l : List Extent) :
    held (e :: l) = (key, e.size) :: held l := by simp [held, h]

theorem held_allocated : held (allocated l) = held l := by
  induction l with
  | nil => rfl
  | cons e l ih =>
    cases hk : e.key with
    | none => rw [allocated_cons_free hk, held_cons_free hk, ih]
    | some key => rw [allocated_cons_key hk, held_cons_key hk, held_cons_key hk, ih]

theorem map_fst_held : (held l).map Prod.fst = l.filterMap key := by
  rw [held, map_filterMap]
  congr
  funext e
  cases e.key <;> rfl

theorem bytesOf_held : MockSegmentMemory.bytesOf (held l) = Tiling.total size (allocated l) := by
  induction l with
  | nil => rfl
  | cons e l ih =>
    cases hk : e.key with
    | none => rw [allocated_cons_free hk, held_cons_free hk, ih]
    | some key =>
      rw [allocated_cons_key hk, held_cons_key hk, total_cons, ← ih, bytesOf, bytesOf,
        total_cons]

theorem held_repack (cursor id : Nat) (l : List Extent) : held (repack cursor id l) = held l := by
  induction l generalizing cursor id with
  | nil => rfl
  | cons e l ih =>
    rw [repack]
    cases hk : e.key with
    | none => rw [held_cons_free hk, held_cons_free rfl, ih]
    | some key => rw [held_cons_key hk, held_cons_key rfl, ih]

theorem held_carve (e : Extent) (id : Nat) (key : Key) (n : Nat) : held (e.carve id key n) = [(key, n)] := by
  rw [← held_allocated, allocated_carve]
  rfl

theorem total_eq_add :
    total size l = total size (allocated l) + total size (l.filter fun e => e.key = none) := by
  induction l with
  | nil => rfl
  | cons e l ih =>
    cases hk : e.key with
    | none =>
      rw [allocated_cons_free hk, filter_cons_of_pos (by simp [hk]), total_cons, total_cons]
      omega
    | some key =>
      rw [allocated_cons_key hk, filter_cons_of_neg (by simp [hk]), total_cons, total_cons]
      omega

/-! ## Replacing a part of a layout -/

theorem Layout.replace (h : Layout capacity nextId (before ++ region ++ after)) (hle : nextId ≤ nextId')
    (hadj : ∀ a b, Adjoins offset size a region b → Adjoins offset size a mid b)
    (hks : ((before ++ mid ++ after).filterMap key).Nodup) (hids : (mid.map id).Nodup)
    (hnew : ∀ e ∈ mid, nextId ≤ e.id ∧ e.id < nextId') : Layout capacity nextId' (before ++ mid ++ after) where
  adjoins := by
    obtain ⟨b, h12, h3⟩ := adjoins_append_iff.1 h.adjoins
    obtain ⟨a, h1, h2⟩ := adjoins_append_iff.1 h12
    exact adjoins_append_iff.2 ⟨b, adjoins_append_iff.2 ⟨a, h1, hadj a b h2⟩, h3⟩
  keys := hks
  ids := by
    have hold : ((before ++ after).map id).Nodup := by
      refine h.ids.sublist (List.Sublist.map _ ?_)
      rw [append_assoc]
      exact (List.Sublist.refl _).append (sublist_append_right _ _)
    have hpm : (mid ++ (before ++ after)).Perm (before ++ mid ++ after) := by
      rw [← append_assoc]
      exact perm_append_comm.append_right _
    rw [← (hpm.map id).nodup_iff, map_append, nodup_append]
    refine ⟨hids, hold, ?_⟩
    intro i hi j hj hij
    obtain ⟨x, hx, rfl⟩ := mem_map.1 hi
    obtain ⟨y, hy, rfl⟩ := mem_map.1 hj
    have hlt : y.id < nextId := by
      refine h.fresh y ?_
      simp only [mem_append] at hy ⊢
      tauto
    have := (hnew x hx).1
    omega
  fresh := by
    intro e he
    by_cases hmid : e ∈ mid
    · exact (hnew e hmid).2
    · refine Nat.lt_of_lt_of_le (h.fresh e ?_) hle
      simp only [mem_append] at he ⊢
      tauto

theorem findIdx?_id (h : ((before ++ e :: after).map id).Nodup) :
    (before ++ e :: after).findIdx? (fun x => x.id = e.id) = some before.length := by
  rw [map_append, map_cons, nodup_append, nodup_cons] at h
  rw [findIdx?_append]
  have hno : (before.findIdx? fun x => x.id = e.id) = none := by
    rw [findIdx?_eq_none_iff]
    intro x hx
    exact decide_eq_false (h.2.2 x.id (mem_map_of_mem hx) e.id (by simp))
  rw [hno]
  simp [findIdx?_cons]

end Extent

namespace SegmentMemory

open Extent

variable {m m' m'' : SegmentMemory}

/-- The extents are laid out, the index is right, and the weights may use the whole pool. -/
structure Laid (m : SegmentMemory) : Prop where
  layout : Layout m.capacityBytes m.nextId m.extents
  indexed : m.Indexed
  limit : m.weightCapacityBytes = m.capacityBytes

/-- Nothing but the extents and their index is changed. -/
structure SameFrame (m m' : SegmentMemory) : Prop where
  capacity_eq : m'.capacityBytes = m.capacityBytes
  accesses_eq : m'.accesses = m.accesses

theorem SameFrame.refl (m : SegmentMemory) : SameFrame m m := ⟨rfl, rfl⟩

theorem SameFrame.trans (h : SameFrame m m') (h' : SameFrame m' m'') : SameFrame m m'' :=
  ⟨h'.capacity_eq.trans h.capacity_eq, h'.accesses_eq.trans h.accesses_eq⟩

end SegmentMemory

namespace MockSegmentMemory

open Extent SegmentMemory

variable {m : SegmentMemory} {before region after : List Extent} {first last : Extent}

/-- The free extent at the end of a partition that is merged. -/
def mergedFree (id cursor : Nat) (region : List Extent) : Extent :=
  ⟨id + (allocated region).length, cursor + total size (allocated region),
    total size (region.filter fun e => e.key = none), none⟩

def merged (id cursor : Nat) (region : List Extent) : List Extent :=
  repack cursor id (allocated region) ++ [mergedFree id cursor region]

theorem filterMap_key_merged (id cursor : Nat) (region : List Extent) :
    (merged id cursor region).filterMap key = region.filterMap key := by
  rw [merged, filterMap_append, filterMap_key_repack, filterMap_key_allocated]
  exact append_nil _

theorem ids_merged (id cursor : Nat) (region : List Extent) :
    (merged id cursor region).map Extent.id = range' id ((allocated region).length + 1) := by
  rw [merged, map_append, ids_repack, range'_concat, Nat.one_mul]
  rfl

theorem adjoins_merged {id a b : Nat} (h : Tiling.Adjoins offset size a region b) :
    Adjoins offset size a (merged id a region) b := by
  have htot := total_eq_add region
  have hend := h.end_eq
  refine adjoins_append_iff.2 ⟨_, adjoins_repack a id (allocated region), rfl, ?_⟩
  exact (show a + total size (allocated region) + total size (region.filter fun e => e.key = none) = b by omega)

theorem mergePartition_eq (h : m.Laid) (hspl : m.extents = before ++ region ++ after) (hfst : region.head? = some first)
    (hla : region.getLast? = some last) :
    mergePartition m first last = .ok (mergedFree m.nextId first.offset region, movedBytes first.offset (allocated region),
      { m with
        extents := before ++ merged m.nextId first.offset region ++ after
        nextId := m.nextId + (allocated region).length + 2
        allocatedExtents := byKey (before ++ merged m.nextId first.offset region ++ after) }) := by
  have hlay := h.layout
  rw [hspl] at hlay
  obtain ⟨b, h12, h3⟩ := adjoins_append_iff.1 hlay.adjoins
  obtain ⟨a, -, h2⟩ := adjoins_append_iff.1 h12
  have hend : last.offset + last.size = b := h2.end_getLast hla
  have hb := h3.end_eq
  obtain ⟨tail, htail⟩ := head?_eq_some_iff.1 hfst
  obtain ⟨front, hfrt⟩ := getLast?_eq_some_iff.1 hla
  have hidx₁ : m.extents.findIdx? (fun e => e.id = first.id) = some before.length := by
    have heq : m.extents = before ++ first :: (tail ++ after) := by
      rw [hspl, htail]
      simp
    rw [heq]
    exact findIdx?_id (heq ▸ h.layout.ids)
  have hidx₂ : m.extents.findIdx? (fun e => e.id = last.id) = some (before ++ front).length := by
    have heq : m.extents = (before ++ front) ++ last :: after := by
      rw [hspl, hfrt]
      simp
    rw [heq]
    exact findIdx?_id (heq ▸ h.layout.ids)
  have hlen : (before ++ front).length + 1 = (before ++ region).length := by
    rw [hfrt]
    simp
    omega
  have htake : (m.extents.take ((before ++ front).length + 1)).drop before.length = region := by
    rw [hlen, hspl, take_left, drop_left]
  have hdrop : m.extents.drop ((before ++ front).length + 1) = after := by
    rw [hlen, hspl, drop_left]
  have hbef : m.extents.take before.length = before := by
    rw [hspl, append_assoc, take_left]
  have hro : total (room b) (region.filter fun e => e.key = none) =
      total size (region.filter fun e => e.key = none) := by
    unfold total
    congr 1
    refine map_congr_left ?_
    intro e he
    have := (h2.pairwise.2 e (mem_filter.1 he).1).2
    rw [room]
    omega
  have hmin : min b m.weightCapacityBytes = b := by
    rw [h.limit]
    omega
  unfold mergePartition
  rw [hidx₁, hidx₂]
  dsimp only
  rw [htake, hdrop, hbef, hend, hmin, hro, rest, if_neg (Nat.lt_irrefl b)]
  rfl

theorem laid_merged (h : m.Laid) (hspl : m.extents = before ++ region ++ after) (hfst : region.head? = some first) : { m with
      extents := before ++ merged m.nextId first.offset region ++ after
      nextId := m.nextId + (allocated region).length + 2
      allocatedExtents := byKey (before ++ merged m.nextId first.offset region ++ after) }.Laid := by
  have hlay := h.layout
  rw [hspl] at hlay
  have hks : ((before ++ merged m.nextId first.offset region ++ after).filterMap key).Nodup := by
    have hnd := hlay.keys
    rw [filterMap_append, filterMap_append] at hnd ⊢
    rwa [filterMap_key_merged]
  refine ⟨hlay.replace (by dsimp only; omega) ?_ hks ?_ ?_, fun key e => get?_byKey hks, h.limit⟩
  · intro a b hab
    rw [hab.start_head hfst]
    exact adjoins_merged hab
  · rw [ids_merged]
    exact nodup_range'
  · intro e he
    have hmem : e.id ∈ (merged m.nextId first.offset region).map Extent.id := mem_map_of_mem he
    rw [ids_merged, mem_range'_1] at hmem
    dsimp only
    omega

/-! ## Reserving -/

variable {e : Extent} {key : Key} {n : Nat}

theorem laid_carve (h : m.Laid) (hspl : m.extents = before ++ e :: after) (hfe : e.key = none) (hn : n ≤ e.size)
    (hkey : ¬m.Resident key) : { m with
      extents := before ++ (e.carve m.nextId key n ++ after)
      nextId := m.nextId + 2
      allocatedExtents := m.allocatedExtents.set key (e.front m.nextId key n) }.Laid := by
  have hlay := h.layout
  rw [hspl] at hlay
  rw [Resident, hspl] at hkey
  have hnew := hlay.carve hfe hn hkey
  exact ⟨hnew, indexed_carve h.indexed hspl hfe hnew.keys, h.limit⟩

theorem reserve_spec (h : m.Laid) (hspl : m.extents = before ++ e :: after) (hfe : e.key = none) (hn : n ≤ e.size)
    (hkey : ¬m.Resident key) :
    ∃ m', reserve m (some e) key n = .ok ((e.carve m.nextId key n)[1]?, m') ∧ m'.Laid ∧ SameFrame m m' ∧
      m'.extents = before ++ (e.carve m.nextId key n ++ after) := by
  have hidx : m.extents.findIdx? (fun x => x.id = e.id) = some before.length := by
    have hids := h.layout.ids
    rw [hspl] at hids ⊢
    exact findIdx?_id hids
  have htake : m.extents.take before.length = before := by
    rw [hspl, take_left]
  have hdrop : m.extents.drop (before.length + 1) = after := by
    rw [hspl]
    simp
  refine ⟨_, ?_, laid_carve h hspl hfe hn hkey, ⟨rfl, rfl⟩, rfl⟩
  unfold reserve
  dsimp only
  rw [hidx]
  dsimp only
  rw [htake, hdrop]

/-- A list that replaced a free extent: allocated extents, and at most one free extent behind them. -/
def Filled (mid : List Extent) : Prop := ∃ front back, mid = front ++ back ∧ (∀ x ∈ front, x.key.isSome) ∧ back.length ≤ 1

variable {mid : List Extent} {pending : Sizes} {done : List Extent}

theorem Filled.cons {x : Extent} (hx : x.key.isSome) (h : Filled mid) : Filled (x :: mid) := by
  obtain ⟨front, back, rfl, hfrt, hback⟩ := h
  refine ⟨x :: front, back, rfl, ?_, hback⟩
  intro y hy
  rcases mem_cons.1 hy with rfl | hy
  · exact hx
  · exact hfrt y hy

/-- When what is asked for has sizes of whole blocks, and so has what is there, then what is there afterwards has them too. -/
def KeepsMultiples (pending : Sizes) (l l' : List Extent) : Prop :=
  ∀ d, (∀ x ∈ pending, d ∣ x.2) → Multiples d l → Multiples d l'

/-- What is in the place of a free extent `e` after objects were reserved in it. -/
structure Reserved (m : SegmentMemory) (before after : List Extent) (e : Extent) (pending : Sizes)
    (m' : SegmentMemory) : Prop where
  laid : m'.Laid
  frame : SameFrame m m'
  extents : ∃ mid, m'.extents = before ++ (mid ++ after) ∧ held mid = pending ∧ Filled mid ∧ KeepsMultiples pending [e] mid

theorem reserveAll_spec (h : m.Laid) (hspl : m.extents = before ++ e :: after) (hfe : e.key = none)
    (hbyt : bytesOf pending ≤ e.size) (hnd : (pending.map fst).Nodup) (hks : ∀ k ∈ pending.map fst, ¬m.Resident k) :
    (∀ m', reserveAll m (some e) pending = .ok m' → Reserved m before after e pending m') ∧
      ((∀ x ∈ pending, 0 < x.2) → ∃ m', reserveAll m (some e) pending = .ok m') := by
  induction pending generalizing m before e with
  | nil =>
    refine ⟨?_, fun _ => ⟨m, rfl⟩⟩
    intro m' hok
    obtain rfl : m = m' := ok.inj hok
    refine ⟨h, .refl m, [e], by simpa using hspl, ?_, ⟨[], [e], rfl, by simp, by simp⟩, fun _ _ he => he⟩
    rw [held_cons_free hfe]
    rfl
  | cons x pending ih =>
    obtain ⟨k, size⟩ := x
    rw [bytesOf, total_cons] at hbyt
    rw [map_cons, nodup_cons] at hnd
    have hsz : size ≤ e.size := by
      dsimp only at hbyt
      omega
    obtain ⟨m₁, hres, hlaid, hfrm, hext⟩ := reserve_spec h hspl hfe hsz (hks k (by simp))
    have hks₁ : ∀ k' ∈ pending.map fst, ¬m₁.Resident k' := by
      intro k' hk' hr
      rw [Resident, hext, (keys_split hfe _ _ _).mem_iff, mem_cons, ← hspl] at hr
      rcases hr with rfl | hr
      · exact hnd.1 hk'
      · exact hks k' (mem_cons_of_mem _ hk') hr
    have hst : ∀ rest, (e.carve m.nextId k size)[1]? = rest →
        reserveAll m (some e) ((k, size) :: pending) = reserveAll m₁ rest pending := by
      intro rest hrs
      rw [reserveAll, hres, hrs]
      rfl
    by_cases hlt : size < e.size
    · -- Something is left of the free extent, and the next object goes there.
      have hcrv : e.carve m.nextId k size = e.front m.nextId k size ::
          [⟨m.nextId + 1, e.offset + size, e.size - size, none⟩] := by
        rw [carve, if_pos hlt]
      have hrs : (e.carve m.nextId k size)[1]? = some ⟨m.nextId + 1, e.offset + size, e.size - size, none⟩ := by
        rw [hcrv]
        rfl
      have hext₁ : m₁.extents = (before ++ [e.front m.nextId k size]) ++
          ⟨m.nextId + 1, e.offset + size, e.size - size, none⟩ :: after := by
        rw [hext, hcrv]
        simp
      rw [hst _ hrs]
      obtain ⟨ih1, ih2⟩ := ih hlaid hext₁ rfl (by rw [bytesOf]; dsimp only at hbyt ⊢; omega) hnd.2 hks₁
      refine ⟨?_, fun hpos => ih2 fun y hy => hpos y (mem_cons_of_mem _ hy)⟩
      intro m' hok
      obtain ⟨hlaid', hfrm', mid, hmid, hhe, hfil, hmul⟩ := ih1 m' hok
      refine ⟨hlaid', hfrm.trans hfrm', e.front m.nextId k size :: mid, ?_, ?_, hfil.cons rfl, ?_⟩
      · rw [hmid]
        simp
      · rw [held_cons_key rfl, hhe]
        rfl
      · intro d hpend hold y hy
        rcases mem_cons.1 hy with rfl | hy
        · exact hpend (k, size) mem_cons_self
        · refine hmul d (fun z hz => hpend z (mem_cons_of_mem _ hz)) ?_ y hy
          intro z hz
          rw [mem_singleton.1 hz]
          exact Nat.dvd_sub (hold e (mem_singleton_self e)) (hpend (k, size) mem_cons_self)
    · -- The free extent is used up.
      have hcrv : e.carve m.nextId k size = [e.front m.nextId k size] := by
        rw [carve, if_neg hlt]
      have hrs : (e.carve m.nextId k size)[1]? = none := by
        rw [hcrv]
        rfl
      rw [hst _ hrs]
      cases pending with
      | nil =>
        refine ⟨?_, fun _ => ⟨m₁, rfl⟩⟩
        intro m' hok
        obtain rfl : m₁ = m' := ok.inj hok
        refine ⟨hlaid, hfrm, [e.front m.nextId k size], by rw [hext, hcrv], rfl,
          ⟨[e.front m.nextId k size], [], rfl, ?_, by simp⟩, ?_⟩
        · intro y hy
          rw [mem_singleton.1 hy]
          rfl
        · intro d hpend _ y hy
          rw [mem_singleton.1 hy]
          exact hpend (k, size) mem_cons_self
      | cons y pending =>
        obtain ⟨k', size'⟩ := y
        refine ⟨by rintro _ ⟨⟩, ?_⟩
        intro hpos
        have h' := hpos (k', size') (by simp)
        rw [total_cons] at hbyt
        dsimp only at hbyt h'
        omega

/-! ## Partitions -/

theorem exists_from_head {α : Type} {frees r : List α} (h : frees.Sublist r) {f : α} (hf : frees.head? = some f) :
    ∃ a s, r = a ++ s ∧ s.head? = some f ∧ frees.Sublist s := by
  obtain ⟨tail, rfl⟩ := head?_eq_some_iff.1 hf
  obtain ⟨r₁, r₂, rfl, hmem, htail⟩ := cons_sublist_iff.1 h
  obtain ⟨a, b, rfl⟩ := append_of_mem hmem
  refine ⟨a, f :: (b ++ r₂), by simp, rfl, ?_⟩
  exact List.Sublist.cons_cons _ (htail.trans (sublist_append_right _ _))

theorem exists_region {α : Type} {frees r : List α} (h : frees.Sublist r) {f l : α} (hf : frees.head? = some f)
    (hl : frees.getLast? = some l) :
    ∃ a region c, r = a ++ region ++ c ∧ region.head? = some f ∧ region.getLast? = some l ∧ frees.Sublist region := by
  obtain ⟨a, s, rfl, hs, hsub⟩ := exists_from_head h hf
  have hrev : frees.reverse.head? = some l := by rw [head?_reverse, hl]
  obtain ⟨c, t, hst, ht, hsub'⟩ := exists_from_head (reverse_sublist.2 hsub) hrev
  obtain rfl : s = t.reverse ++ c.reverse := by
    rw [← reverse_append, ← hst, reverse_reverse]
  have hsub'' : frees.Sublist t.reverse := by
    have := reverse_sublist.2 hsub'
    rwa [reverse_reverse] at this
  refine ⟨a, t.reverse, c.reverse, by simp, ?_, by rw [getLast?_reverse, ht], hsub''⟩
  have hne : t.reverse ≠ [] := by
    intro hnil
    rw [hnil] at hsub''
    rw [sublist_nil.1 hsub''] at hf
    cases hf
  rwa [head?_append_of_ne_nil _ hne] at hs

theorem isChain_filled {a region c : List Extent} {f l : Extent} (h : (a ++ region ++ c).IsChain Apart)
    (hf : region.head? = some f) (hl : region.getLast? = some l) (hfk : f.key = none) (hlk : l.key = none) (hmid : Filled mid) :
    (a ++ mid ++ c).IsChain Apart := by
  obtain ⟨h12, hc, hrc⟩ := isChain_append.1 h
  obtain ⟨ha, -, har⟩ := isChain_append.1 h12
  have hla : ∀ x ∈ a.getLast?, x.key ≠ none := by
    intro x hx hxk
    exact har x hx f hf ⟨hxk, hfk⟩
  have hhead : ∀ y ∈ c.head?, y.key ≠ none := by
    intro y hy hyk
    refine hrc l ?_ y hy ⟨hlk, hyk⟩
    rw [getLast?_append, hl]
    rfl
  obtain ⟨front, back, rfl, hfrt, hback⟩ := hmid
  have hmid : (front ++ back).IsChain Apart := by
    refine isChain_append.2 ⟨isChain_of_keys hfrt, ?_, ?_⟩
    · match back, hback with
      | [], _ => exact isChain_nil
      | [x], _ => exact isChain_singleton x
    · intro x hx y _ hxy
      have hkey := hfrt x (mem_of_mem_getLast? hx)
      rw [hxy.1] at hkey
      cases hkey
  rw [append_assoc]
  refine isChain_append.2 ⟨ha, isChain_append.2 ⟨hmid, hc, ?_⟩, ?_⟩
  · intro x _ y hy hxy
    exact hhead y hy hxy.2
  · intro x hx y _ hxy
    exact hla x hx hxy.1

/-- The pool after requests were placed in the free extents of `rest`, between `done` and `after`. -/
structure Placed (m : SegmentMemory) (done rest after : List Extent) (pending : Sizes) (m' : SegmentMemory) : Prop where
  laid : m'.Laid
  frame : SameFrame m m'
  extents : ∃ mid, m'.extents = done ++ mid ++ after ∧ (held mid).Perm (pending ++ held rest) ∧
    ((done ++ rest ++ after).IsChain Apart → (done ++ mid ++ after).IsChain Apart) ∧ KeepsMultiples pending rest mid

theorem total_room_le {limit : Nat} {frees region : List Extent} (hsub : frees.Sublist region)
    (hfe : ∀ e ∈ frees, e.key = none) :
    total (room limit) frees ≤ total size (region.filter fun e => e.key = none) := by
  have hro : ∀ l : List Extent, total (room limit) l ≤ total size l := by
    intro l
    induction l with
    | nil => exact Nat.le_refl _
    | cons e l ih =>
      rw [total_cons, total_cons, room]
      omega
  have hflr : frees.Sublist (region.filter fun e => e.key = none) := by
    have hself : frees.filter (fun e => e.key = none) = frees := filter_eq_self.2 fun e he => decide_eq_true (hfe e he)
    rw [← hself]
    exact hsub.filter _
  have hsum : total size frees ≤ total size (region.filter fun e => e.key = none) :=
    List.Sublist.sum_le_sum (hflr.map _) (by simp)
  exact (hro frees).trans hsum

theorem placePartition_spec {rest frees : List Extent} {f l : Extent} (h : m.Laid)
    (hspl : m.extents = done ++ rest ++ after) (hsub : frees.Sublist rest) (hfe : ∀ e ∈ frees, e.key = none)
    (hf : frees.head? = some f) (hl : frees.getLast? = some l) (hft : Fits m.capacityBytes (frees, pending))
    (hnd : (pending.map fst).Nodup) (hks : ∀ k ∈ pending.map fst, ¬m.Resident k) :
    ∃ free moved m₁, mergePartition m f l = .ok (free, moved, m₁) ∧
      (∀ m', reserveAll m₁ (some free) pending = .ok m' → Placed m done rest after pending m') ∧
      ((∀ x ∈ pending, 0 < x.2) → ∃ m', reserveAll m₁ (some free) pending = .ok m') := by
  obtain ⟨a, region, c, rfl, hrf, hrl, hrgn⟩ := exists_region hsub hf hl
  have hfk : f.key = none := hfe f (mem_of_mem_head? hf)
  have hlk : l.key = none := hfe l (mem_of_mem_getLast? hl)
  have hext : m.extents = (done ++ a) ++ region ++ (c ++ after) := by
    rw [hspl]
    simp
  have hlaid := laid_merged h hext hrf
  have hext₁ : (done ++ a) ++ merged m.nextId f.offset region ++ (c ++ after) =
      (done ++ a ++ repack f.offset m.nextId (allocated region)) ++ mergedFree m.nextId f.offset region :: (c ++ after) := by
    rw [merged]
    simp
  have hbyt : bytesOf pending ≤ (mergedFree m.nextId f.offset region).size := hft.trans (total_room_le hrgn hfe)
  have hks₁ : ∀ k ∈ pending.map fst,
      k ∉ ((done ++ a) ++ merged m.nextId f.offset region ++ (c ++ after)).filterMap key := by
    intro k hk hr
    rw [filterMap_append, filterMap_append, filterMap_key_merged, ← filterMap_append, ← filterMap_append, ← hext] at hr
    exact hks k hk hr
  obtain ⟨hpart, hok⟩ := reserveAll_spec hlaid hext₁ rfl hbyt hnd hks₁
  refine ⟨_, _, _, mergePartition_eq h hext hrf hrl, ?_, hok⟩
  intro m' hm'
  obtain ⟨hlaid', hfrm, mid, hmid, hhe, hfil, hmul⟩ := hpart m' hm'
  refine ⟨hlaid', ⟨hfrm.capacity_eq, hfrm.accesses_eq⟩,
    a ++ (repack f.offset m.nextId (allocated region) ++ mid) ++ c, ?_, ?_, ?_, ?_⟩
  · rw [hmid]
    simp
  · rw [perm_iff_count]
    intro x
    simp only [held_append, hhe, held_repack, held_allocated, count_append]
    omega
  · intro hchain
    have hchain' : ((done ++ a) ++ region ++ (c ++ after)).IsChain Apart := by
      rw [← hext, hspl]
      exact hchain
    have hnew : Filled (repack f.offset m.nextId (allocated region) ++ mid) := by
      obtain ⟨front, back, rfl, hfrt, hback⟩ := hfil
      refine ⟨repack f.offset m.nextId (allocated region) ++ front, back, by simp, ?_, hback⟩
      intro x hx
      rcases mem_append.1 hx with hx | hx
      · obtain ⟨y, hy, -, hk⟩ := mem_repack hx
        rw [hk]
        exact (mem_allocated.1 hy).2
      · exact hfrt x hx
    have := isChain_filled hchain' hrf hrl hfk hlk hnew
    simpa using this
  · intro d hpend hrs x hx
    have hfe : d ∣ (mergedFree m.nextId f.offset region).size := by
      refine dvd_sum ?_
      intro n hn
      obtain ⟨y, hy, rfl⟩ := mem_map.1 hn
      exact hrs y (by simp [(mem_filter.1 hy).1])
    simp only [mem_append] at hx
    rcases hx with (hx | hx | hx) | hx
    · exact hrs x (by simp [hx])
    · obtain ⟨y, hy, hsz, -⟩ := mem_repack hx
      rw [hsz]
      exact hrs y (by simp [(mem_allocated.1 hy).1])
    · refine hmul d hpend ?_ x hx
      intro y hy
      rw [mem_singleton.1 hy]
      exact hfe
    · exact hrs x (by simp [hx])

theorem not_resident_of_placed {m₂ : SegmentMemory} {r₁ r₂ : List Extent} {k : Key}
    (hspl : m.extents = done ++ r₁ ++ r₂) (hmid : m₂.extents = done ++ mid ++ r₂) (hhe : (held mid).Perm (pending ++ held r₁))
    (hold : ¬m.Resident k) (hnew : k ∉ pending.map fst) : ¬m₂.Resident k := by
  intro hr
  rw [Resident, hmid, ← map_fst_held, held_append, held_append, map_append, map_append, mem_append,
    mem_append, (hhe.map fst).mem_iff, map_append, mem_append] at hr
  have hold' : k ∉ (held m.extents).map fst := by
    rw [map_fst_held]
    exact hold
  rw [hspl] at hold'
  simp only [held_append, map_append, mem_append, not_or] at hold'
  rcases hr with (hr | hr | hr) | hr
  · exact hold'.1.1 hr
  · exact hnew hr
  · exact hold'.1.2 hr
  · exact hold'.2 hr

theorem Placed.append {m₂ m' : SegmentMemory} {r₁ r₂ : List Extent} {pending' : Sizes} (hfrm : SameFrame m m₂)
    (hhe : (held mid).Perm (pending ++ held r₁)) (hchain : (done ++ r₁ ++ r₂).IsChain Apart → (done ++ mid ++ r₂).IsChain Apart)
    (hmul : KeepsMultiples pending r₁ mid) (h : Placed m₂ (done ++ mid) r₂ [] pending' m') :
    Placed m done (r₁ ++ r₂) [] (pending ++ pending') m' := by
  obtain ⟨hlaid, hfrm', mid', hmid', hhe', hchain', hmul'⟩ := h
  refine ⟨hlaid, hfrm.trans hfrm', mid ++ mid', ?_, ?_, ?_, ?_⟩
  · rw [hmid']
    simp
  · rw [perm_iff_count]
    intro x
    have h1 := hhe.count_eq x
    have h2 := hhe'.count_eq x
    simp only [held_append, count_append] at h1 h2 ⊢
    omega
  · intro hc
    have := hchain' (by simpa using hchain (by simpa using hc))
    simpa using this
  · intro d hpend hrs x hx
    rcases mem_append.1 hx with hx | hx
    · exact hmul d (fun y hy => hpend y (mem_append_left _ hy)) (fun y hy => hrs y (mem_append_left _ hy)) x hx
    · exact hmul' d (fun y hy => hpend y (mem_append_right _ hy)) (fun y hy => hrs y (mem_append_right _ hy)) x hx

theorem placePartitions_spec {rest : List Extent} {groups : List (List Extent × Sizes)} (h : m.Laid)
    (hspl : m.extents = done ++ rest) (hsub : (groups.flatMap fst).Sublist rest)
    (hfe : ∀ e ∈ groups.flatMap fst, e.key = none) (hft : ∀ group ∈ groups, Fits m.capacityBytes group)
    (hnd : ((groups.flatMap snd).map fst).Nodup) (hks : ∀ k ∈ (groups.flatMap snd).map fst, ¬m.Resident k) :
    (∀ moved m', placePartitions m groups = .ok (moved, m') → Placed m done rest [] (groups.flatMap snd) m') ∧
      ((∀ x ∈ groups.flatMap snd, 0 < x.2) → ∃ moved m', placePartitions m groups = .ok (moved, m')) := by
  induction groups generalizing m done rest with
  | nil =>
    refine ⟨?_, fun _ => ⟨0, m, rfl⟩⟩
    intro moved m' hok
    obtain ⟨-, rfl⟩ := Prod.mk.inj (Except.ok.inj hok)
    exact ⟨h, .refl m, rest, by simpa using hspl, List.Perm.refl _, fun hchain => hchain, fun _ _ hrs => hrs⟩
  | cons group groups ih =>
    obtain ⟨frees, pending⟩ := group
    rw [flatMap_cons] at hsub hfe hnd hks
    by_cases hpend : pending = []
    · -- Nothing is to be placed in this partition.
      subst hpend
      have hst : placePartitions m ((frees, []) :: groups) = placePartitions m groups := by
        rw [placePartitions, if_pos rfl]
      rw [hst, flatMap_cons]
      exact ih h hspl ((sublist_append_right _ _).trans hsub) (fun e he => hfe e (mem_append_right _ he))
        (fun g hg => hft g (mem_cons_of_mem _ hg)) hnd hks
    · obtain ⟨r₁, r₂, rfl, hsub₁, hsub₂⟩ := append_sublist_iff.1 hsub
      rw [map_append, nodup_append] at hnd
      rw [map_append] at hks
      cases hf : frees.head? with
      | none =>
        have hnil : frees = [] := head?_eq_none_iff.1 hf
        subst hnil
        have hst : placePartitions m (([], pending) :: groups) = .error .indexError := by
          rw [placePartitions, if_neg hpend]
          rfl
        rw [hst]
        refine ⟨nofun, ?_⟩
        intro hpos
        obtain ⟨x, tail, rfl⟩ := exists_cons_of_ne_nil hpend
        have hx : 0 < x.2 := hpos x (by simp)
        have hbyt : x.2 + total snd tail ≤ 0 := by
          have hfit := hft ([], x :: tail) mem_cons_self
          rwa [Fits, bytesOf, total_cons] at hfit
        omega
      | some f =>
        obtain ⟨l, hl⟩ : ∃ l, frees.getLast? = some l := by
          cases hl : frees.getLast? with
          | none =>
            rw [getLast?_eq_none_iff.1 hl] at hf
            cases hf
          | some l => exact ⟨l, rfl⟩
        obtain ⟨free, moved₁, m₁, hmerge, hpla, hok⟩ := placePartition_spec h (by rw [hspl, append_assoc]) hsub₁
          (fun e he => hfe e (mem_append_left _ he)) hf hl (hft (frees, pending) mem_cons_self) hnd.1
          fun k hk => hks k (mem_append_left _ hk)
        have hst : placePartitions m ((frees, pending) :: groups) = reserveAll m₁ (some free) pending >>= fun pool =>
            placePartitions pool groups >>= fun r => .ok (moved₁ + r.1, r.2) := by
          rw [placePartitions, if_neg hpend, hf, hl]
          dsimp only
          rw [hmerge]
          rfl
        -- After this partition, the others are placed behind it.
        have hrec : ∀ m₂, reserveAll m₁ (some free) pending = .ok m₂ → ∃ mid,
            m₂.extents = (done ++ mid) ++ r₂ ∧ (held mid).Perm (pending ++ held r₁) ∧
            ((done ++ r₁ ++ r₂).IsChain Apart → (done ++ mid ++ r₂).IsChain Apart) ∧ KeepsMultiples pending r₁ mid ∧
            SameFrame m m₂ ∧
            (∀ moved m', placePartitions m₂ groups = .ok (moved, m') →
              Placed m₂ (done ++ mid) r₂ [] (groups.flatMap snd) m') ∧
            ((∀ x ∈ groups.flatMap snd, 0 < x.2) → ∃ moved m', placePartitions m₂ groups = .ok (moved, m')) := by
          intro m₂ hm₂
          obtain ⟨hlaid₂, hfrm₂, mid, hmid, hhe, hchain, hmul⟩ := hpla m₂ hm₂
          have hresident : ∀ k ∈ (groups.flatMap snd).map fst, ¬m₂.Resident k := fun k hk =>
            not_resident_of_placed (by rw [hspl, append_assoc]) hmid hhe (hks k (mem_append_right _ hk))
              fun hin => hnd.2.2 k hin k hk rfl
          have hih := ih hlaid₂ hmid hsub₂ (fun e he => hfe e (mem_append_right _ he))
            (fun g hg => by rw [hfrm₂.capacity_eq]; exact hft g (mem_cons_of_mem _ hg)) hnd.2.1 hresident
          exact ⟨mid, hmid, hhe, hchain, hmul, hfrm₂, hih⟩
        rw [hst]
        constructor
        · intro moved m' hrun
          cases hres : reserveAll m₁ (some free) pending with
          | error fault =>
            rw [hres] at hrun
            cases hrun
          | ok m₂ =>
            obtain ⟨mid, hmid, hhe, hchain, hmul, hfrm₂, hpart, -⟩ := hrec m₂ hres
            rw [hres] at hrun
            cases hrs : placePartitions m₂ groups with
            | error fault =>
              change (placePartitions m₂ groups >>= _) = _ at hrun
              rw [hrs] at hrun
              cases hrun
            | ok r =>
              obtain ⟨total, m₃⟩ := r
              change (placePartitions m₂ groups >>= _) = _ at hrun
              rw [hrs] at hrun
              obtain ⟨-, rfl⟩ := Prod.mk.inj (Except.ok.inj hrun)
              exact Placed.append hfrm₂ hhe hchain hmul (hpart total m₃ hrs)
        · intro hpos
          rw [flatMap_cons] at hpos
          obtain ⟨m₂, hm₂⟩ := hok fun x hx => hpos x (mem_append_left _ hx)
          obtain ⟨mid, -, -, -, -, -, -, hok₂⟩ := hrec m₂ hm₂
          obtain ⟨moved, m', hm'⟩ := hok₂ fun x hx => hpos x (mem_append_right _ hx)
          refine ⟨moved₁ + moved, m', ?_⟩
          rw [hm₂]
          change (placePartitions m₂ groups >>= _) = _
          rw [hm']
          rfl

end MockSegmentMemory

end ServerlessLLM.Simulator
