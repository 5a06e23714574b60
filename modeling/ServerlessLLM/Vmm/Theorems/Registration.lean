import ServerlessLLM.Vmm.Theorems.Contents

/-!
# Registered tensors and their bytes

Keeping the groups and splitting them leave every tensor at its position in the files.
-/

namespace ServerlessLLM.Vmm.RegisteredModel

open List

variable {minSize fuel total : Nat} {current next last : TensorGroupIndex} {groups groups' : List TensorGroupIndex}

/-! ## Units -/

/-- Groups that become one: the first of them, and those that follow. -/
structure MergeUnit where
  first : TensorGroupIndex
  others : List TensorGroupIndex

namespace MergeUnit

def row (u : MergeUnit) : List TensorGroupIndex := u.first :: u.others

def size (u : MergeUnit) : Nat := (u.row.map TensorGroupIndex.size).sum

def merged (u : MergeUnit) : TensorGroupIndex := u.others.foldl mergeNext u.first

def push (u : MergeUnit) (next : TensorGroupIndex) : MergeUnit := { u with others := u.others ++ [next] }

/-- Two units in one. -/
def append (u v : MergeUnit) : MergeUnit := { u with others := u.others ++ v.row }

end MergeUnit

open MergeUnit

/-- The units from `u` on, which takes in groups until it has `minSize` bytes. -/
def unitsFrom (minSize : Nat) : MergeUnit → List TensorGroupIndex → List MergeUnit
  | u, [] => [u]
  | u, next :: groups =>
    if u.size < minSize then unitsFrom minSize (u.push next) groups else u :: unitsFrom minSize ⟨next, []⟩ groups

/-- The last unit goes to the one before it when it is small. -/
def joinLast (minSize : Nat) : List MergeUnit → List MergeUnit
  | [] => []
  | [u] => [u]
  | [u, last] => if last.size < minSize then [u.append last] else [u, last]
  | u :: v :: w :: us => u :: joinLast minSize (v :: w :: us)

def units (minSize : Nat) : List TensorGroupIndex → List MergeUnit
  | [] => []
  | first :: groups => joinLast minSize (unitsFrom minSize ⟨first, []⟩ groups)

/-! ## Merging -/

theorem mergeNext_assoc (g g' g'' : TensorGroupIndex) : mergeNext (mergeNext g g') g'' = mergeNext g (mergeNext g' g'') := by
  simp [mergeNext, Nat.add_comm, Nat.add_left_comm, String.append_assoc]

theorem foldl_mergeNext (g g' : TensorGroupIndex) (groups : List TensorGroupIndex) :
    groups.foldl mergeNext (mergeNext g g') = mergeNext g (groups.foldl mergeNext g') := by
  induction groups generalizing g' with
  | nil => rfl
  | cons next groups ih => rw [foldl_cons, foldl_cons, mergeNext_assoc, ih]

namespace MergeUnit

variable {u v : MergeUnit}

theorem merged_push (u : MergeUnit) (next : TensorGroupIndex) : (u.push next).merged = mergeNext u.merged next := by
  simp [merged, push]

theorem merged_append (u v : MergeUnit) : (u.append v).merged = mergeNext u.merged v.merged := by
  unfold merged append row
  rw [foldl_append, foldl_cons, foldl_mergeNext]

@[simp] theorem row_push (u : MergeUnit) (next : TensorGroupIndex) : (u.push next).row = u.row ++ [next] := rfl

@[simp] theorem row_append (u v : MergeUnit) : (u.append v).row = u.row ++ v.row := rfl

theorem size_foldl (g : TensorGroupIndex) (groups : List TensorGroupIndex) :
    (groups.foldl mergeNext g).size = g.size + (groups.map TensorGroupIndex.size).sum := by
  induction groups generalizing g with
  | nil => simp
  | cons next groups ih =>
    rw [foldl_cons, ih]
    simp [mergeNext, Nat.add_assoc]

@[simp] theorem size_merged (u : MergeUnit) : u.merged.size = u.size := by
  unfold merged size row
  rw [size_foldl, map_cons, sum_cons]

end MergeUnit

theorem absorb_spec (minSize : Nat) (u : MergeUnit) (groups : List TensorGroupIndex) :
    ∃ v rest, absorb minSize u.merged groups = (v.merged, rest) ∧ unitsFrom minSize u groups = unitsFrom minSize v rest ∧
      rest.length ≤ groups.length ∧ (u.size < minSize → groups ≠ [] → rest.length < groups.length) := by
  induction groups generalizing u with
  | nil => exact ⟨u, [], rfl, rfl, Nat.le_refl _, fun _ hne => absurd rfl hne⟩
  | cons next groups ih =>
    unfold absorb
    rw [u.size_merged]
    split
    · rename_i hlt
      obtain ⟨v, rest, heq, hunits, hlen, -⟩ := ih (u.push next)
      refine ⟨v, rest, ?_, ?_, Nat.le_succ_of_le hlen, fun _ _ => Nat.lt_succ_of_le hlen⟩
      · rw [← u.merged_push, heq]
      · rw [← hunits, unitsFrom, if_pos hlt]
    · rename_i hge
      exact ⟨u, next :: groups, rfl, rfl, Nat.le_refl _, fun hlt => absurd hlt hge⟩

theorem mergePass_units (u : MergeUnit) (h : groups.length < fuel) :
    (mergePass minSize fuel (u.merged :: groups)).2 = (unitsFrom minSize u groups).map merged := by
  induction fuel generalizing u groups with
  | zero => cases h
  | succ fuel ih =>
    unfold mergePass
    rw [u.size_merged]
    split
    · rename_i hge
      cases groups with
      | nil => cases fuel <;> rfl
      | cons next groups =>
        have hnx := ih ⟨next, []⟩ (Nat.lt_of_succ_lt_succ h)
        rw [unitsFrom, if_neg (Nat.not_lt.2 hge), map_cons, ← hnx]
        rfl
    · rename_i hlt
      cases groups with
      | nil => rfl
      | cons next groups =>
        obtain ⟨v, rest, heq, hunits, -, hlen⟩ := absorb_spec minSize u (next :: groups)
        have hshort := hlen (Nat.lt_of_not_le hlt) (cons_ne_nil _ _)
        simp only [isEmpty_cons, Bool.false_eq_true, if_false, heq]
        rw [hunits, ih v (by omega)]

theorem unitsFrom_ne_nil (minSize : Nat) (u : MergeUnit) (groups : List TensorGroupIndex) :
    unitsFrom minSize u groups ≠ [] := by
  induction groups generalizing u with
  | nil => simp [unitsFrom]
  | cons next groups ih =>
    unfold unitsFrom
    split
    · exact ih _
    · exact cons_ne_nil _ _

theorem le_size_of_mem_dropLast (u : MergeUnit) (groups : List TensorGroupIndex) :
    ∀ v ∈ (unitsFrom minSize u groups).dropLast, minSize ≤ v.size := by
  induction groups generalizing u with
  | nil => simp [unitsFrom]
  | cons next groups ih =>
    unfold unitsFrom
    split
    · exact ih _
    · rename_i hge
      rw [dropLast_cons_of_ne_nil (unitsFrom_ne_nil minSize _ groups)]
      intro v hv
      rcases mem_cons.1 hv with rfl | hv
      · exact Nat.le_of_not_lt hge
      · exact ih _ v hv

theorem mergePass_of_le (hle : ∀ g ∈ groups.dropLast, minSize ≤ g.size) : mergePass minSize fuel groups = (false, groups) := by
  induction fuel generalizing groups with
  | zero => rfl
  | succ fuel ih =>
    cases groups with
    | nil => rfl
    | cons current groups =>
      unfold mergePass
      split
      · have hrs : mergePass minSize fuel groups = (false, groups) := by
          refine ih fun g hg => hle g ?_
          cases groups with
          | nil => cases hg
          | cons => exact mem_cons_of_mem _ hg
        rw [hrs]
      · rename_i hlt
        cases groups with
        | nil => rfl
        | cons next groups => exact absurd (hle current (by simp)) hlt

theorem mergeLoop_eq (minSize : Nat) (first : TensorGroupIndex) (groups : List TensorGroupIndex) :
    mergeLoop minSize ((first :: groups).length + 1) (first :: groups) =
      (unitsFrom minSize ⟨first, []⟩ groups).map merged := by
  have hpass : (mergePass minSize (first :: groups).length (first :: groups)).2 =
    (unitsFrom minSize ⟨first, []⟩ groups).map merged :=
    mergePass_units ⟨first, []⟩ (Nat.lt_succ_self _)
  have hla : ∀ n, mergeLoop minSize n ((unitsFrom minSize ⟨first, []⟩ groups).map merged) =
      (unitsFrom minSize ⟨first, []⟩ groups).map merged := by
    intro n
    cases n with
    | zero => rfl
    | succ n =>
      unfold mergeLoop
      rw [mergePass_of_le]
      · rfl
      · intro g hg
        rw [← map_dropLast] at hg
        obtain ⟨u, hu, rfl⟩ := mem_map.1 hg
        rw [u.size_merged]
        exact le_size_of_mem_dropLast _ _ u hu
  unfold mergeLoop
  simp only [hpass, hla, ite_self]

theorem mergeLast_map (minSize : Nat) (us : List MergeUnit) :
    mergeLast minSize (us.map merged) = (joinLast minSize us).map merged := by
  induction us using joinLast.induct minSize with
  | case1 => rfl
  | case2 u => rfl
  | case3 u last hlt =>
    simp only [map_cons, map_nil, mergeLast, joinLast, size_merged, if_pos hlt, merged_append]
  | case4 u last hge => simp only [map_cons, map_nil, mergeLast, joinLast, size_merged, if_neg hge]
  | case5 u v w us ih =>
    simp only [map_cons] at ih
    simp only [map_cons, mergeLast, joinLast, ih]

theorem tensorGroupIndexes_mergeTGs (m : RegisteredModel) (minSize : Nat) :
    (m.mergeTGs minSize).tensorGroupIndexes = (units minSize m.tensorGroupIndexes).map merged := by
  unfold mergeTGs withGroups
  simp only
  cases m.tensorGroupIndexes with
  | nil => rfl
  | cons first groups => rw [mergeLoop_eq, mergeLast_map]; rfl

theorem flatMap_row_unitsFrom (minSize : Nat) (u : MergeUnit) (groups : List TensorGroupIndex) :
    (unitsFrom minSize u groups).flatMap row = u.row ++ groups := by
  induction groups generalizing u with
  | nil => simp [unitsFrom]
  | cons next groups ih =>
    unfold unitsFrom
    split
    · rw [ih, row_push, append_assoc]
      rfl
    · rw [flatMap_cons, ih]
      rfl

theorem flatMap_row_units (minSize : Nat) (groups : List TensorGroupIndex) :
    (units minSize groups).flatMap row = groups := by
  have hjoin : ∀ us, (joinLast minSize us).flatMap row = us.flatMap row := by
    intro us
    induction us using joinLast.induct minSize with
    | case1 => rfl
    | case2 u => rfl
    | case3 u last hlt => simp [joinLast, if_pos hlt]
    | case4 u last hge => simp [joinLast, if_neg hge]
    | case5 u v w us ih => rw [joinLast, flatMap_cons, ih]; rfl
  cases groups with
  | nil => rfl
  | cons first groups => exact (hjoin _).trans (flatMap_row_unitsFrom minSize ⟨first, []⟩ groups)

/-! ## Positions -/

def tensorPositions (groups : List TensorGroupIndex) : List TensorIndex :=
  groups.flatMap fun g => g.tensorIndexes.map fun tensor => { tensor with offset := g.fileOffset + tensor.offset }

/-- The tensors of groups that are merged one behind the other, from a position on. -/
def positionsFrom : Nat → List TensorGroupIndex → List TensorIndex
  | _, [] => []
  | position, g :: groups =>
    (g.tensorIndexes.map fun tensor => { tensor with offset := position + tensor.offset }) ++
      positionsFrom (position + g.size) groups

/-- Each group that has tensors begins where the one before it ends, the first of them at `position`. -/
def Adjoin : Nat → List TensorGroupIndex → Prop
  | _, [] => True
  | position, g :: groups => (g.tensorIndexes ≠ [] → g.fileOffset = position) ∧ Adjoin (position + g.size) groups

def MergeUnit.NoGap (u : MergeUnit) : Prop := Adjoin (u.first.fileOffset + u.first.size) u.others

theorem tensorPositions_cons (g : TensorGroupIndex) (groups : List TensorGroupIndex) :
    tensorPositions (g :: groups) = tensorPositions [g] ++ tensorPositions groups := by
  simp [tensorPositions]

theorem tensorPositions_append (groups groups' : List TensorGroupIndex) :
    tensorPositions (groups ++ groups') = tensorPositions groups ++ tensorPositions groups' := by
  simp [tensorPositions]

theorem tensorPositions_foldl (g : TensorGroupIndex) (groups : List TensorGroupIndex) :
    tensorPositions [groups.foldl mergeNext g] = tensorPositions [g] ++ positionsFrom (g.fileOffset + g.size) groups := by
  induction groups generalizing g with
  | nil => simp [positionsFrom]
  | cons next groups ih =>
    rw [foldl_cons, ih, positionsFrom, ← append_assoc]
    have hnx : tensorPositions [mergeNext g next] =
        tensorPositions [g] ++ next.tensorIndexes.map fun tensor =>
          { tensor with offset := g.fileOffset + g.size + tensor.offset } := by
      simp only [tensorPositions, mergeNext, flatMap_cons, flatMap_nil, append_nil, map_append, map_map]
      refine congrArg _ (map_congr_left ?_)
      intro tensor _
      simp only [Function.comp_apply, TensorIndex.mk.injEq, true_and, and_true]
      omega
    rw [hnx]
    simp [mergeNext, Nat.add_assoc]

theorem length_positionsFrom (position : Nat) (groups : List TensorGroupIndex) :
    (positionsFrom position groups).length = (tensorPositions groups).length := by
  induction groups generalizing position with
  | nil => rfl
  | cons g groups ih => simp [positionsFrom, ih, tensorPositions]

theorem append_eq_append_iff {α : Type} {l₁ l₂ r₁ r₂ : List α} (h : l₁.length = l₂.length) : l₁ ++ r₁ = l₂ ++ r₂ ↔
    l₁ = l₂ ∧ r₁ = r₂ :=
  ⟨fun heq => append_inj heq h, fun ⟨hl, hr⟩ => by rw [hl, hr]⟩

theorem positionsFrom_eq_iff (position : Nat) (groups : List TensorGroupIndex) :
    positionsFrom position groups = tensorPositions groups ↔ Adjoin position groups := by
  induction groups generalizing position with
  | nil => exact iff_of_true rfl trivial
  | cons g groups ih =>
    have hhead : (g.tensorIndexes.map fun tensor => ({ tensor with offset := position + tensor.offset } : TensorIndex)) =
      tensorPositions [g] ↔
        (g.tensorIndexes ≠ [] → g.fileOffset = position) := by
      unfold tensorPositions
      rw [flatMap_cons, flatMap_nil, append_nil, map_inj_left]
      constructor
      · intro h hne
        obtain ⟨tensor, hten⟩ := exists_mem_of_ne_nil _ hne
        have := congrArg TensorIndex.offset (h tensor hten)
        simp only at this
        omega
      · intro h tensor hten
        rw [h (ne_nil_of_mem hten)]
    rw [positionsFrom, tensorPositions_cons, append_eq_append_iff (by simp [tensorPositions]), hhead, ih]
    exact Iff.rfl

theorem tensorPositions_merged_iff (us : List MergeUnit) :
    tensorPositions (us.map merged) = tensorPositions (us.flatMap row) ↔ ∀ u ∈ us, u.NoGap := by
  induction us with
  | nil => simp [tensorPositions]
  | cons u us ih =>
    have hunit : tensorPositions [u.merged] = tensorPositions u.row ↔ u.NoGap := by
      unfold merged row NoGap
      rw [tensorPositions_foldl, tensorPositions_cons u.first u.others, append_eq_append_iff rfl, positionsFrom_eq_iff]
      exact and_iff_right rfl
    have hlen : (tensorPositions [u.merged]).length = (tensorPositions u.row).length := by
      unfold merged row
      rw [tensorPositions_foldl, tensorPositions_cons u.first u.others, length_append, length_append, length_positionsFrom]
    rw [map_cons, tensorPositions_cons, flatMap_cons, tensorPositions_append, append_eq_append_iff hlen, hunit, ih]
    simp

def Holds (g : TensorGroupIndex) : Prop := ∀ tensor ∈ g.tensorIndexes, tensor.offset + tensor.size ≤ g.size

theorem holds_mergeNext (h : Holds current) (h' : Holds next) : Holds (mergeNext current next) := by
  unfold mergeNext
  intro tensor hten
  simp only at hten ⊢
  rcases mem_append.1 hten with hin | hin
  · have := h tensor hin
    omega
  · obtain ⟨tensor', hin', rfl⟩ := mem_map.1 hin
    have := h' tensor' hin'
    simp only
    omega

theorem holds_merged {u : MergeUnit} (h : ∀ g ∈ u.row, Holds g) : Holds u.merged := by
  obtain ⟨first, others⟩ := u
  unfold merged
  unfold row at h
  simp only at h ⊢
  induction others generalizing first with
  | nil => exact h first mem_cons_self
  | cons next others ih =>
    refine ih (mergeNext first next) ?_
    intro g hg
    rcases mem_cons.1 hg with rfl | hg
    · exact holds_mergeNext (h first mem_cons_self) (h next (by simp))
    · exact h g (by simp [hg])

end ServerlessLLM.Vmm.RegisteredModel

/-! ## Registration -/

namespace ServerlessLLM.Vmm

open List Option

/-- The byte at a position in the files, which follow each other. -/
def fileByte : List Partition → Nat → Option UInt8
  | [], _ => none
  | partition :: partitions, position =>
    if position < partition.size then some (partition.bytes position) else fileByte partitions (position - partition.size)

namespace RegisteredModel

variable {m : RegisteredModel} {S : Surroundings} {group : TensorGroupIndex} {partitions behind : List Partition}
  {partition : Partition}
  {position inPartitionOffset i : Nat}

theorem findPartition_spec (h : findPartition partitions position = some (partition, behind, inPartitionOffset)) :
    inPartitionOffset < partition.size ∧ ∀ i, fileByte partitions (position + i) = fileByte (partition :: behind)
      (inPartitionOffset + i) := by
  induction partitions generalizing position with
  | nil => cases h
  | cons first partitions ih =>
    unfold findPartition at h
    split at h
    · rename_i hge
      obtain ⟨hlt, heq⟩ := ih h
      refine ⟨hlt, fun i => ?_⟩
      rw [← heq, fileByte, if_neg (by omega), Nat.sub_add_comm hge]
    · cases h
      exact ⟨by omega, fun _ => rfl⟩

theorem readGroup_spec {idx : Nat} {host : Nat → UInt8} (h : m.readGroup S idx group = some host) (hi : i < group.size) :
    fileByte m.partitions (group.fileOffset + i) = some (host i) := by
  unfold readGroup at h
  split at h
  · cases h
  · rename_i partition behind inPartitionOffset hfnd
    obtain ⟨hlt, heq⟩ := findPartition_spec hfnd
    rw [heq, fileByte]
    simp only [ite_none_left_eq_some] at h
    obtain ⟨-, h⟩ := h
    split at h
    · cases h
    · rename_i ret hret
      unfold pread at hret
      simp only [ite_none_right_eq_some, Option.some.injEq] at hret
      obtain ⟨-, rfl⟩ := hret
      split at h
      · rename_i hall
        cases h
        rw [if_pos (by omega)]
      · rename_i hpart
        split at h
        · cases h
        · rename_i next rest
          split at h
          · cases h
          · rename_i ret' hret'
            unfold pread at hret'
            simp only [ite_none_right_eq_some, Option.some.injEq] at hret'
            obtain ⟨-, rfl⟩ := hret'
            simp only [ite_none_right_eq_some, Option.some.injEq] at h
            obtain ⟨hrs, rfl⟩ := h
            have hret : min group.size (partition.size - inPartitionOffset) = partition.size - inPartitionOffset := by omega
            rw [hret]
            simp only
            by_cases hin : i < partition.size - inPartitionOffset
            · rw [if_pos (by omega), if_pos hin]
            · rw [if_neg (by omega), if_neg hin, fileByte, if_pos (by omega)]
              congr 2
              omega

end RegisteredModel

namespace VmmVRAMManager

open Pool Runs Vmm.RegisteredModel MergeUnit

variable {M M' : VmmVRAMManager} {S : Outside} {path : String} {device : ℤ} {model : RegisteredModel}
  {groups : List TensorGroupIndex}
  {partitions : List Partition} {packedBytes : Nat}

theorem registered (hnew : path ∉ M.models.keys) {sensitivity : ℚ} {target n : ℤ}
    (hreg : M.registerModelWithMergeTarget S path sensitivity false target groups partitions = (n, M')) (hn : 0 ≤ n) :
    ∃ model, (regroup (.ofIndex path sensitivity target groups partitions) target).loadModelFromDisk S.toSurroundings = some model ∧
      M'.models.get? path = some model := by
  unfold registerModelWithMergeTarget at hreg
  rw [Dict.get?_eq_none_iff.2 hnew] at hreg
  simp only [Bool.false_eq_true, if_false] at hreg
  split at hreg
  · cases hreg
    cases hn
  · rename_i model hldd
    split at hreg
    · cases hreg
      cases hn
    · cases hreg
      exact ⟨model, hldd, Dict.get?_set_self ..⟩

def regrouped (target : ℤ) (minSize : Nat) (groups : List TensorGroupIndex) : List TensorGroupIndex :=
  if target = -2 then groups.flatMap fun group => group.tensorIndexes.map (tensorUnit group)
  else if 0 < target then (units minSize groups).map merged
  else groups

theorem regroup_eq (path : String) (sensitivity : ℚ) {target : ℤ} (htgt : target ≠ 0) (groups : List TensorGroupIndex)
    (partitions : List Partition) :
    let m := regroup (.ofIndex path sensitivity target groups partitions) target
    m.partitions = partitions ∧
      m.tensorGroupIndexes = regrouped target ((partitions.map Partition.size).sum / target.toNat) groups := by
  unfold regroup ofIndex regrouped
  simp only [if_neg htgt]
  split
  · exact ⟨rfl, rfl⟩
  · split
    · exact ⟨rfl, tensorGroupIndexes_mergeTGs _ _⟩
    · exact ⟨rfl, rfl⟩

theorem tensorPositions_split (groups : List TensorGroupIndex) :
    tensorPositions (groups.flatMap fun group => group.tensorIndexes.map (tensorUnit group)) = tensorPositions groups := by
  unfold tensorPositions
  rw [flatMap_assoc]
  refine flatMap_congr fun group _ => ?_
  rw [flatMap_map]
  simp [tensorUnit, ← map_eq_flatMap]

theorem tensorPositions_regrouped_iff (target : ℤ) (minSize : Nat) (groups : List TensorGroupIndex) :
    tensorPositions (regrouped target minSize groups) = tensorPositions groups ↔
      (0 < target → ∀ u ∈ units minSize groups, u.NoGap) := by
  unfold regrouped
  split
  · rename_i htgt
    exact iff_of_true (tensorPositions_split groups) fun hpos => by omega
  · split
    · rename_i hpos
      have hiff := tensorPositions_merged_iff (units minSize groups)
      rw [flatMap_row_units] at hiff
      exact hiff.trans ⟨fun h _ => h, fun h => h hpos⟩
    · rename_i hneg
      exact iff_of_true rfl fun hpos => absurd hpos hneg

theorem holds_regrouped (target : ℤ) (minSize : Nat) (h : ∀ group ∈ groups, Holds group) :
    ∀ group ∈ regrouped target minSize groups, Holds group := by
  intro group hgrp
  unfold regrouped at hgrp
  split at hgrp
  · obtain ⟨group', -, hmem⟩ := mem_flatMap.1 hgrp
    obtain ⟨tensor, -, rfl⟩ := mem_map.1 hmem
    intro tensor' hten'
    obtain rfl := mem_singleton.1 hten'
    simp [tensorUnit]
  · split at hgrp
    · obtain ⟨u, hu, rfl⟩ := mem_map.1 hgrp
      refine holds_merged fun g hg => h g ?_
      rw [← flatMap_row_units minSize groups]
      exact mem_flatMap.2 ⟨u, hu, hg⟩
    · exact h group hgrp

theorem IsRegistered.mem_zip (h : IsRegistered M path model packedBytes) {e : TensorGroupIndex × Nat}
    (he : e ∈ model.tensorGroupIndexes.zip ((M.modelGroupOffsets.get? path).getD [])) :
    ∃ host, ⟨e.2, e.1.size, some host⟩ ∈ M.groupsOf path model ∧ ∀ i < e.1.size,
      fileByte model.partitions (e.1.fileOffset + i) = some (host i) := by
  obtain ⟨S, m, hldd⟩ := h.loaded
  obtain ⟨hosts, rfl, hrd⟩ := RegisteredModel.loadModelFromDisk_spec hldd
  obtain ⟨i, hi, rfl⟩ := mem_iff_getElem.1 he
  rw [length_zip] at hi
  simp only at hi
  have hgps : i < m.tensorGroupIndexes.length := by omega
  have hhosts : i < hosts.length := by rwa [← hrd.length_eq, length_zipIdx]
  refine ⟨hosts[i], ?_, fun k hk => ?_⟩
  · unfold groupsOf RegisteredModel.placedGroups
    refine mem_map.2 ⟨(m.tensorGroupIndexes[i], ((M.modelGroupOffsets.get? path).getD [])[i], some hosts[i]), ?_, by simp⟩
    refine mem_iff_getElem.2 ⟨i, by simp; omega, by simp⟩
  · have hone := hrd.get (by simpa using hgps) hhosts
    simp only [get_eq_getElem, getElem_zipIdx, Nat.zero_add] at hone
    rw [getElem_zip] at hk ⊢
    exact readGroup_spec hone hk

/-- The bindings of a model are the tensors, and the device shows their bytes in the files. -/
def BindingsShow (M : VmmVRAMManager) (path : String) (device : ℤ) (partitions : List Partition)
    (tensors : List TensorIndex) : Prop :=
  ∃ p bindings, M.pools.get? device = some p ∧ M.getTensorBindings path device = some bindings ∧
    List.Forall₂ (fun binding tensor => binding.name = tensor.name ∧ binding.size = tensor.size ∧
      ∀ i < tensor.size, ∃ byte, fileByte partitions (tensor.offset + i) = some byte ∧
        p.driver.byteAt p.granularity binding.groupBase.1 (binding.groupBase.2 + binding.offset + i) =
          some byte) bindings tensors

theorem forall₂_flatMap {α β γ : Type} {R : β → γ → Prop} {f : α → List β} {g : α → List γ} {l : List α}
    (h : ∀ a ∈ l, List.Forall₂ R (f a) (g a)) : List.Forall₂ R (l.flatMap f) (l.flatMap g) := by
  induction l with
  | nil => exact .nil
  | cons a l ih =>
    rw [flatMap_cons, flatMap_cons]
    exact rel_append (h a mem_cons_self) (ih fun b hb => h b (mem_cons_of_mem _ hb))

theorem bindingsShow {p : Pool} (hk : Kept M) (hs : ShowsAll M) (hp : M.pools.get? device = some p)
    (hmod : M.models.get? path = some model)
    (hres : ∀ page < p.arenaPages path, p.extentOf path page ≠ none) (hins : ∀ group ∈ model.tensorGroupIndexes, Holds group) :
    BindingsShow M path device model.partitions (tensorPositions model.tensorGroupIndexes) := by
  obtain ⟨packedBytes, hreg, hars⟩ := hk.models path model hmod
  obtain ⟨arena, ha, -, hpgs⟩ := hars device p hp
  obtain ⟨hlay, -, -⟩ := hreg.layout
  have hlen : model.tensorGroupIndexes.length ≤ ((M.modelGroupOffsets.get? path).getD []).length := by
    obtain ⟨-, hlength, -⟩ := packGroups_spec 0 model.tensorGroupIndexes (model.tensorGroupIndexes.map fun _ _ => 0) (by simp)
    rw [hreg.offsets, getD_some, hlength]
  have hin : p.arenaPages path = p.pagesFor packedBytes := by
    unfold arenaPages
    rw [ha, map_some, getD_some, hpgs]
  refine ⟨p, _, hp, by unfold getTensorBindings; rw [hmod, hp], ?_⟩
  unfold tensorPositions
  conv_rhs => rw [← map_fst_zip hlen, flatMap_map]
  refine forall₂_flatMap fun e he => ?_
  rw [forall₂_map_left_iff, forall₂_map_right_iff, forall₂_same]
  intro tensor hten
  refine ⟨rfl, rfl, fun i hi => ?_⟩
  obtain ⟨host, hgrp, hbyt⟩ := hreg.mem_zip he
  have hhld := hins e.1 (of_mem_zip he).1 tensor hten
  have hhas : PlacedGroup.Has ⟨e.2, e.1.size, some host⟩ (e.2 + tensor.offset + i) :=
    ⟨by simp only; omega, by simp only at hi ⊢; omega⟩
  have hpg : (e.2 + tensor.offset + i) / p.granularity < p.arenaPages path := by
    rw [hin]
    exact p.lt_pagesFor (Nat.lt_of_lt_of_le hhas.2 (hlay.inside _ hgrp))
  obtain ⟨host', hhost, hbyte⟩ := holdsBytes hk hs device p path model hp hmod _ hgrp _ hhas (hres _ hpg)
  cases hhost
  refine ⟨host (tensor.offset + i), ?_, ?_⟩
  · rw [Nat.add_assoc]
    exact hbyt _ (by simp only at hi; omega)
  · rw [hbyte]
    simp only [Option.some.injEq]
    congr 1
    omega

/-- A registration has kept the tensors on their bytes: each is where it was in the files, in the range that its group loads,
and in an arena where the groups are apart, so that the device shows its bytes after a load. -/
structure InPlace (M : VmmVRAMManager) (path : String) (model : RegisteredModel) (groups : List TensorGroupIndex)
    (partitions : List Partition) :
    Prop where
  positions : tensorPositions model.tensorGroupIndexes = tensorPositions groups
  inside : ∀ group ∈ model.tensorGroupIndexes, Holds group
  aligned : ∀ g ∈ M.groupsOf path model, 256 ∣ g.offset
  apart : (M.groupsOf path model).Pairwise fun g g' => g.offset + g.size ≤ g'.offset
  bytes : ∀ cs : List (Outside × Op), EachStep step (fun _ c => c.1.CopiesAsync) M cs → ∀ M₁, cs.foldlM step M = some M₁ →
    ∀ (S : Outside) (device : ℤ) (disableReuse : Bool) (loaded : Nat × Nat) (M₂ : VmmVRAMManager), S.CopiesAsync →
      M₁.loadModel S path device disableReuse = (some loaded, M₂) →
        BindingsShow M₂ path device partitions (tensorPositions groups)

theorem resident_of_loadModel (hk : Kept M) (hmod : M.models.get? path = some model) {disableReuse : Bool} {loaded : Nat × Nat}
    (hld : M.loadModel S path device disableReuse = (some loaded, M')) :
    ∃ p, M'.pools.get? device = some p ∧ ∀ page < p.arenaPages path, p.extentOf path page ≠ none := by
  obtain ⟨p, hp⟩ : ∃ p, M.pools.get? device = some p := by
    unfold loadModel at hld
    simp only [hmod] at hld
    split at hld
    · rename_i p _ hp
      exact ⟨p, hp⟩
    · cases hld
  obtain ⟨packedBytes, hreg, hars⟩ := hk.models path model hmod
  obtain ⟨arena, ha, -⟩ := hars device p hp
  obtain ⟨count, r, p', -, hinto, hfst, hM'⟩ := loadModel_eq S hmod hp disableReuse
  rw [hreg.packed, getD_some] at hinto
  obtain ⟨r', q, hinto', -, hmvs, -, hok⟩ :=
    loadIntoPool_spec (S.gpu device) disableReuse ((hk.pools device p hp).1.setModelAccessCount path count).1 hreg.layout.1 ha
  obtain ⟨rfl, rfl⟩ := Prod.mk.inj (hinto.symm.trans hinto')
  rw [hld] at hfst hM'
  obtain ⟨n, rfl, -⟩ := map_eq_some_iff.1 hfst.symm
  obtain ⟨newly, -, -, -, hres, -⟩ := hok n rfl
  have hpgs : ∀ page < p'.arenaPages path, p'.extentOf path page ≠ none := by
    intro page hpg
    rw [arenaPages_congr hmvs.shapes] at hpg
    exact hres page hpg
  obtain ⟨hno, -⟩ | ⟨n', -, rfl⟩ := hM'
  · cases hno
  · exact ⟨p', Dict.get?_set_self .., hpgs⟩

/-- In a run without failed asynchronous copies, a registration keeps the tensors on their bytes when no merged unit has a
tensor behind a gap, and only then. -/
theorem in_place_iff {native : ℤ → Nat} {memory : ℤ → Handle → Nat → UInt8} {poolSize requested : Nat} {gpuIds : List ℤ}
    {M₀ : VmmVRAMManager}
    (hM : create native memory poolSize gpuIds requested = some M₀) {cs : List (Outside × Op)}
    (hcs : EachStep step (fun _ c => c.1.CopiesAsync) M₀ cs) (hrun : cs.foldlM step M₀ = some M) (hS : S.CopiesAsync)
    (hnew : path ∉ M.models.keys) (hholds : ∀ group ∈ groups, Holds group) {sensitivity : ℚ} {target n : ℤ}
      (htarget : target ≠ 0)
    (hreg : M.registerModelWithMergeTarget S path sensitivity false target groups partitions = (n, M')) (hn : 0 ≤ n) :
    ∃ model, M'.models.get? path = some model ∧ (InPlace M' path model groups partitions ↔
      (0 < target → ∀ u ∈ units ((partitions.map Partition.size).sum / target.toNat) groups, u.NoGap)) := by
  obtain ⟨hkept₀, hshw₀, -⟩ := create_spec hM
  obtain ⟨hkept, hshw, -⟩ := (throughout_shows hkept₀ hshw₀ hcs).last hrun
  have hst := stepKept_register S hkept path sensitivity target groups partitions
  rw [hreg] at hst
  obtain ⟨model, hldd, hmod⟩ := registered hnew hreg hn
  obtain ⟨hpts, hgps⟩ := regroup_eq path sensitivity htarget groups partitions
  have hregrouped : model.partitions = partitions ∧
      model.tensorGroupIndexes = regrouped target ((partitions.map Partition.size).sum / target.toNat) groups := by
    obtain ⟨hosts, rfl, -⟩ := RegisteredModel.loadModelFromDisk_spec hldd
    exact ⟨hpts, hgps⟩
  obtain ⟨rfl, hgps⟩ := hregrouped
  have hpos := tensorPositions_regrouped_iff target ((model.partitions.map Partition.size).sum / target.toNat) groups
  have hins := holds_regrouped target ((model.partitions.map Partition.size).sum / target.toNat) hholds
  rw [← hgps] at hpos hins
  obtain ⟨packedBytes, hregistered, -⟩ := hst.kept.models path model hmod
  obtain ⟨hlay, haligned, -⟩ := hregistered.layout
  refine ⟨model, hmod, fun h => hpos.1 h.positions, fun hgap => ⟨hpos.2 hgap, hins, haligned, hlay.apart, ?_⟩⟩
  intro cs' hcs' M₁ hrun' S' device disableReuse loaded M₂ hS' hld
  obtain ⟨hkept₁, hshw₁, hmds⟩ := (throughout_shows hst.kept (hst.shows hS hshw) hcs').last hrun'
  have hmod₁ := hmds path model hmod
  have hloadStep := stepKept_loadModel S' hkept₁ path device disableReuse
  obtain ⟨p, hp, hres⟩ := resident_of_loadModel hkept₁ hmod₁ hld
  rw [hld] at hloadStep
  rw [← hpos.2 hgap]
  exact bindingsShow hloadStep.kept (hloadStep.shows hS' hshw₁) hp (hloadStep.models path model hmod₁).1 hres hins

/-- An index of two groups of one byte each, and its file; the second group begins at `next`. -/
def pairIndex (next : Nat) : List TensorGroupIndex := [⟨0, 1, "g", [⟨"t", 0, 1⟩]⟩, ⟨next, 1, "h", [⟨"u", 0, 1⟩]⟩]

def threeBytes : List Partition := [⟨3, fun i => UInt8.ofNat (i + 5)⟩]

/-- Both groups are merged. -/
def registerMerged (next : Nat) : ℤ × VmmVRAMManager :=
  (ofPages 4).registerModelWithMergeTarget .reliable "a" 1 false 1 (pairIndex next) threeBytes

theorem in_place_iff_registerMerged : ∃ model, (registerMerged 1).2.models.get? "a" = some model ∧
    InPlace (registerMerged 1).2 "a" model (pairIndex 1) threeBytes := by
  have hhld : ∀ group ∈ pairIndex 1, Holds group := by
    intro group hgrp tensor hten
    simp only [pairIndex, mem_cons, not_mem_nil, or_false] at hgrp
    rcases hgrp with rfl | rfl <;> obtain rfl := mem_singleton.1 hten <;> decide
  have hcs : EachStep step (fun _ c => c.1.CopiesAsync) (ofPages 4) [] := trivial
  obtain ⟨model, hmod, hiff⟩ := in_place_iff create_ofPages_four hcs rfl (fun _ _ => rfl) (by decide) hhld (by decide)
    (rfl : registerMerged 1 = ((registerMerged 1).1, (registerMerged 1).2)) (by decide)
  refine ⟨model, hmod, hiff.2 fun _ u hu => ?_⟩
  obtain rfl := mem_singleton.1 hu
  exact ⟨fun _ => rfl, trivial⟩

/-- The tensor behind the gap is placed one byte too low. -/
theorem tensor_behind_gap_moved : ∃ model, (registerMerged 2).1 = 3 ∧ (registerMerged 2).2.models.get? "a" = some model ∧
    ¬InPlace (registerMerged 2).2 "a" model (pairIndex 2) threeBytes := by
  obtain ⟨model, hmod⟩ : ∃ model, (registerMerged 2).2.models.get? "a" = some model := ⟨_, rfl⟩
  refine ⟨model, by decide, hmod, fun h => ?_⟩
  have hofs := congrArg (List.map TensorIndex.offset) h.positions
  revert hofs
  cases hmod
  decide

end VmmVRAMManager

end ServerlessLLM.Vmm
