import ServerlessLLM.Checkpoint.Conversion
import ServerlessLLM.Vmm.Theorems.Registration

/-!
# Readers of partitions

`PartitionReader.read` goes through the partitions and reads from each that the position lies in.
-/

namespace ServerlessLLM

open List Runs

namespace Checkpoint.Conversion.PartitionReader

variable {files : List (List UInt8)} {r : PartitionReader} {offset size start position : Nat} {output : List UInt8}

/-- The table that `read` goes through. -/
def table (start : Nat) (files : List (List UInt8)) : List (List UInt8 × Nat × Nat) :=
  files.zip ((startsFrom start (files.map length)).zip (files.map length))

theorem table_cons (start : Nat) (file : List UInt8) (files : List (List UInt8)) :
    table start (file :: files) = (file, start, file.length) :: table (start + file.length) files := rfl

theorem readLoop_eq (hstart : start ≤ position) (hins : position + (size - output.length) ≤ start + files.flatten.length)
    (hsz : output.length ≤ size) : readLoop offset size (table start files) position output =
      if position < start + files.flatten.length then
        .ok (output ++ (files.flatten.drop (position - start)).take (size - output.length))
      else .error (.incomplete output.length size offset) := by
  induction files generalizing start position output with
  | nil => rw [if_neg (by simpa using hstart)]; rfl
  | cons file files ih =>
    rw [flatten_cons, length_append, ← Nat.add_assoc] at hins ⊢
    rw [table_cons, readLoop]
    by_cases hpast : position ≥ start + file.length
    · have hdrop : (file ++ files.flatten).drop (position - start) = files.flatten.drop (position - (start + file.length)) := by
        rw [drop_append, drop_eq_nil_of_le (by omega), nil_append]
        congr 1
        omega
      rw [if_pos hpast, ih hpast hins hsz, hdrop]
    · have hchunk : (readFile file (position - start) (min (size - output.length) (file.length - (position - start)))).length =
          min (size - output.length) (file.length - (position - start)) := by
        unfold readFile
        rw [length_take, length_drop]
        omega
      rw [if_neg hpast, if_neg (Nat.not_lt.2 hstart),
        if_pos (show position < start + file.length + files.flatten.length by omega)]
      simp only [hchunk, ne_eq, eq_self, not_true_eq_false, if_false, length_append]
      by_cases hla : size - output.length ≤ file.length - (position - start)
      · -- the rest lies in this partition
        rw [Nat.min_eq_left hla, if_pos (by omega), drop_append_of_le_length (by omega),
          take_append_of_le_length (by rw [length_drop]; omega)]
        rfl
      · rw [Nat.min_eq_right (by omega), if_neg (by omega)]
        have hout : (output ++ readFile file (position - start) (file.length - (position - start))).length =
            output.length + (file.length - (position - start)) := by
          rw [length_append]
          rw [Nat.min_eq_right (by omega)] at hchunk
          rw [hchunk]
        rw [ih (by omega) (by rw [hout]; omega) (by rw [hout]; omega), if_pos (by omega), hout]
        have hwhole : readFile file (position - start) (file.length - (position - start)) = file.drop (position - start) := by
          unfold readFile
          exact take_of_length_le (by rw [length_drop])
        have hnx : position + (file.length - (position - start)) - (start + file.length) = 0 := by omega
        rw [hwhole, hnx, drop_zero, drop_append_of_le_length (by omega), take_append, append_assoc,
          take_of_length_le (l := file.drop (position - start)) (by rw [length_drop]; omega), length_drop, Nat.sub_sub]

theorem read_eq_ok_iff (h : new files = .ok r) {offset size : Nat} (hins : offset + size ≤ files.flatten.length) :
    r.read offset size = .ok ((files.flatten.drop offset).take size) ↔ ¬(size = 0 ∧ offset = files.flatten.length) := by
  unfold new at h
  split at h
  · cases h
  · cases h
    have htot : (files.map length).sum = files.flatten.length := by rw [length_flatten]
    have hrd : PartitionReader.read ⟨files, files.map length, startsFrom 0 (files.map length),
      (files.map length).sum⟩ offset size =
        readLoop offset size (table 0 files) offset [] := by
      unfold PartitionReader.read
      simp only [htot]
      rw [if_neg (by omega)]
      rfl
    rw [hrd, readLoop_eq (Nat.zero_le _) (by simpa using hins) (Nat.zero_le _)]
    simp only [Nat.zero_add, Nat.sub_zero, length_nil, nil_append]
    by_cases hend : offset < files.flatten.length
    · rw [if_pos hend]
      exact iff_of_true rfl fun h => Nat.ne_of_lt hend h.2
    · rw [if_neg hend]
      refine iff_of_false (by simp) fun h => h ⟨?_, ?_⟩ <;> omega

end Checkpoint.Conversion.PartitionReader

namespace Vmm.RegisteredModel

variable {m : RegisteredModel} {S : Surroundings} {group : TensorGroupIndex} {partitions behind : List Partition}
  {partition : Partition}
  {position inPartitionOffset numThreads : Nat}

/-- The sizes of the first `k` partitions. -/
def bytesBefore (partitions : List Partition) (k : Nat) : Nat := ((partitions.take k).map Partition.size).sum

def SpansTwo (partitions : List Partition) (group : TensorGroupIndex) : Prop :=
  ∃ k < partitions.length, bytesBefore partitions k ≤ group.fileOffset ∧
    group.fileOffset + group.size ≤ bytesBefore partitions (k + 2)

def Inside (partitions : List Partition) (group : TensorGroupIndex) : Prop :=
  0 < group.size ∧ group.fileOffset + group.size ≤ (partitions.map Partition.size).sum

theorem bytesBefore_mono {k k' : Nat} (h : k ≤ k') : bytesBefore partitions k ≤ bytesBefore partitions k' := by
  obtain ⟨d, rfl⟩ := Nat.exists_eq_add_of_le h
  unfold bytesBefore
  rw [take_add, map_append, sum_append]
  exact Nat.le_add_right _ _

theorem findPartition_inside (h : position < (partitions.map Partition.size).sum) : ∃ partition behind inPartitionOffset front,
    findPartition partitions position = some (partition, behind, inPartitionOffset) ∧
      partitions = front ++ partition :: behind ∧
      bytesBefore partitions front.length + inPartitionOffset = position ∧ inPartitionOffset < partition.size := by
  induction partitions generalizing position with
  | nil => cases h
  | cons first partitions ih =>
    rw [map_cons, sum_cons] at h
    unfold findPartition
    by_cases hge : position ≥ first.size
    · obtain ⟨partition, behind, inPartitionOffset, front, hfind, hspl, hsum, hlt⟩ := @ih (position - first.size) (by omega)
      refine ⟨partition, behind, inPartitionOffset, first :: front, by rw [if_pos hge, hfind], by rw [hspl]; rfl, ?_, hlt⟩
      unfold bytesBefore at hsum ⊢
      rw [length_cons, take_succ_cons, map_cons, sum_cons]
      omega
    · exact ⟨first, partitions, position, [], if_neg hge, rfl, by simp [bytesBefore], Nat.lt_of_not_le hge⟩

theorem bytesBefore_split {front : List Partition} (h : partitions = front ++ partition :: behind) :
    bytesBefore partitions (front.length + 1) = bytesBefore partitions front.length + partition.size ∧
      bytesBefore partitions (front.length + 2) =
        bytesBefore partitions front.length + partition.size + ((behind.head?).map Partition.size).getD 0 := by
  unfold bytesBefore
  rw [h, take_left, take_length_add_append, take_length_add_append]
  cases behind with
  | nil => simp
  | cons next behind => simp [Nat.add_assoc]

theorem readGroup_isSome_iff (hS : S.NoFailure) (hins : Inside m.partitions group) (idx : Nat) :
    (m.readGroup S idx group).isSome = true ↔ SpansTwo m.partitions group := by
  obtain ⟨hpos, hle⟩ := hins
  obtain ⟨partition, behind, inPartitionOffset, front, hfind, hspl, hsum, hlt⟩ :=
    @findPartition_inside m.partitions group.fileOffset (by omega)
  obtain ⟨hone, htwo⟩ := bytesBefore_split hspl
  have hspans : SpansTwo m.partitions group ↔
    inPartitionOffset + group.size ≤ partition.size + ((behind.head?).map Partition.size).getD 0 := by
    constructor
    · rintro ⟨k, -, hfrom, hto⟩
      have hk : k ≤ front.length := by
        by_contra hgt
        have := @bytesBefore_mono m.partitions _ _ (show front.length + 1 ≤ k by omega)
        omega
      have := @bytesBefore_mono m.partitions _ _ (show k + 2 ≤ front.length + 2 by omega)
      omega
    · intro hft
      refine ⟨front.length, ?_, by omega, by omega⟩
      rw [hspl, length_append, length_cons]
      omega
  rw [hspans]
  unfold readGroup pread
  simp only [hfind, hS _ _, Bool.not_true, Bool.false_eq_true, if_false, if_true]
  by_cases hall : group.size ≤ partition.size - inPartitionOffset
  · rw [Nat.min_eq_left hall, if_pos rfl]
    exact iff_of_true rfl (by omega)
  · rw [Nat.min_eq_right (by omega), if_neg (by omega)]
    cases behind with
    | nil => exact iff_of_false (by simp) (by simp; omega)
    | cons next behind =>
      simp only [head?_cons, Option.map_some, Option.getD_some, Nat.sub_zero]
      by_cases hrs : group.size - (partition.size - inPartitionOffset) ≤ next.size
      · rw [if_pos (by omega)]
        exact iff_of_true rfl (by omega)
      · rw [if_neg (by omega)]
        exact iff_of_false (by simp) (by omega)

/-! ## The threads -/

theorem getElem?_foldl_set {α : Type} {l : List (Nat × α)} {hosts : List (Option α)} {i : Nat} {a : α} (hi : i < hosts.length)
    (hmem : (i, a) ∈ l ∨ hosts[i]? = some (some a)) (hsa : ∀ e ∈ l, e.1 = i → e.2 = a) :
    (l.foldl (fun hosts e => hosts.set e.1 (some e.2)) hosts)[i]? = some (some a) := by
  induction l generalizing hosts with
  | nil => exact hmem.resolve_left (not_mem_nil)
  | cons e l ih =>
    rw [foldl_cons]
    refine ih (by rwa [length_set]) ?_ fun e' he' => hsa e' (mem_cons_of_mem _ he')
    by_cases he : e.1 = i
    · right
      rw [← hsa e mem_cons_self he, ← he, getElem?_set_self (he ▸ hi)]
    · rcases hmem with hmem | hmem
      · rcases mem_cons.1 hmem with rfl | hmem
        · exact absurd rfl he
        · exact .inl hmem
      · right
        rwa [getElem?_set_ne he]

theorem loadModelFromDiskThreads_spec (hS : S.NoFailure) (hths : 0 < numThreads)
    (hins : ∀ group ∈ m.tensorGroupIndexes, Inside m.partitions group) :
    ((m.loadModelFromDiskThreads S numThreads).isSome = true ↔ m.partitions ≠ [] ∧ ∀ group ∈ m.tensorGroupIndexes,
      SpansTwo m.partitions group) ∧
      ∀ m', m.loadModelFromDiskThreads S numThreads = some m' → ∀ (i : Nat) (group : TensorGroupIndex),
        m.tensorGroupIndexes[i]? = some group →
        ∃ host, m'.tensorGroupHostPtr[i]? = some (some host) ∧
          ∀ j < group.size, fileByte m.partitions (group.fileOffset + j) = some (host j) := by
  have hopen : ¬∃ i ∈ range m.partitions.length, S.succeeds .openPartition i = false := by
    rintro ⟨i, -, hfail⟩
    rw [hS] at hfail
    cases hfail
  have hmem : ∀ {e : TensorGroupIndex × Nat}, e ∈ m.tensorGroupIndexes.zipIdx → e.1 ∈ m.tensorGroupIndexes := fun he =>
    mem_of_getElem? (mk_mem_zipIdx_iff_getElem?.1 he)
  unfold loadModelFromDiskThreads
  constructor
  · by_cases hnil : m.partitions = []
    · rw [if_pos (.inl hnil)]
      exact iff_of_false (by simp) fun h => h.1 hnil
    · rw [if_neg (by simp only [hnil, hopen, or_self, not_false_eq_true]), Option.isSome_map, mapM_isSome_iff]
      simp only [loadThread, mapM_isSome_iff, Option.isSome_map, mem_filter, decide_eq_true_eq, mem_range]
      rw [and_iff_right hnil]
      constructor
      · intro hrd group hgrp
        obtain ⟨i, hi⟩ := mem_iff_getElem?.1 hgrp
        exact (readGroup_isSome_iff hS (hins group hgrp) i).1
          (hrd _ (Nat.mod_lt i hths) (group, i) ⟨mk_mem_zipIdx_iff_getElem?.2 hi, rfl⟩)
      · rintro hspans _ - e ⟨he, -⟩
        exact (readGroup_isSome_iff hS (hins _ (hmem he)) e.2).2 (hspans _ (hmem he))
  · intro m' hld i group hi
    split at hld
    · cases hld
    · obtain ⟨threads, hall, rfl⟩ := Option.map_eq_some_iff.1 hld
      have hflat : ∀ e, e ∈ threads.flatten ↔ ∃ g, m.tensorGroupIndexes[e.1]? = some g ∧ m.readGroup S e.1 g = some e.2 := by
        intro e
        rw [mem_flatten]
        constructor
        · rintro ⟨read, hrd, he⟩
          obtain ⟨threadIdx, -, hthr⟩ := (mem_of_mapM hall).1 hrd
          obtain ⟨⟨g, k⟩, hg, hmap⟩ := (mem_of_mapM hthr).1 he
          obtain ⟨host, hhost, rfl⟩ := Option.map_eq_some_iff.1 hmap
          exact ⟨g, mk_mem_zipIdx_iff_getElem?.1 (mem_filter.1 hg).1, hhost⟩
        · rintro ⟨g, hg, hhost⟩
          have hthr : (m.loadThread S numThreads (e.1 % numThreads)).isSome = true :=
            mapM_isSome_iff.1 (Option.isSome_iff_exists.2 ⟨threads, hall⟩) _ (mem_range.2 (Nat.mod_lt _ hths))
          obtain ⟨read, hrd⟩ := Option.isSome_iff_exists.1 hthr
          refine ⟨read, (mem_of_mapM hall).2 ⟨_, mem_range.2 (Nat.mod_lt _ hths), hrd⟩, ?_⟩
          refine (mem_of_mapM hrd).2 ⟨(g, e.1), mem_filter.2 ⟨mk_mem_zipIdx_iff_getElem?.2 hg, decide_eq_true rfl⟩, ?_⟩
          rw [hhost]
          rfl
      have hlt := (List.getElem?_eq_some_iff.1 hi).1
      have hthr : (m.loadThread S numThreads (i % numThreads)).isSome = true :=
        mapM_isSome_iff.1 (Option.isSome_iff_exists.2 ⟨threads, hall⟩) _ (mem_range.2 (Nat.mod_lt _ hths))
      have hrd : (m.readGroup S i group).isSome = true := by
        have hmap := mapM_isSome_iff.1 hthr (group, i) (mem_filter.2 ⟨mk_mem_zipIdx_iff_getElem?.2 hi, decide_eq_true rfl⟩)
        rwa [Option.isSome_map] at hmap
      obtain ⟨host, hhost⟩ := Option.isSome_iff_exists.1 hrd
      refine ⟨host, getElem?_foldl_set (by rwa [length_replicate]) (.inl ((hflat (i, host)).2 ⟨group, hi, hhost⟩)) ?_,
        fun j hj => readGroup_spec hhost hj⟩
      rintro ⟨k, host'⟩ he rfl
      obtain ⟨g, hg, hhost'⟩ := (hflat _).1 he
      simp only at hg hhost'
      rw [hi, Option.some.injEq] at hg
      rw [← hg, hhost, Option.some.injEq] at hhost'
      exact hhost'.symm

end Vmm.RegisteredModel

namespace Checkpoint.Conversion

open Vmm.RegisteredModel

variable {files : List (List UInt8)} {r : PartitionReader} {offset size : Nat} {m : Vmm.RegisteredModel} {S : Vmm.Surroundings}
  {numThreads : Nat}

/-- `PartitionReader.read` returns the slice unless it is the empty one at the end; `LoadModelFromDisk` returns 0 just when
every group lies in two consecutive partitions, and then every group is where it belongs. -/
theorem readers_slice_iff (hreader : PartitionReader.new files = .ok r) (hslice : offset + size ≤ files.flatten.length)
    (hS : S.NoFailure)
    (hthreads : 0 < numThreads) (hinside : ∀ group ∈ m.tensorGroupIndexes, Inside m.partitions group) :
    (r.read offset size = .ok ((files.flatten.drop offset).take size) ↔ ¬(size = 0 ∧ offset = files.flatten.length)) ∧
      ((m.loadModelFromDiskThreads S numThreads).isSome = true ↔ m.partitions ≠ [] ∧ ∀ group ∈ m.tensorGroupIndexes,
        SpansTwo m.partitions group) ∧
      ∀ m', m.loadModelFromDiskThreads S numThreads = some m' → ∀ (i : Nat) (group : TensorGroupIndex),
        m.tensorGroupIndexes[i]? = some group →
        ∃ host, m'.tensorGroupHostPtr[i]? = some (some host) ∧
          ∀ j < group.size, Vmm.fileByte m.partitions (group.fileOffset + j) = some (host j) :=
  ⟨PartitionReader.read_eq_ok_iff hreader hslice, loadModelFromDiskThreads_spec hS hthreads hinside⟩

/-- A model with two partitions, and a group that lies in both. -/
def splitModel : Vmm.RegisteredModel :=
  ⟨"a", 3, [⟨2, fun _ => 1⟩, ⟨1, fun _ => 3⟩], [⟨1, 2, "f", []⟩], [none], 1⟩

theorem readers_slice_iff_splitModel : ∃ r, PartitionReader.new [[1, 2], [3]] = .ok r ∧
    (r.read 1 2 = .ok [2, 3] ↔ ¬(2 = 0 ∧ 1 = 3)) ∧
    ((splitModel.loadModelFromDiskThreads .reliable 2).isSome = true ↔
      splitModel.partitions ≠ [] ∧ ∀ group ∈ splitModel.tensorGroupIndexes, SpansTwo splitModel.partitions group) := by
  have hins : ∀ group ∈ splitModel.tensorGroupIndexes, Inside splitModel.partitions group := by
    intro group hgrp
    obtain rfl := mem_singleton.1 hgrp
    exact ⟨by decide, by decide⟩
  have h := fun (r : PartitionReader) (hr : PartitionReader.new [[1, 2], [3]] = .ok r) =>
    @readers_slice_iff [[1, 2], [3]] r 1 2 splitModel .reliable 2 hr (by decide) (fun _ _ => rfl) (by decide) hins
  exact ⟨_, rfl, (h _ rfl).1, (h _ rfl).2.1⟩

/-- An empty tensor at the end of the checkpoint is not read. -/
theorem empty_slice_not_read : ∃ r, PartitionReader.new [[1]] = .ok r ∧ r.read 1 0 = .error (.incomplete 0 0 1) := ⟨_, rfl, rfl⟩

end Checkpoint.Conversion

end ServerlessLLM
