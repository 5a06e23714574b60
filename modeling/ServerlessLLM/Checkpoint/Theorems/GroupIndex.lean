import ServerlessLLM.Checkpoint.GroupIndex
import ServerlessLLM.Checkpoint.Theorems.Writer

/-!
# What a tensor group covers

The size of a group is the sum of the storage sizes, while the tensors stand where `save_tensors` put them: rounded up to 8
bytes, and at the place of the first tensor with that storage.
-/

namespace ServerlessLLM

open Bytes InOrder List

/-- The sum of the storage sizes of the tensors. -/
def totalSizeOf (g : List Param) : Nat := (g.map Param.size).sum

/-- Consecutive groups: a group, begun with the tensors `cur`, ends with the tensor by which its size reaches the limit. -/
def splitGroups (limit : Int) : List Param → List Param → List (List Param)
  | [], [] => []
  | c :: cur, [] => [c :: cur]
  | cur, p :: l =>
    if (totalSizeOf (cur ++ [p]) : Int) ≥ limit then (cur ++ [p]) :: splitGroups limit [] l
    else splitGroups limit (cur ++ [p]) l

/-- The entry of a group in the index. -/
def groupOf (fingerprintOf : List Param → String) (tensorOffsets : String → Option Nat) (g : List Param) : DumpGroup :=
  let groupOffset := (g.head?.map fun p => (tensorOffsets p.name).getD 0).getD 0
  ⟨groupOffset, totalSizeOf g, fingerprintOf g,
    g.map fun p => ⟨p.name, ((tensorOffsets p.name).getD 0 : Int) - groupOffset, p.size⟩⟩

theorem flatten_splitGroups (limit : Int) (cur l : List Param) : (splitGroups limit cur l).flatten = cur ++ l := by
  induction l generalizing cur with
  | nil => cases cur <;> simp [splitGroups]
  | cons p l ih =>
    rw [splitGroups]
    split
    · simp [ih]
    · simp [ih]

theorem splitGroups_mem {limit : Int} {l g : List Param} (hg : g ∈ splitGroups limit [] l) {p : Param} (hp : p ∈ g) :
    p ∈ l := by
  have h := flatten_splitGroups limit [] l
  rw [nil_append] at h
  rw [← h]
  exact mem_flatten.2 ⟨g, hg, hp⟩

section Loop

variable (fingerprintOf : List Param → String) (tensorOffsets : String → Option Nat) (limit : Int)

/-- The variables of the loop, when the current group has the tensors `cur`. -/
def loopState (dumped : List DumpGroup) (cur : List Param) : GroupState :=
  ⟨dumped, cur.map fun p => (p.name, (tensorOffsets p.name).getD 0, p.size), cur, totalSizeOf cur⟩

variable (dumped : List DumpGroup) (cur : List Param)

theorem dump_loopState : (loopState tensorOffsets dumped cur).dump fingerprintOf =
      loopState tensorOffsets (dumped ++ [groupOf fingerprintOf tensorOffsets cur]) [] := by
  simp [GroupState.dump, loopState, groupOf, totalSizeOf, Function.comp_def]

theorem groupStep_loopState (p : Param) :
    groupStep fingerprintOf tensorOffsets limit (loopState tensorOffsets dumped cur) p =
      if (totalSizeOf (cur ++ [p]) : Int) ≥ limit then
        loopState tensorOffsets (dumped ++ [groupOf fingerprintOf tensorOffsets (cur ++ [p])]) []
      else loopState tensorOffsets dumped (cur ++ [p]) := by
  have hs : (⟨dumped, (loopState tensorOffsets dumped cur).tensorGroupIndex ++
      [(p.name, (tensorOffsets p.name).getD 0, p.size)], cur ++ [p], totalSizeOf cur + p.size⟩ : GroupState) =
      loopState tensorOffsets dumped (cur ++ [p]) := by
    simp [loopState, totalSizeOf]
  rw [← dump_loopState, ← hs]
  simp [groupStep, loopState, totalSizeOf]

theorem groupLoop_eq (l : List Param) :
    (l.foldl (groupStep fingerprintOf tensorOffsets limit) (loopState tensorOffsets dumped cur)).finish fingerprintOf =
      dumped ++ (splitGroups limit cur l).map (groupOf fingerprintOf tensorOffsets) := by
  induction l generalizing dumped cur with
  | nil =>
    rw [foldl_nil, GroupState.finish, dump_loopState]
    cases cur <;> simp [loopState, splitGroups]
  | cons p l ih =>
    rw [foldl_cons, groupStep_loopState, splitGroups]
    split
    · rw [ih, map_cons, append_assoc, singleton_append]
    · rw [ih]

theorem groupTensors_eq (params : List Param) :
    groupTensors fingerprintOf tensorOffsets limit params =
      (splitGroups limit [] params).map (groupOf fingerprintOf tensorOffsets) := by
  have h := groupLoop_eq fingerprintOf tensorOffsets limit [] [] params
  rwa [nil_append] at h

end Loop

/-! ## The offsets of the tensors -/

namespace StateDict

variable (sd : StateDict)

/-- The address and the size of the storage of every tensor, in the order of the dict. -/
def storages : List (Nat × Nat) := sd.params.map fun p => (p.dataPtr, p.size)

theorem tensorDataIndex_eq {p : Param} (hp : p ∈ sd.params) : sd.tensorDataIndex p.name = (p.dataPtr, p.size) := by
  unfold tensorDataIndex
  cases hf : sd.params.find? (fun q => q.name = p.name) with
  | none => exact absurd (find?_eq_none.1 hf p hp) (by simp)
  | some q =>
    have hnm : q.name = p.name := by simpa using find?_some hf
    obtain rfl := inj_on_of_nodup_map sd.names_nodup (mem_of_find?_eq_some hf) hp hnm
    rfl

theorem map_tensorDataIndex : sd.names.map sd.tensorDataIndex = sd.storages := by
  unfold names storages
  rw [map_map]
  exact map_congr_left fun p hp => sd.tensorDataIndex_eq hp

theorem storage_mem {p : Param} (hp : p ∈ sd.params) : (p.dataPtr, p.size) ∈ recordsOf sd.storages := by
  refine mem_recordsOf ?_ (mem_map.2 ⟨p, hp, rfl⟩)
  intro r hr r' hr' hba
  obtain ⟨p, hp, rfl⟩ := mem_map.1 hr
  obtain ⟨q, hq, rfl⟩ := mem_map.1 hr'
  exact sd.oneSize p hp q hq hba

theorem dataPtr_mem {p : Param} (hp : p ∈ sd.params) : p.dataPtr ∈ (recordsOf sd.storages).map Prod.fst :=
  mem_map.2 ⟨_, sd.storage_mem hp, rfl⟩

theorem oneSize_names : OneSize sd.tensorDataIndex sd.names := by
  intro name hn name' hn' hptr
  obtain ⟨p, hp, rfl⟩ := mem_map.1 hn
  obtain ⟨q, hq, rfl⟩ := mem_map.1 hn'
  rw [sd.tensorDataIndex_eq hp, sd.tensorDataIndex_eq hq] at hptr ⊢
  exact sd.oneSize p hp q hq hptr

theorem save_over_spec (K : WriterSizes) {os : Os} (hos : os.WritesAll) (old : List (List UInt8))
    (mem : Nat → UInt8) {p : Param}
    (hp : p ∈ sd.params) :
    (saveTensors K os mem sd.tensorDataIndex sd.names ⟨old, 0, []⟩).1 p.name = some (recordStart sd.storages p.dataPtr) ∧
      ((0 < p.size → InPlace K old sd.storages p.dataPtr) →
        HeldAt (saveTensors K os mem sd.tensorDataIndex sd.names ⟨old, 0, []⟩).2.files (recordStart sd.storages p.dataPtr)
          (read mem p.dataPtr p.size)) := by
  have hn : p.name ∈ sd.names := mem_map_of_mem hp
  obtain ⟨-, -, -, hoff, -⟩ := saveTensors_spec K hos old mem sd.tensorDataIndex sd.names
  have hnm := hoff p.name hn
  have hheld := @heldAt_of_inPlace K os hos _ _ sd.oneSize_names old mem _ hn
  rw [sd.map_tensorDataIndex, sd.tensorDataIndex_eq hp] at hnm hheld
  exact ⟨hnm, hheld⟩

/-- In a new directory every tensor is where its offset says. -/
theorem save_spec (K : WriterSizes) {os : Os} (hos : os.WritesAll) (mem : Nat → UInt8) {p : Param} (hp : p ∈ sd.params) :
    (saveTensors K os mem sd.tensorDataIndex sd.names .empty).1 p.name = some (recordStart sd.storages p.dataPtr) ∧
      HeldAt (saveTensors K os mem sd.tensorDataIndex sd.names .empty).2.files (recordStart sd.storages p.dataPtr)
        (read mem p.dataPtr p.size) :=
  (sd.save_over_spec K hos [] mem hp).imp_right fun h => h fun _ i _ => by simp

end StateDict

/-- The entry is enough to find the bytes of the tensor: it lies in the group, the files have the bytes there, and so has a
copy of the range of the group. -/
structure EntryCovered (data : List UInt8) (g : DumpGroup) (e : DumpEntry) (bytes : List UInt8) : Prop where
  lower : 0 ≤ e.offset
  upper : e.offset + e.size ≤ g.groupSize
  inFiles : (data.drop (g.groupOffset + e.offset).toNat).take e.size = bytes
  inCopy : (((data.drop g.groupOffset).take g.groupSize).drop e.offset.toNat).take e.size = bytes

/-- Every entry of the index is enough to find the storage of its tensor, and every tensor has an entry. -/
structure SelfContained (mem : Nat → UInt8) (sd : StateDict) (index : List DumpGroup) (d : Disk) : Prop where
  entries : ∀ g ∈ index, ∀ e ∈ g.groupIndex, ∃ p ∈ sd.params, p.name = e.name ∧ p.size = e.size ∧
    EntryCovered d.files.flatten g e (read mem p.dataPtr p.size)
  tensors : ∀ p ∈ sd.params, ∃ g ∈ index, ∃ e ∈ g.groupIndex, e.name = p.name

namespace StateDict

/-- The storages that the dict has from that of one tensor on, up to that of another, each where it comes first. Nothing, when
the storage of the other does not come behind. -/
def seenBetween (sd : StateDict) (p q : Param) : List (Nat × Nat) :=
  between Prod.fst (recordsOf sd.storages) p.dataPtr q.dataPtr

/-- In every group, no storage with bytes comes from that of a tensor up to that of the first tensor; and the storages from
that of the first tensor up to that of a tensor, each rounded up to 8 bytes, leave room for the tensor in the sum of the sizes.
-/
def GroupsFit (sd : StateDict) (limit : Int) : Prop :=
  ∀ g ∈ splitGroups limit [] sd.params, ∀ first ∈ g.head?, ∀ p ∈ g,
    (∀ r ∈ sd.seenBetween p first, r.2 = 0) ∧
      total recordWidth (sd.seenBetween first p) + p.size ≤ totalSizeOf g

instance (sd : StateDict) (limit : Int) : Decidable (sd.GroupsFit limit) :=
  inferInstanceAs (Decidable (∀ g ∈ splitGroups limit [] sd.params, ∀ first ∈ g.head?, ∀ p ∈ g, _ ∧ _))

end StateDict

theorem recordWidth_eq_zero (r : Nat × Nat) : recordWidth r = 0 ↔ r.2 = 0 := by
  unfold recordWidth
  omega

theorem take_drop_copy {α : Type} (data : List α) {base size offset n : Nat} (h : offset + n ≤ size) :
    (((data.drop base).take size).drop offset).take n = (data.drop (base + offset)).take n := by
  rw [drop_take, drop_drop, take_take]
  congr 1
  omega

namespace StateDict

variable (sd : StateDict) {g : List Param} {first p : Param}

theorem fits_iff (hf : first ∈ sd.params) (hp : p ∈ sd.params) (size : Nat) :
    (0 ≤ (recordStart sd.storages p.dataPtr : Int) - recordStart sd.storages first.dataPtr ∧
        (recordStart sd.storages p.dataPtr : Int) - recordStart sd.storages first.dataPtr + p.size ≤ size) ↔
      (∀ r ∈ sd.seenBetween p first, r.2 = 0) ∧ total recordWidth (sd.seenBetween first p) + p.size ≤ size := by
  have hle : recordStart sd.storages first.dataPtr ≤ recordStart sd.storages p.dataPtr ↔
      ∀ r ∈ sd.seenBetween p first, r.2 = 0 := by
    refine (start_le_iff (sd.dataPtr_mem hf) (sd.dataPtr_mem hp)).trans ?_
    simp only [recordWidth_eq_zero]
    rfl
  have hadd : recordStart sd.storages first.dataPtr ≤ recordStart sd.storages p.dataPtr →
      recordStart sd.storages p.dataPtr = recordStart sd.storages first.dataPtr + total recordWidth (sd.seenBetween first p) :=
    start_add_between (sd.dataPtr_mem hf) (sd.dataPtr_mem hp)
  rw [← hle]
  constructor
  · rintro ⟨h1, h2⟩
    have := hadd (by omega)
    omega
  · rintro ⟨h1, h2⟩
    have := hadd h1
    omega

variable (K : WriterSizes) {os : Os} (fingerprintOf : List Param → String) (mem : Nat → UInt8)

theorem groupOf_eq (hos : os.WritesAll) (hf : first ∈ g.head?) (hg : ∀ p ∈ g, p ∈ sd.params) :
    groupOf fingerprintOf (saveTensors K os mem sd.tensorDataIndex sd.names .empty).1 g =
      ⟨recordStart sd.storages first.dataPtr, totalSizeOf g, fingerprintOf g, g.map fun p =>
        ⟨p.name, (recordStart sd.storages p.dataPtr : Int) - recordStart sd.storages first.dataPtr, p.size⟩⟩ := by
  have hoff : ∀ p ∈ g, ((saveTensors K os mem sd.tensorDataIndex sd.names .empty).1 p.name).getD 0 =
      recordStart sd.storages p.dataPtr := by
    intro p hp
    rw [(sd.save_spec K hos mem (hg p hp)).1, Option.getD_some]
  have hfst := hoff first (mem_of_mem_head? hf)
  simp only [groupOf, Option.mem_def.1 hf, Option.map_some, Option.getD_some, hfst]
  congr 1
  exact map_congr_left fun p hp => by rw [hoff p hp]

theorem entryCovered_iff (hos : os.WritesAll) (hf : first ∈ g.head?) (hg : ∀ p ∈ g, p ∈ sd.params) (hp : p ∈ g)
    (entries : List DumpEntry) :
    EntryCovered (saveTensors K os mem sd.tensorDataIndex sd.names .empty).2.files.flatten
        ⟨recordStart sd.storages first.dataPtr, totalSizeOf g, fingerprintOf g, entries⟩
        ⟨p.name, (recordStart sd.storages p.dataPtr : Int) - recordStart sd.storages first.dataPtr, p.size⟩
        (read mem p.dataPtr p.size) ↔
      (∀ r ∈ sd.seenBetween p first, r.2 = 0) ∧ total recordWidth (sd.seenBetween first p) + p.size ≤ totalSizeOf g := by
  rw [← sd.fits_iff (hg first (mem_of_mem_head? hf)) (hg p hp)]
  refine ⟨fun h => ⟨h.lower, h.upper⟩, ?_⟩
  intro h
  have hbyt := (sd.save_spec K hos mem (hg p hp)).2.take_drop
  rw [length_read] at hbyt
  obtain ⟨hlower, hupper⟩ := h
  refine ⟨hlower, hupper, ?_, ?_⟩
  · -- the offset of the group and that of the tensor in it are the offset of the tensor
    dsimp only
    rw [show ((recordStart sd.storages first.dataPtr : Int) +
        ((recordStart sd.storages p.dataPtr : Int) - recordStart sd.storages first.dataPtr)).toNat =
          recordStart sd.storages p.dataPtr by omega]
    exact hbyt
  · dsimp only
    rw [take_drop_copy _ (by omega), show recordStart sd.storages first.dataPtr +
        ((recordStart sd.storages p.dataPtr : Int) - recordStart sd.storages first.dataPtr).toNat =
          recordStart sd.storages p.dataPtr by omega]
    exact hbyt

end StateDict

/-- The index that `save_tensor_group_dict` writes is enough to restore every tensor from a copy of its group exactly when the
groups fit. -/
theorem groupIndex_selfContained_iff (K : WriterSizes) {os : Os} (hos : os.WritesAll) (fingerprintOf : List Param → String)
    (mem : Nat → UInt8) (sd : StateDict) (chunkMegabytes : Int) :
    SelfContained mem sd (saveTensorGroupDict fingerprintOf K os mem sd chunkMegabytes).1
        (saveTensorGroupDict fingerprintOf K os mem sd chunkMegabytes).2 ↔
      sd.GroupsFit (chunkMegabytes * 1024 * 1024) := by
  have hindex : (saveTensorGroupDict fingerprintOf K os mem sd chunkMegabytes).1 =
      (splitGroups (chunkMegabytes * 1024 * 1024) [] sd.params).map
        (groupOf fingerprintOf (saveTensors K os mem sd.tensorDataIndex sd.names .empty).1) := groupTensors_eq _ _ _ _
  rw [hindex]
  constructor
  · intro h g hg first hf p hp
    have hgp : ∀ p ∈ g, p ∈ sd.params := fun p hp => splitGroups_mem hg hp
    have hentry := h.entries _ (mem_map_of_mem hg)
    rw [sd.groupOf_eq K fingerprintOf mem hos hf hgp] at hentry
    obtain ⟨q, hq, hnm, -, hcov⟩ := hentry _ (mem_map_of_mem hp)
    obtain rfl := inj_on_of_nodup_map sd.names_nodup hq (hgp p hp) hnm
    exact (sd.entryCovered_iff K fingerprintOf mem hos hf hgp hp _).1 hcov
  · intro h
    constructor
    case entries =>
      intro dg hdg e he
      obtain ⟨g, hg, rfl⟩ := mem_map.1 hdg
      have hgp : ∀ p ∈ g, p ∈ sd.params := fun p hp => splitGroups_mem hg hp
      obtain ⟨first, hf⟩ : ∃ first, first ∈ g.head? := by
        cases g with
        | nil => exact absurd he (by simp [groupOf])
        | cons first g => exact ⟨first, rfl⟩
      rw [sd.groupOf_eq K fingerprintOf mem hos hf hgp] at he ⊢
      obtain ⟨p, hp, rfl⟩ := mem_map.1 he
      exact ⟨p, hgp p hp, rfl, rfl, (sd.entryCovered_iff K fingerprintOf mem hos hf hgp hp _).2 (h g hg first hf p hp)⟩
    case tensors =>
      intro p hp
      have hflat := flatten_splitGroups (chunkMegabytes * 1024 * 1024) [] sd.params
      rw [nil_append] at hflat
      rw [← hflat] at hp
      obtain ⟨g, hg, hpg⟩ := mem_flatten.1 hp
      exact ⟨_, mem_map_of_mem hg, _, mem_map_of_mem hpg, rfl⟩

/-- A dict in which the last tensor shares the storage of the first, and only the second needs padding. -/
def fittingDict : StateDict where
  params := [⟨"a", 100, 8⟩, ⟨"b", 200, 3⟩, ⟨"c", 100, 8⟩]
  names_nodup := by decide
  oneSize := by decide

theorem groupIndex_selfContained_fittingDict :
    fittingDict.GroupsFit (8 * 1024 * 1024) ∧
      SelfContained (fun i => UInt8.ofNat i) fittingDict
        (saveTensorGroupDict (fun _ => "") .source .reliable (fun i => UInt8.ofNat i) fittingDict 8).1
        (saveTensorGroupDict (fun _ => "") .source .reliable (fun i => UInt8.ofNat i) fittingDict 8).2 := by
  have hft : fittingDict.GroupsFit (8 * 1024 * 1024) := by decide
  exact ⟨hft, (groupIndex_selfContained_iff .source (fun _ _ => rfl) _ _ fittingDict 8).2 hft⟩

/-- Two tensors of 4 bytes, which stand 8 bytes apart. -/
def shortDict : StateDict where
  params := [⟨"a", 100, 4⟩, ⟨"b", 200, 4⟩]
  names_nodup := by decide
  oneSize := by decide

/-- The size of the group is 8, and the second tensor is at the bytes 8 to 12 from its start. -/
theorem padding_leaves_group :
    (saveTensorGroupDict (fun _ => "") .source .reliable (fun _ => 0) shortDict 8).1 =
        [⟨0, 8, "", [⟨"a", 0, 4⟩, ⟨"b", 8, 4⟩]⟩] ∧
      ¬SelfContained (fun _ => 0) shortDict
        (saveTensorGroupDict (fun _ => "") .source .reliable (fun _ => 0) shortDict 8).1
        (saveTensorGroupDict (fun _ => "") .source .reliable (fun _ => 0) shortDict 8).2 := by
  have hindex : (saveTensorGroupDict (fun _ => "") .source .reliable (fun _ => 0) shortDict 8).1 =
      [⟨0, 8, "", [⟨"a", 0, 4⟩, ⟨"b", 8, 4⟩]⟩] := by decide +kernel
  refine ⟨hindex, ?_⟩
  intro h
  have hent := h.entries
  rw [hindex] at hent
  obtain ⟨p, -, -, -, hcov⟩ := hent _ (mem_singleton.2 rfl) ⟨"b", 8, 4⟩ (by simp)
  exact absurd hcov.upper (by decide)

end ServerlessLLM
