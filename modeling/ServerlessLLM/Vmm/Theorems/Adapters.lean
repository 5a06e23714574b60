import ServerlessLLM.Checkpoint.Restore
import ServerlessLLM.Checkpoint.Theorems.IndexReaders
import ServerlessLLM.Vmm.Adapters

/-!
# Adapters load the bytes of the shards

The index that `create` writes is read back by the parser, every group of it lies in one shard, and the walk over the
partitions finds the place in the shard that the header names.
-/

namespace ServerlessLLM.Vmm

open List Vmm.Partition
open Prod (fst)
open Vmm.RegisteredModel (findPartition readGroup ofIndex)
open AdapterGroup (toIndex)

section

open Text

/-! ## Strides -/

theorem contiguousStride_cons (n : Nat) (shape : List Nat) :
    contiguousStride (n :: shape) = shape.prod :: contiguousStride shape := by
  have hval : ∀ l : List Nat, (l.foldr (fun n (s : List Nat × Nat) => (s.2 :: s.1, s.2 * n)) ([], 1)).2 = l.prod := by
    intro l
    induction l with
    | nil => rfl
    | cons m l ih => rw [foldr_cons, prod_cons, ih, Nat.mul_comm]
  rw [contiguousStride, foldr_cons, hval]
  rfl

theorem flatMap_rows (n k : Nat) : ((range n).flatMap fun i => (range k).map fun j => k * i + j) = range (n * k) := by
  induction n with
  | zero => simp
  | succ n ih => simp [range_succ, ih, Nat.succ_mul, range_add, Nat.mul_comm]

theorem elementOffset_contiguousStride (shape : List Nat) :
    (indices shape).map (elementOffset (contiguousStride shape)) = range shape.prod := by
  induction shape with
  | nil => rfl
  | cons n shape ih =>
    have hrow : ∀ i, ((indices shape).map (i :: ·)).map (elementOffset (contiguousStride (n :: shape))) =
        (range shape.prod).map fun j => shape.prod * i + j := by
      intro i
      rw [← ih, map_map, map_map, contiguousStride_cons]
      rfl
    rw [indices, map_flatMap, prod_cons]
    simp only [hrow]
    exact flatMap_rows n shape.prod

/-! ## What is written -/

variable (loads : List UInt8 → Option ShardHeader)

def tensorsOf (header : ShardHeader) : List (String × ShardTensor) :=
  header.filterMap fun e => if e.1 = "__metadata__" then none else e.2.map fun t => (e.1, t)

/-- A tensor is in the payload behind a header of `start` bytes in all, has bytes, and a type that is known. -/
structure ShardTensor.Ok (t : ShardTensor) (start size : Nat) : Prop where
  positive : t.dataBegin < t.dataEnd
  inside : start + t.dataEnd ≤ size
  dtype : (safetensorsDtypes.lookup t.dtype).isSome

structure WellFormedShard (p : Partition) (header : ShardHeader) : Prop where
  size : 8 + headerSize p ≤ p.size
  loaded : loads (Bytes.read p.bytes 8 (headerSize p)) = some header
  isTensor : ∀ e ∈ header, e.1 ≠ "__metadata__" → e.2 ≠ none
  tensors : ∀ e ∈ tensorsOf header, e.2.Ok (8 + headerSize p) p.size

/-- The groups of the shards, from the position `base` on. -/
def groupsFrom : Nat → List (Partition × ShardHeader) → List AdapterGroup
  | _, [] => []
  | base, (p, header) :: shards =>
    ((tensorsOf header).map fun e => ⟨base + 8 + headerSize p + e.2.dataBegin, e.2.size, e.1⟩) ++
      groupsFrom (base + p.size) shards

def shardTensors (shards : List (Partition × ShardHeader)) : List (Partition × String × ShardTensor) :=
  shards.flatMap fun s => (tensorsOf s.2).map fun e => (s.1, e)

/-- The index of strides has the strides of the tensors that were seen. -/
def MetaOf (tensorMeta : Dict String (List Nat × List Nat × String)) (tensors : List (String × ShardTensor)) : Prop :=
  ∀ e ∈ tensors, ∃ dtype, tensorMeta.get? e.1 = some (e.2.shape, contiguousStride e.2.shape, dtype)

variable {seen : List (String × ShardTensor)} {shards : List (Partition × ShardHeader)} (front : List Partition)
  {e : Partition × String × ShardTensor} {g : AdapterGroup}

theorem foldlM_addTensor {header : ShardHeader} (hso : ∀ e ∈ header, e.1 ≠ "__metadata__" → e.2 ≠ none)
    (hdtype : ∀ e ∈ tensorsOf header, (safetensorsDtypes.lookup e.2.dtype).isSome) (payloadBase : Nat) (s : AdapterVars)
    (hseen : MetaOf s.tensorMeta seen) (hnd : ((seen ++ tensorsOf header).map fst).Nodup) :
    ∃ s' : AdapterVars, header.foldlM (AdapterVars.addTensor payloadBase) s = .ok s' ∧
      s'.groups = s.groups ++ (tensorsOf header).map (fun e => ⟨payloadBase + e.2.dataBegin, e.2.size, e.1⟩) ∧
      MetaOf s'.tensorMeta (seen ++ tensorsOf header) ∧ s'.partitionBase = s.partitionBase := by
  induction header generalizing s seen with
  | nil => exact ⟨s, rfl, by simp [tensorsOf], by simpa [tensorsOf] using hseen, rfl⟩
  | cons e header ih =>
    have hso' : ∀ e ∈ header, e.1 ≠ "__metadata__" → e.2 ≠ none := fun e he => hso e (mem_cons_of_mem _ he)
    by_cases hmeta : e.1 = "__metadata__"
    · have htail : tensorsOf (e :: header) = tensorsOf header := by
        unfold tensorsOf
        rw [filterMap_cons_none (by rw [if_pos hmeta])]
      rw [htail] at hdtype hnd ⊢
      obtain ⟨s', hrun, hrs⟩ := ih hso' hdtype s hseen hnd
      refine ⟨s', ?_, hrs⟩
      rw [foldlM_cons, AdapterVars.addTensor, if_pos hmeta]
      exact hrun
    · obtain ⟨t, ht⟩ := Option.ne_none_iff_exists'.1 (hso e mem_cons_self hmeta)
      have htail : tensorsOf (e :: header) = (e.1, t) :: tensorsOf header := by
        unfold tensorsOf
        rw [filterMap_cons_some (b := (e.1, t)) (by rw [if_neg hmeta, ht]; rfl)]
      rw [htail] at hdtype hnd ⊢
      obtain ⟨dtype, hlu⟩ := Option.isSome_iff_exists.1 (hdtype _ mem_cons_self)
      have hassoc : seen ++ (e.1, t) :: tensorsOf header = (seen ++ [(e.1, t)]) ++ tensorsOf header := by simp
      have hmetas : MetaOf (s.tensorMeta.set e.1 (t.shape, contiguousStride t.shape, dtype)) (seen ++ [(e.1, t)]) := by
        rintro e' he'
        rcases mem_append.1 he' with he' | he'
        · have hne : e'.1 ≠ e.1 := by
            rw [map_append, nodup_append] at hnd
            exact hnd.2.2 e'.1 (mem_map_of_mem he') e.1 (by simp)
          rw [Dict.get?_set_of_ne _ _ hne]
          exact hseen e' he'
        · obtain rfl := mem_singleton.1 he'
          exact ⟨dtype, Dict.get?_set_self _ _ _⟩
      obtain ⟨s', hrun, hgps, hmetas', hba⟩ := ih hso' (fun e' he' => hdtype e' (mem_cons_of_mem _ he'))
        ⟨s.tensorMeta.set e.1 (t.shape, contiguousStride t.shape, dtype),
          s.groups ++ [⟨payloadBase + t.dataBegin, t.size, e.1⟩],
          s.partitionBase⟩ hmetas (by rwa [← hassoc])
      refine ⟨s', ?_, ?_, by rwa [hassoc], hba⟩
      · rw [foldlM_cons, AdapterVars.addTensor, if_neg hmeta, ht]
        simp only [hlu]
        exact hrun
      · rw [hgps, map_cons, append_assoc]
        rfl

theorem foldlM_addShard (h : ∀ s ∈ shards, WellFormedShard loads s.1 s.2) (s : AdapterVars) (hseen : MetaOf s.tensorMeta seen)
    (hnd : ((seen ++ shards.flatMap fun s => tensorsOf s.2).map fst).Nodup) :
    ∃ s' : AdapterVars, (shards.map fst).foldlM (AdapterVars.addShard loads) s = .ok s' ∧
      s'.groups = s.groups ++ groupsFrom s.partitionBase shards ∧
      MetaOf s'.tensorMeta (seen ++ shards.flatMap fun s => tensorsOf s.2) := by
  induction shards generalizing s seen with
  | nil => exact ⟨s, rfl, by simp [groupsFrom], by simpa using hseen⟩
  | cons shard shards ih =>
    obtain ⟨p, header⟩ := shard
    have hp := h _ mem_cons_self
    rw [flatMap_cons, ← append_assoc] at hnd ⊢
    have hfst : ((seen ++ tensorsOf header).map fst).Nodup := by
      rw [map_append] at hnd
      exact hnd.of_append_left
    obtain ⟨s₁, hrun₁, hgps₁, hmeta₁, -⟩ := foldlM_addTensor hp.isTensor (fun e he => (hp.tensors e he).dtype)
      (s.partitionBase + 8 + headerSize p) s hseen hfst
    obtain ⟨s', hrun, hgps, hmeta⟩ := ih (fun s' hs' => h s' (mem_cons_of_mem _ hs'))
      { s₁ with partitionBase := s.partitionBase + p.size } hmeta₁ hnd
    have hheader : shardHeader loads p = .ok header := by
      have hsz : 8 + headerSize p ≤ p.size := hp.size
      have hmin : min (headerSize p) (p.size - 8) = headerSize p := by omega
      unfold shardHeader
      rw [if_neg (by omega), hmin, hp.loaded]
    refine ⟨s', ?_, ?_, hmeta⟩
    · rw [map_cons, foldlM_cons, AdapterVars.addShard, hheader]
      simp only [bind, Except.bind, hrun₁]
      exact hrun
    · rw [hgps, hgps₁, groupsFrom, append_assoc]

theorem createAdapter_eq (modelPath : String) (hne : shards ≠ [])
    (h : ∀ s ∈ shards, WellFormedShard loads s.1 s.2) (hnd : ((shards.flatMap fun s => tensorsOf s.2).map fst).Nodup) :
    ∃ tensorMeta, createAdapter loads modelPath (shards.map fst) = .ok (tensorMeta, groupsFrom 0 shards) ∧
      MetaOf tensorMeta (shards.flatMap fun s => tensorsOf s.2) := by
  have hstart : MetaOf (AdapterVars.mk .empty [] 0).tensorMeta [] := by simp [MetaOf]
  obtain ⟨s', hrun, hgps, hmeta⟩ := foldlM_addShard loads h ⟨.empty, [], 0⟩ hstart hnd
  refine ⟨s'.tensorMeta, ?_, hmeta⟩
  unfold createAdapter
  rw [if_neg (by simpa using hne), hrun]
  show Except.ok (s'.tensorMeta, s'.groups) = _
  rw [hgps, nil_append]

/-! ## What is loaded -/

theorem findPartition_append (p : Partition) (behind : List Partition) {offset : Nat} (h : offset < p.size) :
    findPartition (front ++ p :: behind) ((front.map Partition.size).sum + offset) =
      some (p, behind, offset) := by
  induction front with
  | nil =>
    rw [nil_append, findPartition, if_neg (by simp; omega)]
    simp
  | cons q front ih =>
    have hminus : q.size + (front.map Partition.size).sum + offset - q.size = (front.map Partition.size).sum +
      offset := by omega
    rw [cons_append, findPartition, map_cons, sum_cons, if_pos (by omega), hminus, ih]

def startOf (e : Partition × String × ShardTensor) : Nat := 8 + headerSize e.1 + e.2.2.dataBegin

/-- The group stands at the bytes of the tensor in the row of all partitions. -/
structure Places (partitions : List Partition) (e : Partition × String × ShardTensor) (g : AdapterGroup) : Prop where
  name : g.name = e.2.1
  size : g.size = e.2.2.size
  offset : ∃ front behind, partitions = front ++ e.1 :: behind ∧ g.offset = (front.map Partition.size).sum + startOf e

theorem groupsFrom_places (shards : List (Partition × ShardHeader)) :
    List.Forall₂ (Places (front ++ shards.map fst)) (shardTensors shards)
      (groupsFrom (front.map Partition.size).sum shards) := by
  induction shards generalizing front with
  | nil => exact .nil
  | cons shard shards ih =>
    obtain ⟨p, header⟩ := shard
    have hrs := ih (front ++ [p])
    rw [map_append, sum_append, append_assoc] at hrs
    have hfst : List.Forall₂ (Places (front ++ p :: shards.map fst)) ((tensorsOf header).map fun e => (p, e))
        ((tensorsOf header).map fun e =>
          ⟨(front.map size).sum + 8 + headerSize p + e.2.dataBegin, e.2.size, e.1⟩) := by
      rw [forall₂_map_left_iff, forall₂_map_right_iff, forall₂_same]
      intro e _
      exact ⟨rfl, rfl, front, shards.map fst, rfl, by simp [startOf]; omega⟩
    have hbhd : List.Forall₂ (Places (front ++ p :: shards.map fst)) (shardTensors shards)
        (groupsFrom ((front.map size).sum + p.size) shards) := by simpa using hrs
    have hcons : shardTensors ((p, header) :: shards) = (tensorsOf header).map (fun e => (p, e)) ++ shardTensors shards :=
      flatMap_cons
    rw [hcons, groupsFrom]
    exact rel_append hfst hbhd

theorem readGroup_places {S : Surroundings} (hS : S.NoFailure) {m : RegisteredModel}
    (h : Places m.partitions e g) (hok : e.2.2.Ok (8 + headerSize e.1) e.1.size) (modelId : Int) (n : Nat) :
    m.readGroup S n (g.toIndex modelId) = some fun i => e.1.bytes (startOf e + i) := by
  obtain ⟨front, behind, hpts, hoff⟩ := h.offset
  have hpos := hok.positive
  have hins := hok.inside
  have hlt : startOf e < e.1.size := by
    unfold startOf
    omega
  have hfind : findPartition m.partitions (g.toIndex modelId).fileOffset = some (e.1, behind, startOf e) := by
    rw [hpts, toIndex, hoff]
    exact findPartition_append front e.1 behind hlt
  have hsz : (g.toIndex modelId).size = e.2.2.size := h.size
  have hmin : min e.2.2.size (e.1.size - startOf e) = e.2.2.size := by
    unfold startOf ShardTensor.size
    omega
  have hsuc : ∀ c n, S.succeeds c n = true := hS
  unfold readGroup
  rw [hfind, hsz]
  simp [hsuc, RegisteredModel.pread, hmin]

theorem legible_of_places (modelId : Int) {partitions : List Partition}
    (h : Places partitions e g) (hok : e.2.2.Ok (8 + headerSize e.1) e.1.size) (hword : ∀ c ∈ e.2.1.toList, isSpace c = false)
    (hmar : ∀ marker ∈ [groupOffsetMarker, groupSizeMarker, fingerprintMarker, tensorNameMarker], ¬marker <:+: e.2.1.toList)
    (hfit : (partitions.map Partition.size).sum < sizeBound) : (g.toIndex modelId).Legible := by
  obtain ⟨front, behind, hpts, hoff⟩ := h.offset
  have hpos := hok.positive
  have hins := hok.inside
  have hsum : (partitions.map Partition.size).sum = (front.map Partition.size).sum +
    (e.1.size + (behind.map Partition.size).sum) := by
    rw [hpts]
    simp
  have hsz : g.size < sizeBound := by
    rw [h.size, ShardTensor.size]
    omega
  refine ⟨?_, hsz, ?_, ?_⟩
  · show g.offset < sizeBound
    rw [hoff, startOf]
    omega
  · have hlit : ∀ c ∈ "safetensors:".toList, isSpace c = false := all_iff_forall_prop.1 (by decide)
    have hcolon : ∀ c ∈ ":".toList, isSpace c = false := all_iff_forall_prop.1 (by decide)
    intro c hc
    simp only [toIndex, String.toList_ofList, mem_append, h.name] at hc
    rcases hc with ((hc | hc) | hc) | hc
    · exact hlit c hc
    · exact isSpace_of_mem_decimal hc
    · exact hcolon c hc
    · exact hword c hc
  · intro t ht
    obtain rfl := mem_singleton.1 ht
    exact ⟨(by decide : 0 < sizeBound), hsz, by rw [h.name]; exact hword, by rw [h.name]; exact hmar⟩

theorem mapM_zipIdx {α β : Type} {f : α × Nat → Option β} {l : List α} {bs : List β}
    (h : List.Forall₂ (fun a b => ∀ n, f (a, n) = some b) l bs) (k : Nat) : (l.zipIdx k).mapM f = some bs := by
  induction h generalizing k with
  | nil => rfl
  | cons hab _ ih => rw [zipIdx_cons, mapM_cons, hab, ih]; rfl

/-- For every list of shards with well-formed headers, tensors of positive size with distinct names that are words without
markers, and positions that fit in a `size_t`, the adapter is made, the parser reads a group for each tensor, loading returns 0
and gives each tensor the bytes that the header of its shard names, and the strides number its elements in row-major order. -/
theorem adapter_loads_shards (loads : List UInt8 → Option ShardHeader) (modelPath adapterPath : String)
    (modelId : Int) (uninit : Nat)
    (loadSensitive : ℚ) {S : Surroundings} (hS : S.NoFailure) {shards : List (Partition × ShardHeader)} (hne : shards ≠ [])
    (h : ∀ s ∈ shards, WellFormedShard loads s.1 s.2) (hnodup : ((shardTensors shards).map fun e => e.2.1).Nodup)
    (hword : ∀ e ∈ shardTensors shards, ∀ c ∈ e.2.1.toList, isSpace c = false)
    (hmarker : ∀ e ∈ shardTensors shards, ∀ marker ∈ [groupOffsetMarker, groupSizeMarker, fingerprintMarker, tensorNameMarker],
      ¬marker <:+: e.2.1.toList)
    (hfit : ((shards.map fst).map Partition.size).sum < sizeBound) :
    ∃ tensorMeta groups hosts, createAdapter loads modelPath (shards.map fst) = .ok (tensorMeta, groups) ∧
      (let index := parseTensorGroupIndex uninit (adapterIndexText modelId groups)
      let model := ofIndex adapterPath loadSensitive 1 index (shards.map fst)
      List.Forall₂ (fun e g => g.size = e.2.2.size ∧ g.tensorIndexes = [⟨e.2.1, 0, e.2.2.size⟩]) (shardTensors shards) index ∧
        model.loadModelFromDisk S = some { model with tensorGroupHostPtr := hosts.map some }) ∧
      List.Forall₂ (fun e host => ∀ i < e.2.2.size, host i = e.1.bytes (8 + headerSize e.1 + e.2.2.dataBegin + i))
        (shardTensors shards)
        hosts ∧
      ∀ e ∈ shardTensors shards, ∃ stride dtype, tensorMeta.get? e.2.1 = some (e.2.2.shape, stride, dtype) ∧
        (indices e.2.2.shape).map (elementOffset stride) = range e.2.2.shape.prod := by
  have hnms : ((shards.flatMap fun s => tensorsOf s.2).map fst) = (shardTensors shards).map fun e => e.2.1 := by
    simp [shardTensors, map_flatMap, Function.comp_def]
  have hok : ∀ e ∈ shardTensors shards, e.2.2.Ok (8 + headerSize e.1) e.1.size := by
    intro e he
    obtain ⟨s, hs, he⟩ := mem_flatMap.1 he
    obtain ⟨t, ht, rfl⟩ := mem_map.1 he
    exact (h s hs).tensors t ht
  obtain ⟨tensorMeta, hcre, hmeta⟩ := createAdapter_eq loads modelPath hne h (by rwa [hnms])
  have hplaces : List.Forall₂ (Places (shards.map fst)) (shardTensors shards) (groupsFrom 0 shards) :=
    groupsFrom_places [] shards
  have hboth : List.Forall₂ (fun e g => e ∈ shardTensors shards ∧ Places (shards.map fst) e g) (shardTensors shards)
      (groupsFrom 0 shards) := (forall₂_and_left _ _).2 ⟨fun _ he => he, hplaces⟩
  have hreadable : List.Forall₂ (fun (g : AdapterGroup) (_ : Partition × String × ShardTensor) =>
    (g.toIndex modelId).Legible ∧ True)
      (groupsFrom 0 shards) (shardTensors shards) := List.Forall₂.flip <| hboth.imp fun e g hg =>
    ⟨legible_of_places modelId hg.2 (hok e hg.1) (hword e hg.1) (hmarker e hg.1) hfit, trivial⟩
  have hlegible : ∀ g ∈ (groupsFrom 0 shards).map (toIndex modelId), g.Legible := by
    intro g hg
    obtain ⟨a, ha, rfl⟩ := mem_map.1 hg
    exact ((forall₂_and_left _ _).1 hreadable).1 a ha
  have hindex : parseTensorGroupIndex uninit (adapterIndexText modelId (groupsFrom 0 shards)) =
      (groupsFrom 0 shards).map (toIndex modelId) := by
    rw [adapterIndexText_eq, parse_legible uninit hlegible]
  refine ⟨tensorMeta, groupsFrom 0 shards, (shardTensors shards).map fun e i => e.1.bytes (startOf e + i),
    hcre, ⟨?_, ?_⟩, ?_, ?_⟩
  · rw [hindex, forall₂_map_right_iff]
    exact hplaces.imp fun e g hg => ⟨hg.size, by rw [toIndex, hg.name, hg.size]⟩
  · rw [hindex]
    have hrd : List.Forall₂ (fun g host => ∀ n, (ofIndex adapterPath loadSensitive 1
        ((groupsFrom 0 shards).map (toIndex modelId)) (shards.map fst)).readGroup S n g = some host)
        ((groupsFrom 0 shards).map (toIndex modelId))
          ((shardTensors shards).map fun e i => e.1.bytes (startOf e + i)) := by
      rw [forall₂_map_left_iff, forall₂_map_right_iff]
      exact List.Forall₂.flip (hboth.imp fun e g h n => readGroup_places hS h.2 (hok e h.1) modelId n)
    have hsuc : ∀ c n, S.succeeds c n = true := hS
    unfold RegisteredModel.loadModelFromDisk
    rw [if_neg (by simp [ofIndex, hsuc, hne])]
    exact congrArg (Option.map _) (mapM_zipIdx hrd 0)
  · rw [forall₂_map_right_iff, forall₂_same]
    exact fun e _ i _ => rfl
  · intro e he
    obtain ⟨s, hs, he⟩ := mem_flatMap.1 he
    obtain ⟨t, ht, rfl⟩ := mem_map.1 he
    obtain ⟨dtype, hget⟩ := hmeta t (mem_flatMap.2 ⟨s, hs, ht⟩)
    exact ⟨_, dtype, hget, elementOffset_contiguousStride _⟩

/-- A shard with a header of two bytes and a tensor of three. -/
def smallShard : Partition := ⟨13, fun i => if i = 0 then 2 else if i < 8 then 0 else UInt8.ofNat i⟩

def smallHeader : ShardHeader := [("__metadata__", none), ("a", some ⟨"U8", [3], 0, 3, by decide⟩)]

/-- A shard with a header of three bytes and a tensor of two rows. -/
def squareShard : Partition := ⟨15, fun i => if i = 0 then 3 else if i < 8 then 0 else UInt8.ofNat i⟩

def squareHeader : ShardHeader := [("b", some ⟨"U8", [2, 2], 0, 4, by decide⟩)]

def twoShards : List (Partition × ShardHeader) := [(smallShard, smallHeader), (squareShard, squareHeader)]

def headerOf (header : List UInt8) : Option ShardHeader := some (if header.length = 2 then smallHeader else squareHeader)

theorem adapter_loads_twoShards :
    ∃ tensorMeta groups, ∃ hosts : List (Nat → UInt8), createAdapter headerOf "model" [smallShard, squareShard] =
      .ok (tensorMeta, groups) ∧
      (let model := ofIndex "adapter" 1 1 (parseTensorGroupIndex 7 (adapterIndexText 0 groups))
        [smallShard, squareShard]
      model.loadModelFromDisk Surroundings.reliable = some { model with tensorGroupHostPtr := hosts.map some }) ∧
      List.Forall₂ (fun e host => ∀ i < e.2.2.size, host i = e.1.bytes (8 + headerSize e.1 + e.2.2.dataBegin + i))
        (shardTensors twoShards) hosts ∧
      ∃ stride dtype, tensorMeta.get? "b" = some ([2, 2], stride, dtype) ∧
        (indices [2, 2]).map (elementOffset stride) = [0, 1, 2, 3] := by
  have htns : shardTensors twoShards =
    [(smallShard, "a", ⟨"U8", [3], 0, 3, by decide⟩), (squareShard, "b", ⟨"U8", [2, 2], 0, 4, by decide⟩)] := rfl
  have hsmall : headerSize smallShard = 2 := by decide
  have hsquare : headerSize squareShard = 3 := by decide
  have hshards : ∀ s ∈ twoShards, WellFormedShard headerOf s.1 s.2 := by
    intro s hs
    rcases mem_cons.1 hs with rfl | hs
    · refine ⟨by rw [hsmall]; decide, by rw [hsmall]; rfl, by simp [smallHeader], fun e he => ?_⟩
      obtain rfl : e = ("a", ⟨"U8", [3], 0, 3, by decide⟩) := mem_singleton.1 he
      exact ⟨by decide, by rw [hsmall]; decide, by decide⟩
    · obtain rfl := mem_singleton.1 hs
      refine ⟨by rw [hsquare]; decide, by rw [hsquare]; rfl, by simp [squareHeader], fun e he => ?_⟩
      obtain rfl : e = ("b", ⟨"U8", [2, 2], 0, 4, by decide⟩) := mem_singleton.1 he
      exact ⟨by decide, by rw [hsquare]; decide, by decide⟩
  have hword : ∀ e ∈ shardTensors twoShards, ∀ c ∈ e.2.1.toList, isSpace c = false := by
    rw [htns, forall_mem_cons, forall_mem_singleton]
    exact ⟨all_iff_forall_prop.1 (by decide), all_iff_forall_prop.1 (by decide)⟩
  have hmarker : ∀ e ∈ shardTensors twoShards,
      ∀ marker ∈ [groupOffsetMarker, groupSizeMarker, fingerprintMarker, tensorNameMarker], ¬marker <:+: e.2.1.toList := by
    rw [htns, forall_mem_cons, forall_mem_singleton]
    exact ⟨by decide, by decide⟩
  obtain ⟨tensorMeta, groups, hosts, hcre, ⟨-, hld⟩, hbytes, hstrides⟩ :=
    @adapter_loads_shards headerOf "model" "adapter" 0 7 1 Surroundings.reliable (fun _ _ => rfl) twoShards
      (by simp [twoShards]) hshards (by rw [htns]; simp) hword hmarker (by decide : 28 < sizeBound)
  obtain ⟨stride, dtype, hget, hoffsets⟩ := hstrides (squareShard, "b", ⟨"U8", [2, 2], 0, 4, by decide⟩) (by rw [htns]; simp)
  exact ⟨tensorMeta, groups, hosts, hcre, hld, hbytes, stride, dtype, hget, hoffsets⟩

end

end ServerlessLLM.Vmm
