import Mathlib.Algebra.GroupWithZero.Nat
import Mathlib.Algebra.BigOperators.Group.List.Basic
import Mathlib.Data.Char
import Mathlib.Data.List.Infix
import Mathlib.Data.List.Lex
import Mathlib.Data.List.Sort
import ServerlessLLM.Library.Dict

/-!
# Converting packed checkpoints

`convert_rank0_to_safetensors.py`: how the bytes of a tensor are read out of the `tensor.data_*` partitions, which output
tensors are made of a source tensor, and how these are packed into shards. The values of the tensors are not looked at; a shard
has the planned outputs themselves.
-/

namespace ServerlessLLM.Checkpoint.Conversion

/-! ## Reading -/

/-- The exceptions of `PartitionReader`. -/
inductive ReadError where
  /-- `No tensor.data_* partitions found`. -/
  | noPartitions
  /-- `Read [{offset}, {offset + size}) exceeds packed size {total_bytes}`. -/
  | exceeds (offset size : ℤ) (totalBytes : Nat)
  /-- `Short read`. -/
  | shortRead (expected received : Nat)
  /-- `Could only read {written}/{size} bytes at {offset}`. -/
  | incomplete (written size offset : Nat)
deriving DecidableEq

/-- The contents of the files, with their sizes and where each starts. -/
structure PartitionReader where
  files : List (List UInt8)
  sizes : List Nat
  starts : List Nat
  totalBytes : Nat

namespace PartitionReader

/-- `starts`, from a first one on. -/
def startsFrom : Nat → List Nat → List Nat
  | _, [] => []
  | total, size :: sizes => total :: startsFrom (total + size) sizes

/-- The constructor. -/
def new (files : List (List UInt8)) : Except ReadError PartitionReader :=
  if files = [] then .error .noPartitions
  else
    let sizes := files.map List.length
    .ok ⟨files, sizes, startsFrom 0 sizes, sizes.sum⟩

/-- `file.read(count)` after `file.seek(offset)`. -/
def readFile (file : List UInt8) (offset count : Nat) : List UInt8 := (file.drop offset).take count

/-- The loop of `read`; `output` is what was written so far. -/
def readLoop (offset size : Nat) : List (List UInt8 × Nat × Nat) → Nat → List UInt8 → Except ReadError (List UInt8)
  | [], _, output => .error (.incomplete output.length size offset)
  | (file, start, partitionSize) :: rest, position, output =>
    if position ≥ start + partitionSize then readLoop offset size rest position output
    else if position < start then readLoop offset size rest position output
    else
      let localOffset := position - start
      let count := min (size - output.length) (partitionSize - localOffset)
      let chunk := readFile file localOffset count
      if chunk.length ≠ count then .error (.shortRead count chunk.length)
      else
        let output := output ++ chunk
        if output.length = size then .ok output else readLoop offset size rest (position + count) output

def read (r : PartitionReader) (offset size : ℤ) : Except ReadError (List UInt8) :=
  if offset < 0 ∨ size < 0 ∨ offset + size > r.totalBytes then .error (.exceeds offset size r.totalBytes)
  else readLoop offset.toNat size.toNat (r.files.zip (r.starts.zip r.sizes)) offset.toNat []

end PartitionReader

/-! ## Planning -/

abbrev Name := List Char

/-- The names of `DTYPES`. -/
inductive Dtype where
  | bool
  | uint8
  | int8
  | int16
  | int32
  | int64
  | float16
  | bfloat16
  | float32
  | float64
deriving DecidableEq

def Dtype.elementSize : Dtype → Nat
  | .bool | .uint8 | .int8 => 1
  | .int16 | .float16 | .bfloat16 => 2
  | .int32 | .float32 => 4
  | .int64 | .float64 => 8

/-- What the planning reads of a `SourceTensor`. -/
structure SourceTensor where
  name : Name
  shape : List Nat
  dtype : Dtype
deriving DecidableEq

structure OutputTensor where
  name : Name
  sourceName : Name
  splitStart : Option Nat
  splitLength : Option Nat
  shape : List Nat
  dtype : Dtype
deriving DecidableEq

def OutputTensor.sizeBytes (o : OutputTensor) : Nat := o.shape.prod * o.dtype.elementSize

/-- The keys of the target model, with their shapes and types. -/
abbrev Target := Dict Name (List Nat × Dtype)

/-- The exceptions of `plan_outputs` and of `convert`. -/
inductive PlanError where
  | keyError (name : Name)
  /-- `Shape mismatch for {source.name} -> {name}`. -/
  | shapeMismatch (source name : Name)
  /-- `Rank mismatch while splitting {source.name}`. -/
  | rankMismatch (source : Name)
  /-- `Trailing shape mismatch while splitting {source.name}`. -/
  | trailingShapeMismatch (source : Name)
  /-- The first dimension of a shape without dimensions. -/
  | indexError (source : Name)
  /-- `Split sizes {lengths} do not cover {source.name}`. -/
  | splitSizes (source : Name) (lengths : List Nat)
  /-- `Cannot map packed tensor {source.name}`. -/
  | cannotMap (source : Name)
  /-- `Duplicate generated key {item.name}`. -/
  | duplicate (name : Name)
  /-- `Packed checkpoint does not cover {len(missing)} required HF keys`. -/
  | notCovered (missing : List Name)
deriving DecidableEq

def directOutput (source : SourceTensor) (target : Target) (name : Name) : Except PlanError OutputTensor :=
  match target.get? name with
  | none => .error (.keyError name)
  | some (shape, _) =>
    if shape ≠ source.shape then .error (.shapeMismatch source.name name)
    else .ok ⟨name, source.name, none, none, shape, source.dtype⟩

/-- The loop of `split_outputs`. -/
def splitFrom (source : SourceTensor) : Nat → List (Name × List Nat × Nat) → List OutputTensor
  | _, [] => []
  | start, (name, shape, length) :: rest =>
    ⟨name, source.name, some start, some length, shape, source.dtype⟩ :: splitFrom source (start + length) rest

def splitOutputs (source : SourceTensor) (target : Target) (targetNames : List Name) : Except PlanError (List OutputTensor) :=
  if ∃ name ∈ targetNames, name ∉ target.keys then .ok []
  else
    let shapes := targetNames.map fun name => ((target.get? name).map Prod.fst).getD []
    if ∃ shape ∈ shapes, shape.length ≠ source.shape.length then .error (.rankMismatch source.name)
    else if ∃ shape ∈ shapes, shape.tail ≠ source.shape.tail then .error (.trailingShapeMismatch source.name)
    else
      match source.shape with
      | [] => .error (.indexError source.name)
      | rows :: _ =>
        let lengths := shapes.map fun shape => shape.headD 0
        if lengths.sum ≠ rows then .error (.splitSizes source.name lengths)
        else .ok (splitFrom source 0 (targetNames.zip (shapes.zip lengths)))

/-- `str.replace`, as many rounds as there are characters. -/
def replaceFrom (old new : List Char) : Nat → List Char → List Char
  | 0, s => s
  | _ + 1, [] => []
  | fuel + 1, c :: s =>
    if old <+: c :: s then new ++ replaceFrom old new fuel ((c :: s).drop old.length) else c :: replaceFrom old new fuel s

/-- `s.replace(old, new)`. -/
def replace (s old new : List Char) : List Char := replaceFrom old new s.length s

/-- `lm_head.weight`. -/
def lmHeadWeight : Name := "lm_head.weight".toList

def candidateNames (name : Name) : List Name :=
  let candidates := [name] ++ if name = lmHeadWeight then ["language_model.lm_head.weight".toList] else []
  if "language_model.".toList <+: name then
    let suffix := name.drop "language_model.".length
    candidates ++ if suffix = lmHeadWeight then ["language_model.lm_head.weight".toList] else
      ["language_model.model.".toList ++ suffix]
  else candidates

def itemsOf (source : SourceTensor) (target : Target) (tieWordEmbeddings : Bool) : Except PlanError (List OutputTensor) :=
  let packedName := (candidateNames source.name).getLastD source.name
  match (candidateNames source.name).find? (· ∈ target.keys) with
  | some directName => (directOutput source target directName).map fun item => [item]
  | none =>
    if source.name = "lm_head_weight".toList then
      let aliases := if tieWordEmbeddings then ["model.embed_tokens.weight".toList] else [lmHeadWeight]
      (aliases.filter (· ∈ target.keys)).mapM (directOutput source target)
    else if ".qkv_proj.".toList <:+: source.name then
      splitOutputs source target (["q", "k", "v"].map fun part =>
        replace packedName ".qkv_proj.".toList (("." ++ part ++ "_proj.").toList))
    else if ".gate_up_proj.".toList <:+: source.name then
      splitOutputs source target (["gate", "up"].map fun part =>
        replace packedName ".gate_up_proj.".toList (("." ++ part ++ "_proj.").toList))
    else .ok []

/-- The inner loop of `plan_outputs`, over the items of a source. -/
def addItems : List OutputTensor → List OutputTensor × List Name → Except PlanError (List OutputTensor × List Name)
  | [], s => .ok s
  | item :: items, (outputs, generated) =>
    if item.name ∈ generated then .error (.duplicate item.name)
    else addItems items (outputs ++ [item], generated ++ [item.name])

/-- The loop of `plan_outputs` over the sources. -/
def planLoop (target : Target) (tieWordEmbeddings : Bool) :
    List SourceTensor → List OutputTensor × List Name → Except PlanError (List OutputTensor × List Name)
  | [], s => .ok s
  | source :: sources, s => do
    let items ← itemsOf source target tieWordEmbeddings
    if items = [] then .error (.cannotMap source.name)
    else
      let s ← addItems items s
      planLoop target tieWordEmbeddings sources s

/-- The outputs, and the keys that are missing. -/
def planOutputs (sources : List SourceTensor) (target : Target) (tieWordEmbeddings : Bool) :
    Except PlanError (List OutputTensor × List Name) := do
  let s ← planLoop target tieWordEmbeddings sources ([], [])
  let required := if tieWordEmbeddings then target.keys.filter (· ≠ lmHeadWeight) else target.keys
  .ok (s.1, (required.filter (· ∉ s.2)).insertionSort (· ≤ ·))

/-! ## Shards -/

/-- A shard: the tensors that were put in, by their names. -/
abbrev Shard := Dict Name OutputTensor

/-- The format `05d`. -/
def padded (n : Nat) : List Char := List.replicate (5 - (Nat.toDigits 10 n).length) '0' ++ Nat.toDigits 10 n

/-- The name of a shard while there may be more. -/
def shardName (n : Nat) : Name := "model-".toList ++ (padded n ++ ".safetensors".toList)

/-- The name of a shard when their number is known. -/
def finalName (shardCount index : Nat) : Name :=
  "model-".toList ++ (padded index ++ ("-of-".toList ++ (padded shardCount ++ ".safetensors".toList)))

/-- The variables of the sharding loop, and the files in the output directory. -/
structure Sharding where
  shardPaths : List Name
  weightMap : Dict Name Name
  shard : Shard
  shardBytes : Nat
  convertedBytes : Nat
  directory : Dict Name Shard

def Sharding.flushShard (w : Sharding) : Sharding :=
  if w.shard.entries = [] then w
  else
    let path := shardName (w.shardPaths.length + 1)
    { w with
      shardPaths := w.shardPaths ++ [path]
      weightMap := (w.shard.keys.map fun name => (name, path)).foldl (fun d e => d.set e.1 e.2) w.weightMap
      shard := .empty
      shardBytes := 0
      directory := w.directory.set path w.shard }

/-- The body of the loop over the outputs of a source. -/
def Sharding.add (maxShardBytes : Nat) (w : Sharding) (planned : OutputTensor) : Sharding :=
  let w := if w.shard.entries ≠ [] ∧ w.shardBytes + planned.sizeBytes > maxShardBytes then w.flushShard else w
  { w with
    shard := w.shard.set planned.name planned
    shardBytes := w.shardBytes + planned.sizeBytes
    convertedBytes := w.convertedBytes + planned.sizeBytes }

/-- `os.rename` in the output directory. -/
def rename (directory : Dict Name Shard) (old new : Name) : Dict Name Shard :=
  match directory.get? old with
  | none => directory
  | some shard => (directory.erase old).set new shard

def renameLoop (weightMap : Dict Name Name) (shardCount : Nat) :
    List Name → Nat → Dict Name Shard × Dict Name Name → Dict Name Shard × Dict Name Name
  | [], _, s => s
  | oldPath :: paths, index, (directory, finalWeightMap) =>
    let newName := finalName shardCount index
    renameLoop weightMap shardCount paths (index + 1) (rename directory oldPath newName,
      ((weightMap.entries.filter fun e => e.2 = oldPath).map fun e => (e.1, newName)).foldl
        (fun d e => d.set e.1 e.2) finalWeightMap)

/-- What `convert` leaves: the shards by their names, and the index. -/
structure Converted where
  directory : Dict Name Shard
  weightMap : Dict Name Name
  totalSize : Nat

/-- `convert`, from the sources and the target on. The values of the tensors are not looked at, and what the reader and
`tensor_from_storage` raise is left out. -/
def convert (sources : List SourceTensor) (target : Target) (tieWordEmbeddings : Bool) (maxShardBytes : Nat) :
    Except PlanError Converted := do
  let (outputs, missing) ← planOutputs sources target tieWordEmbeddings
  if missing ≠ [] then .error (.notCovered missing)
  else
    let outputBySource := fun source : SourceTensor => outputs.filter fun o => o.sourceName = source.name
    let w := sources.foldl (fun w source => (outputBySource source).foldl (Sharding.add maxShardBytes) w)
      ⟨[], .empty, .empty, 0, 0, .empty⟩
    let w := w.flushShard
    let r := renameLoop w.weightMap w.shardPaths.length w.shardPaths 1 (w.directory, .empty)
    .ok ⟨r.1, r.2, w.convertedBytes⟩

end ServerlessLLM.Checkpoint.Conversion
