import ServerlessLLM.Checkpoint.Writer
import ServerlessLLM.Library.Text
import ServerlessLLM.Vram.Pool

/-!
# The tensor group index

`save_tensor_group_dict` saves the storages of a state dict and cuts the dict into groups, each with its offset in the files,
its size, and the offsets of its tensors from there. The offsets come from `save_tensors`; the size of a group is the sum of
the storage sizes.

`save_tensor_group_dict` writes the groups to `tensor_group_index.txt`, a line for each field, and `ParseTensorGroupIndex` reads
them from there line by line. A line is recognised by a marker somewhere in it; a group ends where the next one begins.
-/

namespace ServerlessLLM

section

/-- An entry of a state dict: the name, and the address and the size of the storage of the tensor. -/
structure Param where
  name : String
  dataPtr : Nat
  size : Nat
deriving DecidableEq

/-- A state dict, in its order. Tensors may share a storage, which then is at one address and has one size. -/
structure StateDict where
  params : List Param
  names_nodup : (params.map Param.name).Nodup
  oneSize : ∀ p ∈ params, ∀ q ∈ params, p.dataPtr = q.dataPtr → p.size = q.size

namespace StateDict

/-- The keys. -/
def names (sd : StateDict) : List String := sd.params.map Param.name

/-- The address and the size of the storage of each tensor. -/
def tensorDataIndex (sd : StateDict) (name : String) : Nat × Nat :=
  match sd.params.find? (fun p => p.name = name) with
  | some p => (p.dataPtr, p.size)
  | none => (0, 0)

end StateDict

/-- A tensor in the index: its name, its offset from the start of the group, and its size. -/
structure DumpEntry where
  name : String
  offset : Int
  size : Nat
deriving DecidableEq

structure DumpGroup where
  groupOffset : Nat
  groupSize : Nat
  fingerprint : String
  groupIndex : List DumpEntry
deriving DecidableEq

/-- The variables of the loop of `save_tensor_group_dict`. -/
structure GroupState where
  dumpIndex : List DumpGroup
  tensorGroupIndex : List (String × Nat × Nat)
  tensorGroupData : List Param
  currentTensorGroupSize : Nat

-- `tensor_group_hash_fingerprint` hashes the elements of the tensors of a group
variable (fingerprintOf : List Param → String)

/-- Put the current group into the index, its offset being that of its first tensor, and start the next one. -/
def GroupState.dump (s : GroupState) : GroupState :=
  let tensorGroupOffset := (s.tensorGroupIndex.head?.map fun e => e.2.1).getD 0
  ⟨s.dumpIndex ++ [⟨tensorGroupOffset, s.currentTensorGroupSize, fingerprintOf s.tensorGroupData,
    s.tensorGroupIndex.map fun e => ⟨e.1, (e.2.1 : Int) - tensorGroupOffset, e.2.2⟩⟩], [], [], 0⟩

/-- A round of the loop. -/
def groupStep (tensorOffsets : String → Option Nat) (tensorGroupSize : Int) (s : GroupState) (p : Param) : GroupState :=
  let s : GroupState :=
    ⟨s.dumpIndex, s.tensorGroupIndex ++ [(p.name, (tensorOffsets p.name).getD 0, p.size)], s.tensorGroupData ++ [p],
      s.currentTensorGroupSize + p.size⟩
  if (s.currentTensorGroupSize : Int) ≥ tensorGroupSize then s.dump fingerprintOf else s

/-- The index after the loop: the last group is put into it if it is not empty. -/
def GroupState.finish (s : GroupState) : List DumpGroup :=
  if s.tensorGroupIndex.isEmpty then s.dumpIndex else (s.dump fingerprintOf).dumpIndex

def groupTensors (tensorOffsets : String → Option Nat) (tensorGroupSize : Int) (params : List Param) : List DumpGroup :=
  (params.foldl (groupStep fingerprintOf tensorOffsets tensorGroupSize) ⟨[], [], [], 0⟩).finish fingerprintOf

/-- The index that is written, and the directory. The directory is removed and made again first. -/
def saveTensorGroupDict (K : WriterSizes) (os : Os) (mem : Nat → UInt8) (sd : StateDict) (chunkMegabytes : Int) :
    List DumpGroup × Disk :=
  let (tensorOffsets, d) := saveTensors K os mem sd.tensorDataIndex sd.names .empty
  (groupTensors fingerprintOf tensorOffsets (chunkMegabytes * 1024 * 1024) sd.params, d)

end

section

open Text Stream

/-! ## The writer -/

def printTensor (e : DumpEntry) : List (List Char) :=
  ["  Tensor Name: ".toList ++ e.name.toList, "  Offset: ".toList ++ decimal e.offset, "  Size: ".toList ++ decimal e.size]

def printGroup (g : DumpGroup) : List (List Char) :=
  ["Group Offset: ".toList ++ decimal g.groupOffset, "Group Size: ".toList ++ decimal g.groupSize,
    "Fingerprint: ".toList ++ g.fingerprint.toList, "Tensor Group Index:".toList] ++
      g.groupIndex.flatMap printTensor ++ [[]]

def printLines (dumpIndex : List DumpGroup) : List (List Char) :=
  ["Number of tensor groups: ".toList ++ decimal dumpIndex.length, []] ++ dumpIndex.flatMap printGroup

/-- What `save_tensor_group_dict` writes to `tensor_group_index.txt`. -/
def tensorGroupIndexText (dumpIndex : List DumpGroup) : List Char := unlines (printLines dumpIndex)

/-! ## The parser -/

/-- A `size_t` is below this. -/
def sizeBound : Nat := 2 ^ 64

/-- The markers that the parser looks for. -/
def groupOffsetMarker : List Char := "Group Offset:".toList
@[inherit_doc groupOffsetMarker] def groupSizeMarker : List Char := "Group Size:".toList
@[inherit_doc groupOffsetMarker] def fingerprintMarker : List Char := "Fingerprint:".toList
@[inherit_doc groupOffsetMarker] def tensorNameMarker : List Char := "Tensor Name:".toList

/-- The variables of the loop of `ParseTensorGroupIndex`. -/
structure ParseVars where
  tensorGroupIndexes : List TensorGroupIndex
  currentTensorGroup : TensorGroupIndex
  readingTensorGroup : Bool

namespace ParseVars

/-- The groups that are complete once the current one is. -/
def groups (s : ParseVars) : List TensorGroupIndex :=
  if s.readingTensorGroup then s.tensorGroupIndexes ++ [s.currentTensorGroup] else s.tensorGroupIndexes

/-- The offset of a group starts it, and ends the one before. -/
def readGroupOffset (line : List Char) (s : ParseVars) : ParseVars :=
  if groupOffsetMarker <:+: line then
    ⟨s.groups, ⟨((of line).skip.skip.number sizeBound 0).1, 0, "", []⟩, true⟩
  else s

def readGroupSize (line : List Char) (s : ParseVars) : ParseVars :=
  if groupSizeMarker <:+: line then
    { s with
      currentTensorGroup.size := ((of line).skip.skip.number sizeBound s.currentTensorGroup.size).1 }
  else s

def readFingerprint (line : List Char) (s : ParseVars) : ParseVars :=
  if fingerprintMarker <:+: line then
    { s with
      currentTensorGroup.fingerprint :=
        String.ofList ((of line).skip.word s.currentTensorGroup.fingerprint.toList).1 }
  else s

/-- A tensor of the current group, from its three lines. A number that is not there leaves the field as it was, that is with
what the memory holds (`uninit`). -/
def readTensor (uninit : Nat) (line offsetLine sizeLine : List Char) (s : ParseVars) : ParseVars :=
  { s with
    currentTensorGroup.tensorIndexes := s.currentTensorGroup.tensorIndexes ++
      [⟨String.ofList ((of line).skip.skip.word []).1, ((of offsetLine).skip.number sizeBound uninit).1,
        ((of sizeLine).skip.number sizeBound uninit).1⟩] }

end ParseVars

/-- What `getline` leaves in the variable at the end of the file: nothing, or what was there when the last line had no line
feed. -/
def lineAtEnd (terminated : Bool) (line : List Char) : List Char := if terminated then [] else line

/-- The loop of `ParseTensorGroupIndex`. The lines of the offset and of the size of a tensor are read ahead. -/
def parseLines (uninit : Nat) (terminated : Bool) : List (List Char) → ParseVars → ParseVars
  | [], s => s
  | line :: rest, s =>
    -- empty lines and comments are skipped
    if line = [] ∨ line.head? = some '#' then parseLines uninit terminated rest s
    else
      let s := ((s.readGroupOffset line).readGroupSize line).readFingerprint line
      if tensorNameMarker <:+: line then
        match rest with
        | [] => s.readTensor uninit line (lineAtEnd terminated line) (lineAtEnd terminated line)
        | [offsetLine] => s.readTensor uninit line offsetLine (lineAtEnd terminated offsetLine)
        | offsetLine :: sizeLine :: rest => parseLines uninit terminated rest (s.readTensor uninit line offsetLine sizeLine)
      else parseLines uninit terminated rest s

/-- `ParseTensorGroupIndex` on the text of a file. -/
def parseTensorGroupIndex (uninit : Nat) (text : List Char) : List TensorGroupIndex :=
  (parseLines uninit (text.getLast? = some '\n') (lines text) ⟨[], ⟨uninit, uninit, "", []⟩, false⟩).groups

end

end ServerlessLLM
