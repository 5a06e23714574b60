import ServerlessLLM.Checkpoint.GroupIndex
import ServerlessLLM.Library.PythonText
import ServerlessLLM.Simulator.EndToEnd

/-!
# The Python readers of the tensor group index

`SafetensorsVmmAdapters.create` writes the index of an adapter, and three scripts read an index on their own:
`parse_group_index` by the start of each line, `read_tensor_groups` and `tensor_group_bytes` by regular expressions.
-/

namespace ServerlessLLM

open Text PythonText

/-! ## The writer of adapters -/

/-- An entry of `groups`: a tensor of a shard. -/
structure AdapterGroup where
  offset : Nat
  size : Nat
  name : String

def printAdapterGroup (modelId : Int) (g : AdapterGroup) : List (List Char) :=
  ["Group Offset: ".toList ++ decimal g.offset, "Group Size: ".toList ++ decimal g.size,
    "Fingerprint: safetensors:".toList ++ decimal modelId ++ ":".toList ++ g.name.toList, "Tensor Group Index:".toList,
    "  Tensor Name: ".toList ++ g.name.toList, "  Offset: 0".toList, "  Size: ".toList ++ decimal g.size, []]

/-- What `SafetensorsVmmAdapters.create` writes to `tensor_group_index.txt`. -/
def adapterIndexText (modelId : Int) (groups : List AdapterGroup) : List Char :=
  unlines (["Number of tensor groups: ".toList ++ decimal groups.length, []] ++ groups.flatMap (printAdapterGroup modelId))

/-! ## The readers -/

/-- What a reader raises: a `ValueError`, or that of `int` for a string that is no number. -/
inductive IndexError where
  | valueError (message : String)
  | invalidLiteral (literal : List Char)
deriving DecidableEq

/-- The markers of `parse_group_index` for the lines of a tensor. -/
def offsetMarker : List Char := "Offset:".toList
@[inherit_doc offsetMarker] def sizeMarker : List Char := "Size:".toList

-- the value of a decimal digit of Unicode
variable (digit : Char → Option Nat)

/-- `int(line.split(":", 1)[1])`. -/
def intBehindColon (line : List Char) : Except IndexError Int :=
  match toInt? digit (behindColon line) with
  | some z => .ok z
  | none => .error (.invalidLiteral (behindColon line))

/-- The variables of the loop of `parse_group_index`. -/
structure PositionVars where
  offsets : Dict String (Int × Int)
  groupOffset : Option Int
  currentName : Option String
  currentOffset : Option Int

/-- A round of the loop. -/
def PositionVars.readLine (path : String) (s : PositionVars) (rawLine : List Char) : Except IndexError PositionVars :=
  let line := strip rawLine
  if groupOffsetMarker <+: line then do
    let groupOffset ← intBehindColon digit line
    return { s with groupOffset := some groupOffset }
  else if tensorNameMarker <+: line then
    return { s with currentName := some (String.ofList (strip (behindColon line))), currentOffset := none }
  else
    match s.currentName with
    | none => return s
    | some name =>
      if offsetMarker <+: line then do
        let currentOffset ← intBehindColon digit line
        return { s with currentOffset := some currentOffset }
      else if sizeMarker <+: line then
        match s.groupOffset, s.currentOffset with
        | some groupOffset, some currentOffset =>
          if name ∈ s.offsets.keys then throw (.valueError s!"Duplicate tensor {name} in {path}")
          else do
            let size ← intBehindColon digit line
            return { s with
              offsets := s.offsets.set name (groupOffset + currentOffset, size)
              currentName := none
              currentOffset := none }
        | _, _ => throw (.valueError s!"Malformed tensor entry for {name} in {path}")
      else return s

/-- The position and the size of each tensor. -/
def parseGroupIndex (path : String) (text : List Char) : Except IndexError (Dict String (Int × Int)) := do
  let s ← (splitlines (universalNewlines text)).foldlM (PositionVars.readLine digit path) ⟨.empty, none, none, none⟩
  if s.offsets.entries.isEmpty then throw (.valueError s!"No tensor entries found in {path}") else return s.offsets

/-- The variables of the loop of `read_tensor_groups`. -/
structure GroupVars where
  groups : List Simulator.EndToEnd.TensorGroup
  currentSize : Option Nat
  currentFingerprint : Option String

/-- A round of the loop. -/
def GroupVars.readLine (s : GroupVars) (line : List Char) : GroupVars :=
  match search groupSizeMarker (matchDigits digit) line with
  | some (size, _) => { s with currentSize := some size }
  | none =>
    match search fingerprintMarker matchWord line with
    | none => s
    | some fingerprint =>
      match s.currentSize with
      | none => { s with currentFingerprint := some (String.ofList fingerprint) }
      | some size => ⟨s.groups ++ [⟨String.ofList fingerprint, size⟩], none, none⟩

/-- `read_tensor_groups`, with the text of the index if there is one, and what `model_file_size` finds. -/
def readTensorGroups (modelPath : String) (modelFileSize : Nat) : Option (List Char) → List Simulator.EndToEnd.TensorGroup
  | none => [⟨s!"model:{modelPath}", modelFileSize⟩]
  | some text =>
    let s := (fileLines (universalNewlines text)).foldl (GroupVars.readLine digit) ⟨[], none, none⟩
    if s.groups.isEmpty then [⟨s!"model:{modelPath}", modelFileSize⟩] else s.groups

/-- The number that `^Group Size:\s*(\d+)\s*$` finds in a line. -/
def groupSizeOfLine (line : List Char) : Option Nat :=
  if groupSizeMarker <+: line then
    match matchDigits digit (line.drop groupSizeMarker.length) with
    | some (size, rest) => if rest.all PythonText.isSpace then some size else none
    | none => none
  else none

def tensorGroupBytes (indexPath : String) (text : List Char) : Except IndexError (List Nat) :=
  let sizes := (fileLines (universalNewlines text)).filterMap (groupSizeOfLine digit)
  if sizes.isEmpty then throw (.valueError s!"no tensor groups found in {indexPath}") else return sizes

end ServerlessLLM
