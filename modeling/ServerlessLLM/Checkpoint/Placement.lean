import Mathlib.Algebra.Ring.Int.Defs
import Mathlib.Algebra.Order.Group.Unbundled.Int
import ServerlessLLM.Library.Dict

/-!
# The placement of tensors on devices

`calculate_device_memory` and `calculate_tensor_device_offsets` of `utils.py`: two passes over a device map. Both lay the
tensors of a device out one behind the other, and both leave out a tensor whose `(offset, size)` they have seen.

The functions of `device_map_utils.py`: `_expand_tensor_name` gives the tensors the devices of their modules, and
`_compute_device_placement_from_map_fast` computes a device map from the sizes of the modules. The devices of a computed map are
numbered from 0, and `maxMemory` is what `get_max_memory` says of them, without the entry of the CPU.
-/

namespace ServerlessLLM

/-- `tensor_index`: the offset and the size of the data of each tensor. -/
abbrev TensorDataIndex := Dict String (Nat × Nat)

abbrev DeviceMap := Dict String Nat

/-- A copy that the store is asked for, as a tuple of `tensor_copy_chunks`. -/
structure CopyChunk where
  srcOffset : Nat
  size : Nat
  dstOffset : Nat
  handleIdx : Nat
deriving DecidableEq, Repr

/-- What the `ValueError` of both functions says. -/
def notFound (tensorName : String) : String := s!"Tensor {tensorName} not found in tensor_index."

/-- The variables of the loop of `calculate_device_memory`. -/
structure MemoryVars where
  deviceMemory : Dict Nat Nat
  tensorRecord : Dict (Nat × Nat) Bool

/-- A round of the loop. -/
def memoryStep (tensorIndex : TensorDataIndex) (s : MemoryVars) (entry : String × Nat) : Except String MemoryVars :=
  let (tensorName, device) := entry
  match tensorIndex.get? tensorName with
  | none => .error (notFound tensorName)
  | some (offset, size) =>
    let deviceMemory := if device ∈ s.deviceMemory.keys then s.deviceMemory else s.deviceMemory.set device 0
    -- a tensor that was counted before is skipped
    if (offset, size) ∈ s.tensorRecord.keys then .ok ⟨deviceMemory, s.tensorRecord⟩
    else .ok ⟨deviceMemory.set device ((deviceMemory.get? device).getD 0 + size), s.tensorRecord.set (offset, size) true⟩

/-- The bytes that each device has to hold. -/
def calculateDeviceMemory (deviceMap : DeviceMap) (tensorIndex : TensorDataIndex) : Except String (Dict Nat Nat) := do
  let s ← deviceMap.entries.foldlM (memoryStep tensorIndex) ⟨.empty, .empty⟩
  return s.deviceMemory

/-- The variables of the loop of `calculate_tensor_device_offsets`. -/
structure OffsetVars where
  tensorDeviceOffsets : Dict Nat (Dict String Nat)
  tensorCopyChunks : Dict Nat (List CopyChunk)
  deviceOffset : Dict Nat Nat
  tensorRecord : Dict (Nat × Nat) Nat

/-- The first lines of a round: a device that comes for the first time starts empty. -/
def OffsetVars.openDevice (s : OffsetVars) (device : Nat) : OffsetVars :=
  if device ∈ s.tensorDeviceOffsets.keys then s
  else
    { s with
      tensorDeviceOffsets := s.tensorDeviceOffsets.set device .empty
      tensorCopyChunks := s.tensorCopyChunks.set device []
      deviceOffset := s.deviceOffset.set device 0 }

/-- `tensor_device_offsets[device][tensor_name] = offset`. -/
def OffsetVars.setOffset (s : OffsetVars) (device : Nat) (tensorName : String) (offset : Nat) : OffsetVars :=
  { s with
    tensorDeviceOffsets := s.tensorDeviceOffsets.set device
      (((s.tensorDeviceOffsets.get? device).getD .empty).set tensorName offset) }

/-- A round of the loop. -/
def offsetStep (tensorIndex : TensorDataIndex) (s : OffsetVars) (entry : String × Nat) : Except String OffsetVars :=
  let (tensorName, device) := entry
  let s := s.openDevice device
  match tensorIndex.get? tensorName with
  | none => .error (notFound tensorName)
  | some (offset, size) =>
    match s.tensorRecord.get? (offset, size) with
    | some recorded => .ok (s.setOffset device tensorName recorded)
    | none =>
      let here := (s.deviceOffset.get? device).getD 0
      .ok { s.setOffset device tensorName here with
        tensorRecord := s.tensorRecord.set (offset, size) here
        tensorCopyChunks := s.tensorCopyChunks.set device
          ((s.tensorCopyChunks.get? device).getD [] ++ [⟨offset, size, here, 0⟩])
        deviceOffset := s.deviceOffset.set device (here + size) }

/-- Where the tensors are on their devices, and what has to be copied there. -/
def calculateTensorDeviceOffsets (deviceMap : DeviceMap) (tensorIndex : TensorDataIndex) :
    Except String (Dict Nat (Dict String Nat) × Dict Nat (List CopyChunk)) := do
  let s ← deviceMap.entries.foldlM (offsetStep tensorIndex) ⟨.empty, .empty, .empty, .empty⟩
  return (s.tensorDeviceOffsets, s.tensorCopyChunks)

/-! ## The expansion of a device map -/

section Expand

variable {δ : Type}

/-- What `_expand_tensor_name` raises: "Device map {device_map} is invalid. If you want to specify the default device, use key
''." -/
structure InvalidDeviceMap (δ : Type) where
  deviceMap : Dict String δ

/-- The loop over the names for an entry: `if name.startswith(tensor_or_module): expanded_device_map[name] = device_id`. -/
def expandEntry (tensorNames : List String) (expanded : Dict String δ) (entry : String × δ) : Dict String δ :=
  tensorNames.foldl
    (fun expanded name => if entry.1.toList <+: name.toList then expanded.set name entry.2 else expanded) expanded

/-- The loop over the entries. -/
def expandLoop (tensorNames : List String) : List (String × δ) → Dict String δ → Dict String δ
  | [], expanded => expanded
  | (tensorOrModule, deviceId) :: rest, expanded =>
    if tensorOrModule = "" then tensorNames.foldl (fun all k => all.set k deviceId) .empty
    else expandLoop tensorNames rest (expandEntry tensorNames expanded (tensorOrModule, deviceId))

def expandTensorName (deviceMap : Dict String δ) (tensorNames : List String) : Except (InvalidDeviceMap δ) (Dict String δ) :=
  if "" ∈ deviceMap.keys ∧ deviceMap.entries.length ≠ 1 then .error ⟨deviceMap⟩
  else .ok (expandLoop tensorNames deviceMap.entries .empty)

end Expand

/-! ## The placement of the modules -/

/-- What the computation of a device map raises. -/
inductive PlacementError where
  | valueError (text : String)
  | runtimeError (text : String)
  | stopIteration
  | assertionError
  | keyError
  | notImplementedError
deriving DecidableEq, Repr

/-- The sizes of the modules, in their order. -/
abbrev ModuleSizes := Dict String Int

/-- The names of a group of tied modules, with the size of what they share. -/
abbrev TiedGroup := List String × Int

def mergeTied (noSplitModules : ModuleSizes) (tied : TiedGroup) : ModuleSizes :=
  match noSplitModules.keys.find? fun module => module ∈ tied.1 with
  | none => noSplitModules
  | some module =>
    let others := noSplitModules.keys.filter fun m => m ∈ tied.1 ∧ m ≠ module
    let (tiedSize, merged) := others.foldl
      (fun (tiedSize, modules) m => (tiedSize + ((modules.get? m).getD 0 - tied.2), modules.erase m))
      ((noSplitModules.get? module).getD 0, noSplitModules)
    merged.set module tiedSize

/-- The devices that are left when the last one is dropped for as long as the first module does not fit the first device. The
iterator of an empty dictionary raises. -/
def dropDevices (first : Option Int) (maxMemory : List Int) : Nat → Except PlacementError (List Int)
  | 0 => .error .stopIteration
  | left + 1 =>
    match first, maxMemory.head? with
    | some size, some memory => if size > memory then dropDevices first maxMemory left else .ok (maxMemory.take (left + 1))
    | _, _ => .error .stopIteration

/-- A cell of the table of `_get_balanced_placement`. What is infinite is `none`. -/
structure BalanceCell where
  gap : Option Int
  minSize : Option Int
  maxSize : Int
  partitions : List (List String)
deriving DecidableEq, Repr

/-- A cell that was not reached. -/
def BalanceCell.unreached : BalanceCell := ⟨none, none, 0, []⟩

/-- The gap when a part is put behind those of a cell. -/
def BalanceCell.maxGap (cell : BalanceCell) (currentSize : Int) : Int :=
  match cell.minSize with
  | none => 0
  | some minSize => max |minSize - currentSize| |cell.maxSize - currentSize|

/-- The cell with one part more, that of device `k`. -/
def BalanceCell.extend (cell : BalanceCell) (k : Nat) (currentPartition : List String) (currentSize : Int) : BalanceCell where
  gap := some (cell.maxGap currentSize)
  minSize := some (match cell.minSize with
    | none => currentSize
    | some minSize => min minSize currentSize)
  maxSize := max cell.maxSize currentSize
  partitions := cell.partitions.set k currentPartition

/-- `sum([module_size[module] for module in partition])`. -/
def partitionSize (moduleSize : ModuleSizes) (partition : List String) : Int :=
  (partition.map fun module => (moduleSize.get? module).getD 0).sum

/-- A round of the loop over `j`: the modules from `j` to `i` are the part of device `k`, behind the parts of cell `before`. -/
def balanceStep (moduleSize : ModuleSizes) (memory : Int) (i k j : Nat) (before cell : BalanceCell) : BalanceCell :=
  let currentPartition := (moduleSize.keys.take i).drop j
  let currentSize := partitionSize moduleSize currentPartition
  if currentSize > memory then cell
  else
    match before.gap with
    | none => cell
    | some _ =>
      let next := before.extend k currentPartition currentSize
      match cell.gap with
      | none => next
      | some gap => if before.maxGap currentSize < gap then next else cell

/-- The cells of row `i`, from the rows before it. -/
def balanceRow (moduleSize : ModuleSizes) (deviceMemory : List Int) (rows : List (List BalanceCell)) : List BalanceCell :=
  let i := rows.length
  .unreached :: deviceMemory.mapIdx fun k memory =>
    (List.range i).foldl
      (fun cell j => balanceStep moduleSize memory i k j ((rows.getD j []).getD k .unreached) cell) .unreached

/-- The rows of the table up to `i`. -/
def balanceTable (moduleSize : ModuleSizes) (deviceMemory : List Int) : Nat → List (List BalanceCell)
  | 0 => [⟨some 0, none, 0, List.replicate deviceMemory.length []⟩ :: List.replicate deviceMemory.length .unreached]
  | i + 1 =>
    let rows := balanceTable moduleSize deviceMemory i
    rows ++ [balanceRow moduleSize deviceMemory rows]

def partitionsMap (partitions : List (List String)) : DeviceMap :=
  partitions.zipIdx.foldl (fun map (partition, i) => partition.foldl (fun map module => map.set module i) map) .empty

def getBalancedPlacement (moduleSize : ModuleSizes) (deviceMemory : List Int) : Except PlacementError (Option DeviceMap) :=
  let length := moduleSize.keys.length
  let n := deviceMemory.length
  if ¬(length > 0 ∧ length ≥ n) then .error .assertionError
  else if n ≤ 0 ∨ length = 0 then .ok none
  else
    let result := ((balanceTable moduleSize deviceMemory length).getD length []).getD n .unreached
    .ok (some (partitionsMap result.partitions))

/-- The loop over the devices from the current one: the first that has room for a module of this size. -/
def nextDevice (deviceMemory : List Int) (size : Int) (currentDevice : Nat) : Nat :=
  currentDevice + ((deviceMemory.drop currentDevice).takeWhile fun memory => size > memory).length

/-- The loop of `_get_sequential_placement`. -/
def sequentialLoop (deviceMemory : List Int) : List (String × Int) → Nat → DeviceMap → Except PlacementError DeviceMap
  | [], _, resultDeviceMap => .ok resultDeviceMap
  | (module, size) :: rest, currentDevice, resultDeviceMap =>
    let currentDevice := nextDevice deviceMemory size currentDevice
    match deviceMemory[currentDevice]? with
    | none => .error .keyError
    | some memory =>
      if size ≤ memory then sequentialLoop deviceMemory rest currentDevice (resultDeviceMap.set module currentDevice)
      else .error (.runtimeError s!"Module {module} is too large for device {currentDevice}, memory {memory}")

def getSequentialPlacement (moduleSize : ModuleSizes) (deviceMemory : List Int) : Except PlacementError (Option DeviceMap) := do
  let length := moduleSize.keys.length
  let n := deviceMemory.length
  if ¬(length > 0 ∧ length ≥ n) then .error .assertionError
  else if n ≤ 0 ∨ length = 0 then .ok none
  else
    let resultDeviceMap ← sequentialLoop deviceMemory moduleSize.entries 0 .empty
    return some resultDeviceMap

def tieTo {δ : Type} (tiedGroups : List String) (placement : Dict String δ) (module : String) : Dict String δ :=
  if module ∈ tiedGroups then
    tiedGroups.foldl (fun placement m =>
      if m ≠ module then
        match placement.get? module with
        | none => placement
        | some device => placement.set m device
      else placement) placement
  else placement

/-- The modules of a group are put on one device. -/
def reassignTied {δ : Type} (placement : Dict String δ) (tied : TiedGroup) : Dict String δ :=
  placement.keys.foldl (tieTo tied.1) placement

/-- A device map as it is passed: by the name of a strategy, or as it is. -/
inductive DeviceMapArgument where
  | named (deviceMap : String)
  | given (deviceMap : DeviceMap)

def computeDevicePlacementFromMapFast (maxMemory : List Int) (noSplitModules : ModuleSizes) (tiedModules : List TiedGroup) :
    DeviceMapArgument → Except PlacementError DeviceMap
  | .given deviceMap => .ok deviceMap
  | .named deviceMap =>
    if deviceMap ∉ ["auto", "balanced", "balanced_low_0", "sequential"] then
      .error (.valueError ("If passing a string for `device_map`, please choose 'auto', 'balanced', 'balanced_low_0' or " ++
        "'sequential'."))
    else do
      let noSplitModules := tiedModules.foldl mergeTied noSplitModules
      let maxMemory ← dropDevices (noSplitModules.entries.head?.map Prod.snd) maxMemory maxMemory.length
      if (noSplitModules.entries.map Prod.snd).sum > maxMemory.sum then
        .error (.runtimeError "The total size of the model is greater than the maximum memory available.")
      else
        let placement ←
          if deviceMap = "auto" ∨ deviceMap = "balanced" then getBalancedPlacement noSplitModules maxMemory
          else if deviceMap = "balanced_low_0" then .error .notImplementedError
          else getSequentialPlacement noSplitModules maxMemory
        match placement with
        | none => .error (.runtimeError "Failed to find a valid placement for the model.")
        | some placement => .ok (tiedModules.foldl reassignTied placement)

end ServerlessLLM
