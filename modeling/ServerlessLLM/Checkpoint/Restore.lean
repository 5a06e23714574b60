import ServerlessLLM.Checkpoint.GroupIndex
import ServerlessLLM.Checkpoint.Placement

/-!
# Saving and restoring a state dict

`save_dict` writes the storages of the tensors of a state dict and an index with the offset, the size, the shape, the strides
and the dtype of each. `load_dict_non_blocking` plans the memory of the devices from the index, has the store copy the planned
chunks there, and makes tensors of that memory with `RestoreTensors`.
-/

namespace ServerlessLLM

open Bytes

/-- The dtypes of tensors. -/
inductive DType where
  | float16 | float32 | float64 | bfloat16
  | int8 | int16 | int32 | int64
  | uint8 | uint16 | uint32 | uint64
  | bool
  | complex32 | complex64 | complex128
  | float8E4m3fn | float8E5m2
deriving DecidableEq, Repr

namespace DType

/-- `str(dtype)`. -/
def str : DType → String
  | float16 => "torch.float16"
  | float32 => "torch.float32"
  | float64 => "torch.float64"
  | bfloat16 => "torch.bfloat16"
  | int8 => "torch.int8"
  | int16 => "torch.int16"
  | int32 => "torch.int32"
  | int64 => "torch.int64"
  | uint8 => "torch.uint8"
  | uint16 => "torch.uint16"
  | uint32 => "torch.uint32"
  | uint64 => "torch.uint64"
  | bool => "torch.bool"
  | complex32 => "torch.complex32"
  | complex64 => "torch.complex64"
  | complex128 => "torch.complex128"
  | float8E4m3fn => "torch.float8_e4m3fn"
  | float8E5m2 => "torch.float8_e5m2"

/-- The bytes of an element. -/
def itemsize : DType → Nat
  | int8 | uint8 | bool | float8E4m3fn | float8E5m2 => 1
  | float16 | bfloat16 | int16 | uint16 => 2
  | float32 | int32 | uint32 | complex32 => 4
  | float64 | int64 | uint64 | complex64 => 8
  | complex128 => 16

/-- The keys and the values of `dtype_map`. -/
def dtypeMap : List (String × DType) :=
  [("torch.float16", float16), ("torch.float32", float32), ("torch.float64", float64), ("torch.int16", int16),
    ("torch.int32", int32), ("torch.int64", int64), ("torch.uint8", uint8), ("torch.int8", int8),
    ("torch.bfloat16", bfloat16)]

/-- The dtypes that `stringToScalarType` knows. -/
def Known (t : DType) : Prop := t ∈ dtypeMap.map Prod.snd

instance (t : DType) : Decidable t.Known := inferInstanceAs (Decidable (_ ∈ _))

end DType

def stringToScalarType (dtypeStr : String) : Except String DType :=
  match DType.dtypeMap.lookup dtypeStr with
  | some t => .ok t
  | none => .error ("Unknown dtype string: " ++ dtypeStr)

def indices : List Nat → List (List Nat)
  | [] => [[]]
  | n :: shape => (List.range n).flatMap fun i => (indices shape).map (i :: ·)

/-- How many elements an index is from the first one. -/
def elementOffset (stride index : List Nat) : Nat := (List.zipWith (· * ·) stride index).sum

/-- A value of a state dict: a strided view of a storage, which is at `dataPtr` and has `size` bytes. -/
structure TensorView where
  name : String
  dataPtr : Nat
  size : Nat
  storageOffset : Nat
  shape : List Nat
  stride : List Nat
  dtype : DType
deriving DecidableEq

namespace TensorView

/-- The entry of the view, as far as its storage goes. -/
def param (v : TensorView) : Param := ⟨v.name, v.dataPtr, v.size⟩

def elementAddr (v : TensorView) (index : List Nat) : Nat :=
  v.dataPtr + v.dtype.itemsize * (v.storageOffset + elementOffset v.stride index)

def Inside (v : TensorView) : Prop :=
  ∀ index ∈ indices v.shape,
    v.dtype.itemsize * (v.storageOffset + elementOffset v.stride index) + v.dtype.itemsize ≤ v.size

instance (v : TensorView) : Decidable v.Inside := inferInstanceAs (Decidable (∀ index ∈ indices v.shape, _ ≤ _))

end TensorView

/-- A state dict of views, in its order. Views may share a storage, which then is at one address and has one size. -/
structure ViewDict where
  views : List TensorView
  names_nodup : (views.map TensorView.name).Nodup
  oneSize : ∀ v ∈ views, ∀ w ∈ views, v.dataPtr = w.dataPtr → v.size = w.size
  inside : ∀ v ∈ views, v.Inside

def ViewDict.toStateDict (sd : ViewDict) : StateDict where
  params := sd.views.map TensorView.param
  names_nodup := by
    rw [List.map_map]
    exact sd.names_nodup
  oneSize := by
    intro p hp q hq hptr
    obtain ⟨v, hv, rfl⟩ := List.mem_map.1 hp
    obtain ⟨w, hw, rfl⟩ := List.mem_map.1 hq
    exact sd.oneSize v hv w hw hptr

/-- The value of a key of `tensor_index.json`. -/
structure IndexEntry where
  offset : Nat
  size : Nat
  shape : List Nat
  stride : List Nat
  dtype : String
deriving DecidableEq

/-- `tensor_index`, made from the offsets that `save_tensors` returned. -/
def tensorIndexOf (sd : ViewDict) (tensorOffsets : String → Option Nat) : Dict String IndexEntry where
  entries := sd.views.map fun v => (v.name, ⟨(tensorOffsets v.name).getD 0, v.size, v.shape, v.stride, v.dtype.str⟩)
  nodup := by
    rw [List.map_map]
    exact sd.names_nodup

/-- `save_dict` to a directory, which is used as it is when it exists: the index and the directory. -/
def saveDict (K : WriterSizes) (os : Os) (mem : Nat → UInt8) (sd : ViewDict) (d : Disk) : Dict String IndexEntry × Disk :=
  let (tensorOffsets, d) := saveTensors K os mem sd.toStateDict.tensorDataIndex sd.toStateDict.names d
  (tensorIndexOf sd tensorOffsets, d)

/-- `tensor_data_index`. -/
def dataIndexOf (tensorIndex : Dict String IndexEntry) : TensorDataIndex := tensorIndex.mapValues fun _ e => (e.offset, e.size)

/-- `tensor_meta_index`. -/
def metaIndexOf (tensorIndex : Dict String IndexEntry) : Dict String (List Nat × List Nat × String) :=
  tensorIndex.mapValues fun _ e => (e.shape, e.stride, e.dtype)

/-- A tensor that `from_blob` made of device memory. -/
structure BlobTensor where
  device : Nat
  addr : Nat
  sizes : List Nat
  strides : List Nat
  dtype : DType
  /-- Whether the memory is freed with the tensor. -/
  freesMemory : Bool
deriving DecidableEq

def BlobTensor.elementAddr (t : BlobTensor) (index : List Nat) : Nat :=
  t.addr + t.dtype.itemsize * elementOffset t.strides index

/-- A round of the inner loop of `RestoreTensors`, for a tensor of a device. The state has the tensors and `handled_memory`. -/
def restoreStep (metaStateDict : Dict String (List Nat × List Nat × String)) (memoryBaseAddress : Dict Nat Nat)
    (s : Dict String BlobTensor × List Nat) (item : Nat × String × Nat) :
    Except String (Dict String BlobTensor × List Nat) :=
  let (stateDict, handledMemory) := s
  let (device, name, tensorOffset) := item
  match memoryBaseAddress.get? device with
  | none => .error s!"Cannot find device {device}"
  | some baseAddress =>
    match metaStateDict.get? name with
    | none => .error "out_of_range"
    | some (sizes, strides, typeStr) => do
      let dtype ← stringToScalarType typeStr
      if tensorOffset = 0 ∧ baseAddress ∉ handledMemory then
        return (stateDict.set name ⟨device, baseAddress + tensorOffset, sizes, strides, dtype, true⟩,
          baseAddress :: handledMemory)
      else
        return (stateDict.set name ⟨device, baseAddress + tensorOffset, sizes, strides, dtype, false⟩, handledMemory)

/-- The tensors of `tensor_device_offsets`, device by device. -/
def restoreItems (tensorDeviceOffsets : Dict Nat (Dict String Nat)) : List (Nat × String × Nat) :=
  tensorDeviceOffsets.entries.flatMap fun d => d.2.entries.map fun e => (d.1, e.1, e.2)

def restoreTensors (metaStateDict : Dict String (List Nat × List Nat × String)) (memoryBaseAddress : Dict Nat Nat)
    (tensorDeviceOffsets : Dict Nat (Dict String Nat)) : Except String (Dict String BlobTensor) := do
  let s ← (restoreItems tensorDeviceOffsets).foldlM (restoreStep metaStateDict memoryBaseAddress) (.empty, [])
  return s.1

/-- The chunks of a device are copied from the data of the files to the memory that starts at `base`. -/
def copyChunks (data : List UInt8) (base : Nat) (chunks : List CopyChunk) (gpu : Nat → UInt8) : Nat → UInt8 :=
  chunks.foldl (fun gpu c => copyIn gpu (base + c.dstOffset) ((data.drop c.srcOffset).take c.size)) gpu

/-- `load_dict_non_blocking`, with the memory that was allocated on each device at `cudaMemoryPtr` and the index and the data
of the files. Returns the tensors, and what the devices hold. -/
def loadDict (cudaMemoryPtr : Nat → Nat) (gpu : Nat → Nat → UInt8) (tensorIndex : Dict String IndexEntry) (data : List UInt8)
    (expandedDeviceMap : DeviceMap) : Except String (Dict String BlobTensor × (Nat → Nat → UInt8)) := do
  let deviceMemory ← calculateDeviceMemory expandedDeviceMap (dataIndexOf tensorIndex)
  let (tensorDeviceOffsets, tensorCopyChunks) ← calculateTensorDeviceOffsets expandedDeviceMap (dataIndexOf tensorIndex)
  let cudaMemoryPtrs := deviceMemory.mapValues fun device _ => cudaMemoryPtr device
  let stateDict ← restoreTensors (metaIndexOf tensorIndex) cudaMemoryPtrs tensorDeviceOffsets
  return (stateDict, fun device =>
    copyChunks data (cudaMemoryPtr device) ((tensorCopyChunks.get? device).getD []) (gpu device))

/-! ## The response of `LoadModel` -/

section

open Text Words List

/-- Two digits for every byte. -/
def toHex (data : List UInt8) : List Char := data.flatMap fun byte => (Nat.toDigits 16 byte.toNat).leftpad 2 '0'

/-- The string that `LoadModel` returns for a response. -/
def encodeResponse (response : List Nat) : List Char := toHex (response.flatMap (leBytes 8))

/-- `std::stoi` with base 16. -/
def stoi16 (text : List Char) : Except String Int :=
  let (negative, rest) := Stream.sign (text.dropWhile isSpace)
  let digits := rest.takeWhile isHexDigit
  let value := digits.foldl (fun value c => 16 * value + hexValue c) 0
  if digits = [] then .error "stoi" else .ok (if negative then -value else value)

def fromHex : List Char → Except String (List UInt8)
  | [] => .ok []
  | [c] => do
    let byte ← stoi16 [c]
    return [UInt8.ofInt byte]
  | c :: d :: hexStr => do
    let byte ← stoi16 [c, d]
    let data ← fromHex hexStr
    return UInt8.ofInt byte :: data

/-- What `RestorePtrsFromStore` does. -/
inductive RestoredPtrs where
  /-- An exception of `stoi`. -/
  | threw (what : String)
  /-- `exit(1)`, when there are not as many offsets as names. -/
  | exited
  | done (devicePtr : Dict Nat Nat) (tensorOffsets : Dict Nat (Dict String Nat))

/-- `RestorePtrsFromStore`, with the global variables `global_device_id` and `gpu_memory_ptr`. -/
def restorePtrsFromStore (globalDeviceId : Nat) (gpuMemoryPtr : Option Nat) (encodedRef : List Char)
    (tensorNames : List String) : RestoredPtrs :=
  match fromHex encodedRef with
  | .error what => .threw what
  | .ok serializedData =>
    let recoveredOffsets := words 8 serializedData
    if recoveredOffsets.length ≠ tensorNames.length then .exited
    else
      match gpuMemoryPtr with
      | none => .done .empty .empty
      | some ptr =>
        let offsets := (tensorNames.zip recoveredOffsets).foldl (fun o e => o.set e.1 e.2) Dict.empty
        .done (Dict.empty.set globalDeviceId ptr) (Dict.empty.set globalDeviceId offsets)

end

end ServerlessLLM
