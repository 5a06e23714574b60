import ServerlessLLM.Checkpoint.IndexReaders
import ServerlessLLM.Vmm.Registered

/-!
# The adapter of a checkpoint

`create` makes an index and the metas of the tensors from the headers of safetensors shards, which are left as they are.
-/

namespace ServerlessLLM.Vmm

/-- What the header says of a tensor. -/
structure ShardTensor where
  dtype : String
  shape : List Nat
  dataBegin : Nat
  dataEnd : Nat
  begin_le : dataBegin ≤ dataEnd

/-- The number of bytes. -/
def ShardTensor.size (t : ShardTensor) : Nat := t.dataEnd - t.dataBegin

/-- The dict of a header, in its order. A value that is not about a tensor, such as `__metadata__`, is `none`. -/
abbrev ShardHeader := List (String × Option ShardTensor)

def safetensorsDtypes : List (String × String) :=
  [("BOOL", "torch.bool"), ("U8", "torch.uint8"), ("I8", "torch.int8"), ("I16", "torch.int16"), ("I32", "torch.int32"),
    ("I64", "torch.int64"), ("F16", "torch.float16"), ("BF16", "torch.bfloat16"), ("F32", "torch.float32"),
      ("F64", "torch.float64")]

/-- The loop goes from the last dimension to the first. -/
def contiguousStride (shape : List Nat) : List Nat :=
  (shape.foldr (fun n (s : List Nat × Nat) => (s.2 :: s.1, s.2 * n)) ([], 1)).1

/-- What `create` raises: a `ValueError`, a `KeyError` for a field that is not there, or the error of a header that is none. -/
inductive AdapterError where
  | valueError (message : String)
  | keyError
  | headerError
deriving DecidableEq

-- `json.loads` on the bytes of a header
variable (loads : List UInt8 → Option ShardHeader)

def headerSize (p : Partition) : Nat := Words.leValue (Bytes.read p.bytes 0 8)

/-- The header of a shard. `read` stops at the end of the file. -/
def shardHeader (p : Partition) : Except AdapterError ShardHeader :=
  if p.size < 8 then .error .headerError
  else
    match loads (Bytes.read p.bytes 8 (min (headerSize p) (p.size - 8))) with
    | some header => .ok header
    | none => .error .headerError

/-- The variables of the loop of `create`. -/
structure AdapterVars where
  tensorMeta : Dict String (List Nat × List Nat × String)
  groups : List AdapterGroup
  partitionBase : Nat

/-- A round of the inner loop, over the header of a shard. -/
def AdapterVars.addTensor (payloadBase : Nat) (s : AdapterVars) (e : String × Option ShardTensor) :
    Except AdapterError AdapterVars :=
  if e.1 = "__metadata__" then .ok s
  else
    match e.2 with
    | none => .error .keyError
    | some t =>
      match safetensorsDtypes.lookup t.dtype with
      | none => .error (.valueError ("Unsupported safetensors dtype " ++ t.dtype ++ " for " ++ e.1))
      | some dtype =>
        .ok { s with
          tensorMeta := s.tensorMeta.set e.1 (t.shape, contiguousStride t.shape, dtype)
          groups := s.groups ++ [⟨payloadBase + t.dataBegin, t.size, e.1⟩] }

/-- A round of the loop over the shards. -/
def AdapterVars.addShard (s : AdapterVars) (p : Partition) : Except AdapterError AdapterVars := do
  let header ← shardHeader loads p
  let s' ← header.foldlM (AdapterVars.addTensor (s.partitionBase + 8 + headerSize p)) s
  return { s' with partitionBase := s.partitionBase + p.size }

/-- `create` for the shards in the order of their names: what goes to `tensor_meta_index.json` and to the index. -/
def createAdapter (modelPath : String) (shards : List Partition) :
    Except AdapterError (Dict String (List Nat × List Nat × String) × List AdapterGroup) := do
  if shards = [] then throw (.valueError ("VMM mode requires Hugging Face safetensors at " ++ modelPath))
  let s ← shards.foldlM (AdapterVars.addShard loads) ⟨.empty, [], 0⟩
  return (s.tensorMeta, s.groups)

end ServerlessLLM.Vmm
