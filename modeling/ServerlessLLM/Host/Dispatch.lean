import ServerlessLLM.Checkpoint.Placement
import ServerlessLLM.Library.Bytes

/-!
# From the host memory to the devices

`DispatchToGpu` cuts the copy requests at the chunks of the host memory and sorts the pieces by chunk. As the chunks become
available it puts their pieces into the queues of the devices, and a batch of no bytes at the end of each queue. A consumer for
each device takes the batches out in this order and copies them, up to the first one of no bytes.
-/

namespace ServerlessLLM

/-- A request to copy bytes of the host memory to a place behind a handle of the device. -/
structure MemCopyChunk where
  srcOffset : Nat
  size : Nat
  dstOffset : Nat
  handleIdx : Nat
deriving DecidableEq

structure MemCopyHandle where
  cudaIpcHandle : String

/-- A chunk that is in the host memory. -/
structure Batch where
  chunkId : Nat
  size : Nat
deriving DecidableEq

/-- The piece of a request that lies in a chunk. -/
structure GpuChunk where
  deviceId : Int
  chunkOffset : Nat
  size : Nat
  gpuOffset : Nat
  handleIdx : Nat
deriving DecidableEq

/-- What a consumer has to copy. -/
structure GpuBatch where
  chunkId : Nat := 0
  chunkOffset : Nat := 0
  size : Nat := 0
  gpuOffset : Nat := 0
  handleIdx : Nat := 0
deriving DecidableEq

/-- `GpuBatch{}`, at the end of loading. -/
def GpuBatch.empty : GpuBatch := {}

/-- What stops `DispatchToGpu` when its arguments do not fit together. -/
inductive DispatchError where
  /-- `at` has no such key. -/
  | outOfRange
  /-- A vector has no such index. -/
  | undefined
deriving DecidableEq

section

-- the number of chunks is an `int` (`PinnedMemoryPool::Allocate`), and so is the number of a chunk
variable {chunkSize : Nat}

/-- The size of the piece in a chunk. The first chunk has no more than what comes behind the offset. -/
def chunkDataSize (chunkSize offset chunkId remainingData : Nat) : Nat :=
  if chunkId = offset / chunkSize then min (chunkSize - offset % chunkSize) remainingData else min chunkSize remainingData

theorem chunkDataSize_pos (hpos : 0 < chunkSize) (offset chunkId : Nat) {remainingData : Nat} (h : 0 < remainingData) :
    0 < chunkDataSize chunkSize offset chunkId remainingData := by
  have hmod := Nat.mod_lt offset hpos
  unfold chunkDataSize
  split
  · omega
  · omega

/-- The loop of `MapDataToChunks`, from a chunk on. -/
def mapLoop (hpos : 0 < chunkSize) (offset chunkId remainingData : Nat) : List (Nat × Nat × Nat) :=
  if _ : remainingData = 0 then []
  else
    (chunkId, if chunkId = offset / chunkSize then offset % chunkSize else 0,
      chunkDataSize chunkSize offset chunkId remainingData) ::
        mapLoop hpos offset (chunkId + 1) (remainingData - chunkDataSize chunkSize offset chunkId remainingData)
termination_by remainingData
decreasing_by
  have hstep := chunkDataSize_pos hpos offset chunkId (Nat.pos_of_ne_zero ‹_›)
  omega

/-- The chunk, the offset in it and the size of each piece. -/
def mapDataToChunks (hpos : 0 < chunkSize) (offset size : Nat) : List (Nat × Nat × Nat) :=
    mapLoop hpos offset (offset / chunkSize) size

/-- The variables of the first loop of `DispatchToGpu`. -/
structure DispatchVars where
  chunkIdToGpuChunks : List (List GpuChunk)
  handleOffsets : List Nat

/-- A piece goes to the pieces of its chunk, and moves the offset behind its handle. -/
def pushPiece (deviceId : Int) (handleIdx : Nat) (s : DispatchVars) (piece : Nat × Nat × Nat) :
    Except DispatchError DispatchVars :=
  match s.chunkIdToGpuChunks[piece.1]?, s.handleOffsets[handleIdx]? with
  | some gpuChunks, some gpuOffset =>
    .ok ⟨s.chunkIdToGpuChunks.set piece.1 (gpuChunks ++ [⟨deviceId, piece.2.1, piece.2.2, gpuOffset, handleIdx⟩]),
      s.handleOffsets.set handleIdx (gpuOffset + piece.2.2)⟩
  | _, _ => .error .undefined

def mapRequest (hpos : 0 < chunkSize) (deviceId : Int) (s : DispatchVars) (r : MemCopyChunk) :
    Except DispatchError DispatchVars :=
  if r.handleIdx < s.handleOffsets.length then
    (mapDataToChunks hpos r.srcOffset r.size).foldlM (pushPiece deviceId r.handleIdx)
      { s with handleOffsets := s.handleOffsets.set r.handleIdx r.dstOffset }
  else .error .undefined

def mapDevice (hpos : 0 < chunkSize) (memCopyHandles : Dict Int (List MemCopyHandle)) (chunks : List (List GpuChunk))
    (pair : Int × List MemCopyChunk) : Except DispatchError (List (List GpuChunk)) :=
  match memCopyHandles.get? pair.1 with
  | none => .error .outOfRange
  | some deviceHandles => do
    let s ← pair.2.foldlM (mapRequest hpos pair.1) ⟨chunks, List.replicate deviceHandles.length 0⟩
    return s.chunkIdToGpuChunks

def enqueuePiece (chunkId : Nat) (queues : Dict Int (List GpuBatch)) (c : GpuChunk) :
    Except DispatchError (Dict Int (List GpuBatch)) :=
  match queues.get? c.deviceId with
  | none => .error .outOfRange
  | some queue => .ok (queues.set c.deviceId (queue ++ [⟨chunkId, c.chunkOffset, c.size, c.gpuOffset, c.handleIdx⟩]))

/-- The pieces of a chunk that is available. -/
def enqueueChunk (chunks : List (List GpuChunk)) (queues : Dict Int (List GpuBatch)) (dataChunk : Batch) :
    Except DispatchError (Dict Int (List GpuBatch)) :=
  match chunks[dataChunk.chunkId]? with
  | none => .error .undefined
  | some gpuChunks => gpuChunks.foldlM (enqueuePiece dataChunk.chunkId) queues

/-- `DispatchToGpu`, when the host memory has so many chunks and they become available in the order of the vector. What it
returns are the queues, with all that was put into them. -/
def dispatchToGpu (hpos : 0 < chunkSize) (numChunks : Nat) (hostPtrVector : List Batch)
    (memCopyChunks : Dict Int (List MemCopyChunk)) (memCopyHandles : Dict Int (List MemCopyHandle))
      (gpuLoadingQueue : Dict Int (List GpuBatch)) :
    Except DispatchError (Dict Int (List GpuBatch)) := do
  let chunks ← memCopyChunks.entries.foldlM (mapDevice hpos memCopyHandles) (List.replicate numChunks [])
  let queues ← hostPtrVector.foldlM (enqueueChunk chunks) gpuLoadingQueue
  return queues.mapValues fun _ queue => queue ++ [GpuBatch.empty]

end

/-- The consumer of a device: the batches that it copies, up to the first one of no bytes. -/
def consume : List GpuBatch → List GpuBatch
  | [] => []
  | batch :: queue => if batch.size = 0 then [] else batch :: consume queue

/-- The `cudaMemcpy` of a batch. Every handle has a memory of its own. -/
def GpuBatch.copyTo (hostBuffers : List (List UInt8)) (memory : Nat → Nat → UInt8) (b : GpuBatch) : Nat → Nat → UInt8 :=
  Function.update memory b.handleIdx
    (Bytes.copyIn (memory b.handleIdx) b.gpuOffset (((hostBuffers.getD b.chunkId []).drop b.chunkOffset).take b.size))

/-- The consumer of a device, with its queue. -/
def copyQueue (hostBuffers : List (List UInt8)) (memory : Nat → Nat → UInt8) (queue : List GpuBatch) : Nat → Nat → UInt8 :=
  (consume queue).foldl (GpuBatch.copyTo hostBuffers) memory

/-- The message for a tuple of `tensor_copy_chunks`. -/
def CopyChunk.message (c : CopyChunk) : MemCopyChunk := ⟨c.srcOffset, c.size, c.dstOffset, c.handleIdx⟩

/-- `tensor_copy_chunks` as the client sends it and `LoadModelFromMem` converts it. Between them a device is its UUID, and
different devices have different ones. -/
def convertedMemCopyChunks {deviceId : Nat → Int} (hinj : Function.Injective deviceId)
    (tensorCopyChunks : Dict Nat (List CopyChunk)) :
    Dict Int (List MemCopyChunk) where
  entries := tensorCopyChunks.entries.map fun e => (deviceId e.1, e.2.map CopyChunk.message)
  nodup := by
    have hnd := tensorCopyChunks.nodup.map hinj
    rw [List.map_map] at hnd ⊢
    exact hnd

end ServerlessLLM
