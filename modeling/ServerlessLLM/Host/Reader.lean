import Mathlib.Algebra.GroupWithZero.Nat
import Mathlib.Data.Int.Notation
import ServerlessLLM.Host.Dispatch

/-!
# From the disk to the host memory

`Model::ToHost` reads the partitions of a model into the chunks of its pinned memory. Every thread reads the chunks of a range
of its own, one after the other: it finds the partition of its first byte, keeps the offset in the file, and goes on to the next
file when a read comes up short. A chunk that is read is put into `host_ptr_vector_`. Here a step of a thread is a read, an
entry into the vector, or a move between them, and the threads take their steps in any order.

`PinnedMemoryPool` has buffers of one size and the list of those that are free. A model takes the buffers for all its chunks
from it, and gives them back when its `PinnedMemory` is destroyed. Buffers are known by their addresses.
-/

namespace ServerlessLLM

/-- `MemoryState`, of a model in the host memory and of a replica on the devices. -/
inductive MemoryState where
  | uninitialized
  | unallocated
  | allocated
  | loading
  | loaded
  | cancelled
  | interrupted
deriving DecidableEq

/-- The value of a `size_t` in an `int`. -/
def toInt (n : Int) : Int := n.bmod (2 ^ 32)

/-- `PinnedMemoryPool`. The free list has the order in which it is iterated, which changes as buffers come and go. The buffers
are at least a page apart, and there are not more of them than an `int` can count. -/
structure PinnedMemoryPool where
  chunkSize : Nat
  pool : List Nat
  freeList : List Nat
  chunkSize_pos : 0 < chunkSize
  countable : pool.length < 2 ^ 31

namespace PinnedMemoryPool

/-- The number of buffers for so many bytes, which are a `size_t`. -/
def numBuffersNeeded (p : PinnedMemoryPool) (size : Nat) : Int :=
  toInt ((size + p.chunkSize - 1) % 2 ^ 64 / p.chunkSize : Nat)

/-- The return value, the buffers, and the pool. A negative number of buffers is a large `size_t`. -/
def allocate (p : PinnedMemoryPool) (size : Nat) : Int × List Nat × PinnedMemoryPool :=
  if size = 0 then (-1, [], p)
  else
    let needed := p.numBuffersNeeded size
    if needed < 0 ∨ (p.freeList.length : Int) < needed then (toInt (needed - p.freeList.length), [], p)
    else (0, p.freeList.take needed.toNat, { p with freeList := p.freeList.drop needed.toNat })

/-- It stops at a buffer that is not of the pool or is free already. -/
def deallocate (p : PinnedMemoryPool) : List Nat → Int × PinnedMemoryPool
  | [] => (0, p)
  | buffer :: buffers =>
    if buffer ∉ p.pool then (-1, p)
    else if buffer ∈ p.freeList then (-1, p)
    else deallocate { p with freeList := buffer :: p.freeList } buffers

end PinnedMemoryPool

/-- The items up to `size_`, and the keys that were used. -/
structure ConcurrentVector (α : Type) where
  capacity : Nat
  items : List α
  keys : List Nat

namespace ConcurrentVector

variable {α : Type}

/-- A new vector, after `init`. -/
def new (capacity : Nat) : ConcurrentVector α := ⟨capacity, [], []⟩

/-- A key is used only once. -/
def enqueue (v : ConcurrentVector α) (key : Nat) (item : α) : ConcurrentVector α :=
  if key ∈ v.keys then v else { v with items := v.items ++ [item], keys := v.keys ++ [key] }

end ConcurrentVector

/-- What the file has there, up to so many bytes. -/
def pread (file : List UInt8) (size offset : Nat) : List UInt8 := (file.drop offset).take size

def writeAt (buffer : List UInt8) (offset : Nat) (bytes : List UInt8) : List UInt8 :=
  buffer.take offset ++ bytes ++ buffer.drop (offset + bytes.length)

/-- The loop that finds the partition of an offset, and the offset in it. -/
def seek : List Nat → Nat → Nat × Nat
  | [], fileOffset => (0, fileOffset)
  | size :: sizes, fileOffset =>
    if fileOffset ≥ size then ((seek sizes (fileOffset - size)).1 + 1, (seek sizes (fileOffset - size)).2) else (0, fileOffset)

/-- What `ToHost` reads, and how: the contents of the partitions, the size and the number of the chunks, the threads. -/
structure ReadPlan where
  partitions : List (List UInt8)
  chunkSize : Nat
  numChunks : Nat
  numThreads : Nat

namespace ReadPlan

variable (R : ReadPlan)

def partitionSizes : List Nat := R.partitions.map List.length

def modelSize : Nat := R.partitionSizes.sum

def chunkPerThread : Nat := (R.numChunks + R.numThreads - 1) / R.numThreads

def sizeOf (chunkIdx : Nat) : Nat := min R.chunkSize (R.modelSize - chunkIdx * R.chunkSize)

def file (partitionId : Nat) : List UInt8 := R.partitions.getD partitionId []

end ReadPlan

inductive ReaderThread where
  | started
  /-- At the start of a round. -/
  | atChunk (partitionId fileOffset chunkIdx : Nat)
  /-- The first read has delivered `ret` bytes and was short; the rest is in the next partition. -/
  | inNext (partitionId chunkIdx size ret : Nat)
  /-- The chunk is read. -/
  | hasChunk (partitionId fileOffset chunkIdx size : Nat)
  | returned (ret : Int)
deriving DecidableEq

/-- What its future delivers. -/
def ReaderThread.result : ReaderThread → Option Int
  | .returned ret => some ret
  | _ => none

/-- What a step does to the memory that the threads share. -/
inductive ReaderEffect where
  | none
  | write (chunkIdx offset : Nat) (bytes : List UInt8)
  | enqueue (chunkIdx size : Nat)

def threadStep (R : ReadPlan) (state : MemoryState) (threadIdx : Nat) : ReaderThread → ReaderThread × ReaderEffect
  | .started =>
    let (partitionId, fileOffset) := seek R.partitionSizes (threadIdx * R.chunkPerThread * R.chunkSize)
    if partitionId ≥ R.partitions.length then (.returned 0, .none)
    else (.atChunk partitionId fileOffset (threadIdx * R.chunkPerThread), .none)
  | .atChunk partitionId fileOffset chunkIdx =>
    if chunkIdx < (threadIdx + 1) * R.chunkPerThread ∧ chunkIdx < R.numChunks then
      if state = .cancelled then (.returned 0, .none)
      else
        let size := R.sizeOf chunkIdx
        let bytes := pread (R.file partitionId) size fileOffset
        if bytes.length = size then
          (.hasChunk partitionId (fileOffset + bytes.length) chunkIdx size, .write chunkIdx 0 bytes)
        else if partitionId + 1 < R.partitions.length then
          (.inNext (partitionId + 1) chunkIdx size bytes.length, .write chunkIdx 0 bytes)
        else (.returned (-1), .write chunkIdx 0 bytes)
    else (.returned 0, .none)
  | .inNext partitionId chunkIdx size ret =>
    let bytes := pread (R.file partitionId) (size - ret) 0
    if bytes.length ≠ size - ret then (.returned (-1), .write chunkIdx ret bytes)
    else (.hasChunk partitionId (0 + bytes.length) chunkIdx size, .write chunkIdx ret bytes)
  | .hasChunk partitionId fileOffset chunkIdx size =>
    (.atChunk partitionId fileOffset (chunkIdx + 1), .enqueue chunkIdx size)
  | .returned ret => (.returned ret, .none)

/-- The threads, and what they share. -/
structure ReadState where
  state : MemoryState
  threads : List ReaderThread
  hostBuffers : List (List UInt8)
  hostPtrVector : ConcurrentVector Batch

namespace ReadState

def apply (s : ReadState) : ReaderEffect → ReadState
  | .none => s
  | .write chunkIdx offset bytes => { s with
      hostBuffers := s.hostBuffers.modify chunkIdx fun buffer => writeAt buffer offset bytes }
  | .enqueue chunkIdx size => { s with hostPtrVector := s.hostPtrVector.enqueue chunkIdx ⟨chunkIdx, size⟩ }

def step (R : ReadPlan) (s : ReadState) (threadIdx : Nat) : ReadState :=
  match s.threads[threadIdx]? with
  | none => s
  | some thread =>
    { s.apply (threadStep R s.state threadIdx thread).2 with
      threads := s.threads.set threadIdx (threadStep R s.state threadIdx thread).1 }

/-- Steps of the threads in an order. -/
def run (R : ReadPlan) (s : ReadState) (schedule : List Nat) : ReadState := schedule.foldl (step R) s

/-- What the futures deliver, once all threads have returned. -/
def returns (s : ReadState) : Option (List Int) := s.threads.mapM ReaderThread.result

end ReadState

/-- The model, as `ToHost` sees it: the state, the files, and the chunks of the pinned memory. -/
structure HostModel where
  state : MemoryState
  partitions : List (List UInt8)
  pinnedMem : Option (List (List UInt8))
  hostPtrVector : Option (ConcurrentVector Batch)

/-- The start of `ToHost`, under the lock: it returns, or the model is loading and the threads start. `opens` tells whether all
the files could be opened. -/
def toHostStart (opens : Bool) (chunkSize numThreads : Nat) (m : HostModel) : Int ⊕ ReadPlan × ReadState :=
  if m.state ≠ .allocated then
    if m.state = .loading ∨ m.state = .loaded then .inl 0 else .inl (-1)
  else if !opens then .inl (-1)
  else
    match m.pinnedMem with
    | none => .inl 1
    | some [] => .inl 1
    | some (buffer :: buffers) =>
      .inr (⟨m.partitions, chunkSize, (buffer :: buffers).length, numThreads⟩,
        ⟨.loading, List.replicate numThreads .started, buffer :: buffers, .new (buffer :: buffers).length⟩)

/-- What `ToHost` returns for what the futures deliver. -/
def toHostResult (rets : List Int) : Int := if rets.any (· ≠ 0) then -1 else 0

end ServerlessLLM
