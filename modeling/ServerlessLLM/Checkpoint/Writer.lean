import Mathlib.Data.UInt
import ServerlessLLM.Library.Bytes

/-!
# The checkpoint writer

`AlignedBuffer`, `TensorWriter` and `SaveTensors`: the bytes of the tensors go through a buffer to the partition files
`tensor.data_0`, `tensor.data_1` and so on. The model keeps the files, the numbering of the `pwrite` calls, whose outcomes the
operating system decides, and the messages of the error branches.
-/

namespace ServerlessLLM

open Bytes Function

/-- What the operating system decides. -/
structure Os where
  /-- What the `k`-th `pwrite`, of `count` bytes, returns: how many bytes it wrote, or `none` for an error. -/
  pwrite : Nat → Nat → Option Nat
  /-- What the memory that `aligned_alloc` hands out for the `k`-th partition holds. -/
  heap : Nat → Nat → UInt8

/-- Every `pwrite` writes all its bytes. -/
def Os.WritesAll (os : Os) : Prop := ∀ k count, os.pwrite k count = some count

/-- An operating system on which they do, and that hands out zeroed memory. -/
def Os.reliable : Os := ⟨fun _ count => some count, fun _ _ => 0⟩

def kAlignment : Nat := 4096

structure WriterSizes where
  kBufferSize : Nat
  kPartitionMaxSize : Nat
  pos : 0 < kBufferSize
  aligned : kAlignment ∣ kBufferSize

/-- The sizes of the source: a buffer of 1 GB, and partitions of 10 GB. -/
def WriterSizes.source : WriterSizes := ⟨1 <<< 30, 10 <<< 30, by decide, by decide⟩

/-- What the error branches print. -/
inductive Message where
  /-- "Failed to write to file". -/
  | failedToWrite
  /-- "Padding size should be less than 8 bytes". -/
  | paddingNotBelowEight
  /-- "Padding size is too large". -/
  | paddingTooLarge
deriving DecidableEq

/-- The partition files that exist, in the order of their numbers, with the number of `pwrite` calls so far and what was
printed. -/
structure Disk where
  files : List (List UInt8)
  pwrites : Nat
  stderr : List Message

namespace Disk

/-- A directory without partition files. -/
def empty : Disk := ⟨[], 0, []⟩

/-- `open` with `O_WRONLY | O_CREAT | O_DIRECT`: a file that exists keeps what it holds. -/
def create (d : Disk) (partitionIdx : Nat) : Disk :=
  if partitionIdx < d.files.length then d else { d with files := d.files ++ [[]] }

/-- `pwrite` to a partition file. -/
def pwrite (os : Os) (d : Disk) (partitionIdx : Nat) (data : List UInt8) (offset : Nat) : Option Nat × Disk :=
  match os.pwrite d.pwrites data.length with
  | none => (none, { d with pwrites := d.pwrites + 1 })
  | some n => (some n, { d with
      pwrites := d.pwrites + 1
      files := d.files.modify partitionIdx fun file => putAt file offset (data.take n) })

/-- Print to `std::cerr`. -/
def print (d : Disk) (m : Message) : Disk := { d with stderr := d.stderr ++ [m] }

end Disk

/-- `AlignedBuffer`, with the number of the partition in place of the file descriptor. -/
structure AlignedBuffer where
  partitionIdx : Nat
  bufPos : Nat
  fileOffset : Nat
  buffer : Nat → UInt8

namespace AlignedBuffer

variable (K : WriterSizes) (os : Os)

/-- The constructor, once the file is open. -/
def new (partitionIdx : Nat) : AlignedBuffer := ⟨partitionIdx, 0, 0, os.heap partitionIdx⟩

/-- The first half of a round of `writeData`: with an empty buffer, more than fits the buffer goes straight to the file.
Returns whether the function goes on, and how much was written. -/
def directWrite (data : List UInt8) (written : Nat) (b : AlignedBuffer) (d : Disk) : Bool × Nat × AlignedBuffer × Disk :=
  if data.length - written > K.kBufferSize ∧ b.bufPos = 0 then
    let directWriteSize := (data.length - written) / kAlignment * kAlignment
    let (ret, d) := d.pwrite os b.partitionIdx ((data.drop written).take directWriteSize) b.fileOffset
    if ret = some directWriteSize then
      (true, written + directWriteSize, { b with fileOffset := b.fileOffset + directWriteSize }, d)
    else (false, written, b, d.print .failedToWrite)
  else (true, written, b, d)

/-- The second half: fill the buffer, and write it to the file when it is full. -/
def fillBuffer (data : List UInt8) (written : Nat) (b : AlignedBuffer) (d : Disk) : Bool × Nat × AlignedBuffer × Disk :=
  let toWrite := min (data.length - written) (K.kBufferSize - b.bufPos)
  let b := { b with
    buffer := copyIn b.buffer b.bufPos ((data.drop written).take toWrite)
    bufPos := b.bufPos + toWrite }
  if b.bufPos = K.kBufferSize then
    let (ret, d) := d.pwrite os b.partitionIdx (read b.buffer 0 K.kBufferSize) b.fileOffset
    if ret = some K.kBufferSize then
      (true, written + toWrite, { b with bufPos := 0, fileOffset := b.fileOffset + K.kBufferSize }, d)
    else (false, written + toWrite, b, d.print .failedToWrite)
  else (true, written + toWrite, b, d)

/-- The loop of `writeData`. A round with room in the buffer writes at least a byte, so there are at most as many as bytes. -/
def writeDataLoop (data : List UInt8) : Nat → Nat → AlignedBuffer → Disk → Nat × AlignedBuffer × Disk
  | 0, written, b, d => (written, b, d)
  | fuel + 1, written, b, d =>
    if written < data.length then
      match b.directWrite K os data written d with
      | (false, written, b, d) => (written, b, d)
      | (true, written, b, d) =>
        match b.fillBuffer K os data written d with
        | (false, written, b, d) => (written, b, d)
        | (true, written, b, d) => writeDataLoop data fuel written b d
    else (written, b, d)

def writeData (data : List UInt8) (b : AlignedBuffer) (d : Disk) : Nat × AlignedBuffer × Disk :=
  writeDataLoop K os data (data.length + 1) 0 b d

/-- The padding is whatever the buffer holds there. -/
def writePadding (paddingSize : Nat) (b : AlignedBuffer) (d : Disk) : Nat × AlignedBuffer × Disk :=
  if paddingSize ≥ 8 then (0, b, d.print .paddingNotBelowEight)
  else
    let b := { b with bufPos := b.bufPos + paddingSize }
    if b.bufPos > K.kBufferSize then (0, b, d.print .paddingTooLarge)
    else if b.bufPos = K.kBufferSize then
      let (_, d) := d.pwrite os b.partitionIdx (read b.buffer 0 b.bufPos) b.fileOffset
      (paddingSize, { b with bufPos := 0, fileOffset := b.fileOffset + K.kBufferSize }, d)
    else (paddingSize, b, d)

/-- The destructor: what is left in the buffer is written. -/
def destroy (b : AlignedBuffer) (d : Disk) : Disk :=
  if b.bufPos ≠ 0 then (d.pwrite os b.partitionIdx (read b.buffer 0 b.bufPos) b.fileOffset).2 else d

end AlignedBuffer

/-- `TensorWriter`. There is no buffer while `partition_idx_` is -1, and from then on the buffer knows the index. -/
structure TensorWriter where
  offset : Nat
  partitionSize : Nat
  buffer : Option AlignedBuffer

namespace TensorWriter

variable (K : WriterSizes) (os : Os)

/-- The constructor. -/
def new : TensorWriter := ⟨0, 0, none⟩

/-- The partition that a record of this size goes to, with the size of the partition so far. The buffer of a new partition is
made before the one of the last is destroyed. -/
def partitionFor (w : TensorWriter) (size : Nat) (d : Disk) : AlignedBuffer × Nat × Disk :=
  match w.buffer with
  | none => (.new os 0, 0, d.create 0)
  | some b =>
    if w.partitionSize + size > K.kPartitionMaxSize then
      (.new os (b.partitionIdx + 1), 0, b.destroy os (d.create (b.partitionIdx + 1)))
    else (b, w.partitionSize, d)

/-- The bytes that are added to a record so that its size is a multiple of 8. -/
def paddingOf (size : Nat) : Nat := if size % 8 ≠ 0 then 8 - size % 8 else 0

/-- Returns the offset of the record. -/
def writeRecord (data : List UInt8) (w : TensorWriter) (d : Disk) : Nat × TensorWriter × Disk :=
  let (b, partitionSize, d) := w.partitionFor K os data.length d
  let padding := paddingOf data.length
  let (written, b, d) := b.writeData K os data d
  let (padded, b, d) := if padding ≠ 0 then b.writePadding K os padding d else (0, b, d)
  (w.offset, ⟨w.offset + (written + padded), partitionSize + (written + padded), some b⟩, d)

def destroy (w : TensorWriter) (d : Disk) : Disk :=
  match w.buffer with
  | none => d
  | some b => b.destroy os d

end TensorWriter

/-- The state of the loop of `SaveTensors`. -/
structure SaveState where
  writer : TensorWriter
  disk : Disk
  tensorOffsets : String → Option Nat
  dataRecord : Nat → Option String

variable (K : WriterSizes) (os : Os) (mem : Nat → UInt8) (tensorData : String → Nat × Nat)

/-- A round of the loop: a tensor whose data was written before gets the offset of that record. -/
def saveTensor (s : SaveState) (name : String) : SaveState :=
  let (base, size) := tensorData name
  match s.dataRecord base with
  | some first =>
    { s with tensorOffsets := update s.tensorOffsets name (some ((s.tensorOffsets first).getD 0)) }
  | none =>
    let (offset, writer, disk) := s.writer.writeRecord K os (read mem base size) s.disk
    { writer, disk
      tensorOffsets := update s.tensorOffsets name (some offset)
      dataRecord := update s.dataRecord base (some name) }

/-- The loop of `SaveTensors`. -/
def saveLoop (tensorNames : List String) (s : SaveState) : SaveState := tensorNames.foldl (saveTensor K os mem tensorData) s

/-- The offsets, and the directory after the writer was destroyed. -/
def saveTensors (tensorNames : List String) (d : Disk) : (String → Option Nat) × Disk :=
  let s := saveLoop K os mem tensorData tensorNames ⟨.new, d, fun _ => none, fun _ => none⟩
  (s.tensorOffsets, s.writer.destroy os s.disk)

end ServerlessLLM
