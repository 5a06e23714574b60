import Mathlib.Data.List.Perm.Basic
import ServerlessLLM.Library.Dict

/-!
# The CUDA driver under the page pool

What `vram_manager_vmm.h` calls and does not define. A call of the pool meets `Surroundings`: the outcome of every driver and
runtime call that can fail, the order in which a loop goes through an `unordered_map`, and an environment variable. The driver
itself maps pages of reserved address ranges to physical allocations: `cuMemMap` fails on a page that is mapped, and
`cuMemUnmap` of a mapped page succeeds.
-/

namespace ServerlessLLM.Vmm

/-- The calls that can fail, by the place that makes them. -/
inductive Call where
  /-- `cuMemAddressReserve` of `ReserveStableWeight` and of `Map`. -/
  | reserveArena
  | reserveAllocation
  /-- `cuMemCreate`, `cuMemMap` and `cuMemSetAccess` of `BeginStableBinding`. -/
  | createAlias
  | mapAlias
  | accessAlias
  /-- `cuMemMap` and `cuMemSetAccess` of `MapStablePages`. -/
  | mapPage
  | accessPage
  /-- `cuMemMap` and `cuMemSetAccess` of `MapAtReservedAddress`. -/
  | mapExtent
  | accessExtents
  /-- `cuMemUnmap` of a range that spans several physical allocations. -/
  | unmapRun
  /-- `cudaSetDevice` and `cudaMemcpy` of `LoadModel`. -/
  | setDevice
  | memcpy
  /-- `cudaMemcpyAsync` of `PrepareLayerWeavePages`. -/
  | memcpyAsync
  /-- `open` of a partition, and for a tensor group its host memory, the `pread` of its partition and that of the next one.
  These calls are numbered by partitions and groups. -/
  | openPartition
  | hostMemory
  | pread
  | preadNext
deriving DecidableEq

/-- What a call of the pool meets outside the code. The driver calls are numbered in the order in which they are made. -/
structure Surroundings where
  succeeds : Call → Nat → Bool
  /-- The order in which a loop goes through the entries of an `unordered_map`. -/
  visit : ∀ {α : Type}, List α → List α
  visit_perm : ∀ {α : Type} (l : List α), (visit l).Perm l
  /-- `LAYERWEAVE_BATCH_UNMAP` is set, and not to `0`. -/
  batchUnmap : Bool

/-- No call fails. -/
def Surroundings.NoFailure (S : Surroundings) : Prop := ∀ c n, S.succeeds c n = true

/-- No `cuMemMap` of `MapAtReservedAddress` fails. -/
def Surroundings.MapsExtents (S : Surroundings) : Prop := ∀ n, S.succeeds .mapExtent n = true

/-- No `cudaMemcpyAsync` fails. -/
def Surroundings.CopiesAsync (S : Surroundings) : Prop := ∀ n, S.succeeds .memcpyAsync n = true

/-- Every call succeeds, and every loop goes through the entries as they are stored. -/
def Surroundings.reliable : Surroundings := ⟨fun _ _ => true, fun l => l, List.Perm.refl, false⟩

def Surroundings.failing (c : Call) : Surroundings := { Surroundings.reliable with succeeds := fun c' _ => c' ≠ c }

/-- A page of a reserved address range. The ranges are numbered from 1 on; 0 is the null pointer. -/
structure PageAddr where
  range : Nat
  page : Nat
deriving DecidableEq

/-- What `cuMemCreate` returns: the handle of a physical extent of the pool, or that of the alias of a binding. -/
inductive Handle where
  | extent (id : Nat)
  | alias (n : Nat)
deriving DecidableEq

/-- The driver: how many calls were made, ranges reserved and aliases created so far, the mapped pages, and the bytes of the
physical allocations. -/
structure Driver where
  calls : Nat
  ranges : Nat
  aliases : Nat
  mapped : Dict PageAddr Handle
  memory : Handle → Nat → UInt8

namespace Driver

variable (S : Surroundings) (d : Driver)

def called : Driver := { d with calls := d.calls + 1 }

/-- A new range, or nothing. -/
def cuMemAddressReserve (c : Call) : Option Nat × Driver :=
  if S.succeeds c d.calls then (some (d.ranges + 1), { d.called with ranges := d.ranges + 1 }) else (none, d.called)

/-- `cuMemCreate` of an alias. -/
def cuMemCreate : Option Handle × Driver :=
  if S.succeeds .createAlias d.calls then (some (.alias d.aliases), { d.called with aliases := d.aliases + 1 })
  else (none, d.called)

/-- `cuMemMap` of one page. -/
def cuMemMap (c : Call) (a : PageAddr) (h : Handle) : Bool × Driver :=
  if S.succeeds c d.calls = true ∧ d.mapped.get? a = none then (true, { d.called with mapped := d.mapped.set a h })
  else (false, d.called)

def cuMemSetAccess (c : Call) : Bool × Driver := (S.succeeds c d.calls, d.called)

def cudaSetDevice : Bool × Driver := (S.succeeds .setDevice d.calls, d.called)

/-- `cuMemUnmap` of one page. On a page that is not mapped it has no effect. -/
def cuMemUnmap (a : PageAddr) : Driver := { d with mapped := d.mapped.erase a }

/-- `cuMemUnmap` of so many consecutive pages. Some drivers reject a range that spans separately created allocations. -/
def cuMemUnmapRun (a : PageAddr) (pages : Nat) : Bool × Driver :=
  let run := (List.range pages).map fun i => (⟨a.range, a.page + i⟩ : PageAddr)
  if S.succeeds .unmapRun d.calls = true ∧ ∀ b ∈ run, d.mapped.get? b ≠ none then (true, run.foldl cuMemUnmap d.called)
  else (false, d.called)

/-- A byte is written at a virtual address, through the page that is mapped there. -/
def writeByte (granularity range : Nat) (d : Driver) (address : Nat) (byte : UInt8) : Driver :=
  match d.mapped.get? ⟨range, address / granularity⟩ with
  | none => d
  | some h => { d with memory := fun h' i => if h' = h ∧ i = address % granularity then byte else d.memory h' i }

def byteAt (granularity range : Nat) (d : Driver) (address : Nat) : Option UInt8 :=
  (d.mapped.get? ⟨range, address / granularity⟩).map fun h => d.memory h (address % granularity)

/-- The bytes `host from`, `host (from + 1)`, ... are written at the addresses `address`, `address + 1`, ... -/
def write (granularity range address : Nat) (host : Nat → UInt8) (start n : Nat) : Driver :=
  (List.range n).foldl (fun d i => writeByte granularity range d (address + i) (host (start + i))) d

/-- `cudaMemcpy` or `cudaMemcpyAsync` from the host. -/
def cudaMemcpy (c : Call) (granularity range address : Nat) (host : Nat → UInt8) (start n : Nat) : Bool × Driver :=
  if S.succeeds c d.calls then (true, d.called.write granularity range address host start n) else (false, d.called)

end Driver

end ServerlessLLM.Vmm
