import ServerlessLLM.Host.Reader

/-!
# A model in the host memory

The sections of `Model` that run under its mutex, and those of the dispatcher and the consumers of a replica, which run without
it. A section ends where the mutex is released, also when it waits for a condition. Who waits for a replica holds its number in
`replicas`, which keeps every replica that `ToGpu` has made; `gpuReplicas` has those of them that are registered.
-/

namespace ServerlessLLM

open Prod

/-- `PinnedMemory`. `id` tells the allocations of a model apart; `chunksRead` are the chunks that were read from disk into these
buffers, which the code does not know. -/
structure PinnedMemory where
  id : Nat
  buffers : List Nat
  chunksRead : List Nat
deriving DecidableEq

/-- The thread of `DispatchToGpu`. -/
inductive Dispatcher where
  | created
  /-- It takes this entry of `host_ptr_vector_` next. -/
  | dequeues (i : Nat)
  | finished
deriving DecidableEq

/-- The thread of a device in `ToGpu`. -/
inductive Consumer where
  | created
  | running
  | returned (ret : Int)
deriving DecidableEq

/-- `GpuReplica`, with the threads of the `ToGpu` that made it. `pieces` are the chunks that are requested for each device. The
queue of a device has the chunk of each batch, and `none` for the batch of no bytes. -/
structure GpuReplica where
  task : Nat
  state : MemoryState
  pieces : List (Int × Nat)
  dispatcher : Dispatcher
  queues : Dict Int (List (Option Nat))
  consumers : Dict Int Consumer

/-- `Model`, after `Initialize`, which refuses a model of no bytes. `allocations` counts the pinned memories it has had. -/
structure Model where
  modelSize : Nat
  size_pos : 0 < modelSize
  state : MemoryState
  pinnedMem : Option PinnedMemory
  allocations : Nat
  hostPtrVector : Option (ConcurrentVector Batch)
  replicas : List GpuReplica
  gpuReplicas : Dict String Nat

inductive SectionEnd (α : Type) where
  /-- It waits. -/
  | blocked
  /-- It has dereferenced a null pointer. -/
  | crashed
  | ok (a : α)

namespace Model

variable (m : Model)

/-- A model after `Initialize`. -/
def initial (modelSize : Nat) (h : 0 < modelSize) : Model := ⟨modelSize, h, .unallocated, none, 0, none, [], .empty⟩

/-- The buffers that the model holds. -/
def buffers : List Nat :=
  match m.pinnedMem with
  | some pinned => pinned.buffers
  | none => []

def replicaState (r : Nat) : MemoryState :=
  match m.replicas[r]? with
  | some replica => replica.state
  | none => .uninitialized

/-- Whether a replica is done, for those who wait for it. -/
def replicaDone (r : Nat) : Bool := m.replicaState r = .loaded || m.replicaState r = .interrupted

def setReplica (r : Nat) (f : GpuReplica → GpuReplica) : Model := { m with replicas := m.replicas.modify r f }

/-- `pinned_mem_.reset()`. -/
def resetPinned (pool : PinnedMemoryPool) : Model × PinnedMemoryPool :=
  ({ m with pinnedMem := none, state := .unallocated }, (pool.deallocate m.buffers).2)

/-! ## Allocate and free -/

/-- `AllocatePinnedMemory`. The pinned memory that the model had is destroyed when it gets a new one. -/
def allocatePinnedMemory (pool : PinnedMemoryPool) : Int × Model × PinnedMemoryPool :=
  if m.state = .uninitialized then (-1, m, pool)
  else if m.state ≠ .unallocated then (0, m, pool)
  else
    let (ret, buffers, pool) := (pool.deallocate m.buffers).2.allocate m.modelSize
    let m := { m with pinnedMem := some ⟨m.allocations, buffers, []⟩, allocations := m.allocations + 1 }
    if ret ≠ 0 then (ret, m, pool)
    else if buffers = [] then (-1, m, pool)
    else (0, { m with state := .allocated }, pool)

def hasLoading : Bool := m.gpuReplicas.entries.any fun e => m.replicaState e.2 = .loading

def tryFreeHost (pool : PinnedMemoryPool) : SectionEnd (Int × Model × PinnedMemoryPool) :=
  if m.state = .uninitialized ∨ m.state = .unallocated then .ok (0, m, pool)
  else if m.state = .loading then .ok (-1, m, pool)
  else if m.hasLoading then .ok (-1, m, pool)
  else
    match m.pinnedMem with
    | none => .crashed
    | some pinned => .ok (pinned.buffers.length, m.resetPinned pool)

/-- Where `FreeHost` waits. -/
inductive FreeWait where
  /-- For the model to be loaded. -/
  | load
  /-- For a replica, with others behind it. -/
  | replica (r : Nat) (rest : List Nat)
deriving DecidableEq

/-- `FreeHost`, from the loop over the replicas on: it waits for the first one that is loading, or frees the memory. -/
def freeReplicas (pool : PinnedMemoryPool) (rs : List Nat) : SectionEnd ((FreeWait ⊕ Int) × Model × PinnedMemoryPool) :=
  match rs.dropWhile fun r => m.replicaState r ≠ .loading with
  | r :: rest => .ok (.inl (.replica r rest), m, pool)
  | [] =>
    match m.pinnedMem with
    | none => .crashed
    | some pinned => .ok (.inr pinned.buffers.length, m.resetPinned pool)

/-- `FreeHost`. It goes through the registered replicas in some order. -/
def freeHost (pool : PinnedMemoryPool) (order : List Nat) : SectionEnd ((FreeWait ⊕ Int) × Model × PinnedMemoryPool) :=
  if m.state = .uninitialized ∨ m.state = .unallocated then .ok (.inr 0, m, pool)
  else if m.state = .loading then .ok (.inl .load, m, pool)
  else if order.isPerm (m.gpuReplicas.entries.map snd) then m.freeReplicas pool order
  else .blocked

/-- `FreeHost` after a wait. -/
def freeHostAwake (pool : PinnedMemoryPool) (order : List Nat) :
    FreeWait → SectionEnd ((FreeWait ⊕ Int) × Model × PinnedMemoryPool)
  | .load =>
    if (m.state = .loaded ∨ m.state = .interrupted) ∧ order.isPerm (m.gpuReplicas.entries.map snd) then
      m.freeReplicas pool order
    else .blocked
  | .replica r rest => if m.replicaDone r then m.freeReplicas pool rest else .blocked

/-! ## ToHost -/

/-- The start of `ToHost`: what it returns, or the pinned memory into which the threads read. -/
def toHostStart (opens : Bool) : (Int ⊕ PinnedMemory) × Model :=
  if m.state ≠ .allocated then
    if m.state = .loading ∨ m.state = .loaded then (.inl 0, m) else (.inl (-1), m)
  else if !opens then (.inl (-1), m)
  else
    match m.pinnedMem with
    | none => (.inl 1, m)
    | some pinned =>
      if pinned.buffers = [] then (.inl 1, m)
      else (.inr pinned, { m with hostPtrVector := some (.new pinned.buffers.length), state := .loading })

/-- A chunk is read into the pinned memory that the threads have got, and put into `host_ptr_vector_`. -/
def readChunk (chunkSize id chunkIdx : Nat) : SectionEnd Model :=
  match m.hostPtrVector with
  | none => .crashed
  | some v =>
    .ok { m with
      pinnedMem := m.pinnedMem.map fun pinned =>
        if pinned.id = id then { pinned with chunksRead := chunkIdx :: pinned.chunksRead } else pinned
      hostPtrVector := some (v.enqueue chunkIdx ⟨chunkIdx, min chunkSize (m.modelSize - chunkIdx * chunkSize)⟩) }

/-- The error path of `ToHost`, through the replicas: those that are loading are cancelled. It waits for the first one that is
not done. -/
def cancelReplicas : List Nat → Model → Model × Option (Nat × List Nat)
  | [], m => (m, none)
  | r :: rest, m =>
    let m := m.setReplica r fun replica => if replica.state = .loading then { replica with state := .cancelled } else replica
    if m.replicaDone r then cancelReplicas rest m else (m, some (r, rest))

/-- The error path, up to the next wait or to the end, where the memory is released. -/
def interrupt (pool : PinnedMemoryPool) (rs : List Nat) : Option (Nat × List Nat) × Model × PinnedMemoryPool :=
  match cancelReplicas rs m with
  | (m, some wait) => (some wait, m, pool)
  | (m, none) => (none, m.resetPinned pool)

/-- The end of `ToHost`. The number of chunks is printed first. -/
def toHostEnd (pool : PinnedMemoryPool) (error : Bool) (order : List Nat) :
    SectionEnd (Option (Nat × List Nat) × Model × PinnedMemoryPool) :=
  match m.pinnedMem with
  | none => .crashed
  | some _ =>
    if error then
      if order.isPerm (m.gpuReplicas.entries.map snd) then
        .ok (({ m with state := .interrupted } : Model).interrupt pool order)
      else .blocked
    else .ok (none, { m with state := .loaded }, pool)

/-! ## ToGpu -/

/-- The start of `ToGpu`: it returns, or makes a replica and starts its threads. -/
def toGpuStart (task : Nat) (replicaUuid : String) (devices : List Int) (pieces : List (Int × Nat)) : (Int ⊕ Nat) × Model :=
  if m.state = .uninitialized then (.inl (-1), m)
  else if replicaUuid ∈ m.gpuReplicas.keys then (.inl (-1), m)
  else
    (.inr m.replicas.length,
      { m with
        replicas := m.replicas ++ [⟨task, .loading, pieces, .created, devices.foldl (fun d i => d.set i []) .empty,
          devices.foldl (fun d i => d.set i .created) .empty⟩]
        gpuReplicas := m.gpuReplicas.set replicaUuid m.replicas.length })

/-- A step of the dispatcher: the start, which needs the number of chunks, an entry of the vector, or the end. -/
def dispatch (replica : GpuReplica) : SectionEnd GpuReplica :=
  match replica.dispatcher with
  | .created =>
    match m.pinnedMem with
    | none => .crashed
    | some _ => .ok { replica with dispatcher := .dequeues 0 }
  | .dequeues i =>
    match m.hostPtrVector with
    | none => .crashed
    | some v =>
      if i ≥ v.capacity then
        .ok { replica with dispatcher := .finished, queues := replica.queues.mapValues fun _ queue => queue ++ [none] }
      else
        match v.items[i]? with
        | none => .blocked
        | some dataChunk =>
          .ok { replica with
            dispatcher := .dequeues (i + 1)
            queues := replica.queues.mapValues fun d queue =>
              if (d, dataChunk.chunkId) ∈ replica.pieces then queue ++ [some dataChunk.chunkId] else queue }
  | .finished => .blocked

/-- A step of the consumer of a device: the start, or the next batch of the queue. -/
def consume (replica : GpuReplica) (d : Int) : SectionEnd GpuReplica :=
  match replica.consumers.get? d, replica.queues.get? d with
  | some .created, _ =>
    if m.buffers = [] then .ok { replica with consumers := replica.consumers.set d (.returned 1) }
    else .ok { replica with consumers := replica.consumers.set d .running }
  | some .running, some (none :: queue) =>
    .ok { replica with consumers := replica.consumers.set d (.returned 0), queues := replica.queues.set d queue }
  | some .running, some (some _ :: queue) =>
    if replica.state = .cancelled then
      .ok { replica with consumers := replica.consumers.set d (.returned 0), queues := replica.queues.set d queue }
    else .ok { replica with queues := replica.queues.set d queue }
  | _, _ => .blocked

/-- The chunk that the next step of a consumer copies to the device. -/
def copies (replica : GpuReplica) (d : Int) : Option Nat :=
  match replica.consumers.get? d, replica.queues.get? d with
  | some .running, some (some chunkIdx :: _) => if replica.state = .cancelled then none else some chunkIdx
  | _, _ => none

/-- What the consumers have returned, when the dispatcher has finished and all of them have. -/
def returns (replica : GpuReplica) : Option (List Int) :=
  if replica.dispatcher = .finished then
    replica.consumers.entries.mapM fun e =>
      match e.2 with
      | .returned ret => some ret
      | _ => none
  else none

/-- The end of `ToGpu`. The number of chunks is printed first. -/
def toGpuEnd (replica : GpuReplica) : SectionEnd (Int × GpuReplica) :=
  match returns replica with
  | none => .blocked
  | some rets =>
    match m.pinnedMem with
    | none => .crashed
    | some _ =>
      if rets.any (· ≠ 0) then .ok (-1, { replica with state := .interrupted })
      else .ok (0, { replica with state := .loaded })

/-- It returns, or waits for a replica. -/
def freeGpu (replicaUuid : String) : Option Nat × Model :=
  match m.gpuReplicas.get? replicaUuid with
  | none => (none, m)
  | some r =>
    if m.replicaState r = .loading then (some r, m) else (none, { m with gpuReplicas := m.gpuReplicas.erase replicaUuid })

/-- `FreeGpu` after the wait. -/
def freeGpuAwake (replicaUuid : String) (r : Nat) : SectionEnd Model :=
  if m.replicaDone r then .ok { m with gpuReplicas := m.gpuReplicas.erase replicaUuid } else .blocked

end Model

end ServerlessLLM
