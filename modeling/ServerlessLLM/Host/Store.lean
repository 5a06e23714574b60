import ServerlessLLM.Host.Model

/-!
# The checkpoint store

`CheckpointStore` with the calls that are under way, each a task. A task takes one step for each section that it runs under a
mutex, and tasks take their steps in any order. `lockedBy` is the task that keeps `model_info_mutex_` over several sections: a
`LoadModelFromDisk` that evicts other models. Registered models stay registered here.

What `DispatchToGpu` and the consumers of a replica rely on, and the steps with which it can be relied on. The code makes a
replica in every state but `UNINITIALIZED`, and those who wait for a replica do not look at the model again after the wait.

`RegisterModelInfo` and `ClearMem` beside the calls of `Store`. `ClearMem` comes when no other call is under way. The loop that
evicts models looks them up in `model_map_` with an operator that inserts a null model for a path that is not registered.
-/

namespace ServerlessLLM

open Model

inductive Pc where
  /-- `LoadModelFromDisk`: look the model up; allocate; evict, with the models to try and the chunks that are still needed;
  allocate again; start `ToHost`. -/
  | lookupDisk
  | allocate
  | evict (order : List String) (memChunksNeeded : Int)
  | allocateAgain
  | toHost
  /-- The threads of `ToHost` read into a pinned memory; some chunks are left, and a read may have failed. -/
  | reading (id : Nat) (left : List Nat) (error : Bool)
  /-- The error path of `ToHost` waits for a replica, with others behind it. -/
  | failing (r : Nat) (rest : List Nat)
  /-- `FreeHost`, and what is returned after it; without such a value, what `FreeHost` returns. -/
  | freeHost (ret : Option Int)
  | freeWait (ret : Option Int) (wait : FreeWait)
  /-- `LoadModelFromMem`: look the model up, start `ToGpu`, run its threads, `FreeGpu`. -/
  | lookupMem (replicaUuid : String) (devices : List Int) (pieces : List (Int × Nat))
  | toGpu (replicaUuid : String) (devices : List Int) (pieces : List (Int × Nat))
  | running (replicaUuid : String) (r : Nat)
  | freeGpu (replicaUuid : String)
  | freeGpuWait (replicaUuid : String) (r : Nat)
  /-- `UnloadModelFromHost`: look the model up. -/
  | lookupUnload
  | returned (ret : Int)
deriving DecidableEq

/-- Where a call starts. -/
def Pc.isCall : Pc → Bool
  | .lookupDisk => true
  | .lookupMem _ _ _ => true
  | .lookupUnload => true
  | _ => false

/-- A call that is under way, for a model. -/
structure Task where
  modelPath : String
  pc : Pc
deriving DecidableEq

/-- `CheckpointStore`. -/
structure Store where
  memoryPool : PinnedMemoryPool
  modelMap : Dict String Model
  modelLastAccessTime : Dict String Nat
  lockedBy : Option Nat
  tasks : List Task
  crashed : Bool

/-- What is left open by the code: the time, the order of the models in the eviction and of the replicas of a model, whether
files open, which chunk is read next and whether that succeeds, and which thread of `ToGpu` is next. -/
inductive Choice where
  | go (now : Nat)
  | models (order : List String) (now : Nat)
  | replicas (order : List Nat)
  | opens (opens : Bool)
  | read (chunkIdx : Nat) (ok : Bool)
  | finish (order : List Nat)
  | dispatch
  | consume (d : Int)
deriving DecidableEq

/-- What happens next. -/
inductive Action where
  /-- A call. -/
  | call (task : Task)
  /-- A step of a task. -/
  | step (k : Nat) (choice : Choice)
  /-- The free list is iterated in another order. -/
  | reorder (freeList : List Nat)
deriving DecidableEq

namespace Store

variable (s : Store)

def goto (k : Nat) (modelPath : String) (pc : Pc) : Store := { s with tasks := s.tasks.set k ⟨modelPath, pc⟩ }

/-- Models from the one that was used least recently on. -/
def evictionOrder (order : List String) : Bool :=
  order.isPerm s.modelLastAccessTime.keys &&
    order.Pairwise fun a b => (s.modelLastAccessTime.get? a).getD 0 ≤ (s.modelLastAccessTime.get? b).getD 0

/-- What FreeHost leads to. -/
def afterFree (ret : Option Int) : Model.FreeWait ⊕ Int → Pc
  | .inl wait => .freeWait ret wait
  | .inr freed => .returned (ret.getD freed)

/-- The error path of `ToHost` waits, or ends with -1, after which `LoadModelFromDisk` frees the memory. -/
def afterInterrupt : Option (Nat × List Nat) → Pc
  | some (r, rest) => .failing r rest
  | none => .freeHost (some (-1))

def onReplica (m : Model) (r : Nat) (f : GpuReplica → SectionEnd (Pc × GpuReplica)) (pool : PinnedMemoryPool) :
    SectionEnd (Pc × Model × PinnedMemoryPool) :=
  match m.replicas[r]? with
  | none => .blocked
  | some replica =>
    match f replica with
    | .blocked => .blocked
    | .crashed => .crashed
    | .ok (pc, replica) => .ok (pc, m.setReplica r fun _ => replica, pool)

/-- The sections that need the mutex of the model only, or none. -/
def modelSection (k : Nat) (m : Model) (pool : PinnedMemoryPool) : Pc → Choice → SectionEnd (Pc × Model × PinnedMemoryPool)
  | .toHost, .opens opens =>
    match m.toHostStart opens with
    | (.inl ret, m) => if ret ≠ 0 then .ok (.freeHost (some ret), m, pool) else .ok (.returned 0, m, pool)
    | (.inr pinned, m) => .ok (.reading pinned.id (List.range pinned.buffers.length) false, m, pool)
  | .reading id left error, .read chunkIdx ok =>
    if chunkIdx ∈ left then
      if ok then
        match m.readChunk pool.chunkSize id chunkIdx with
        | .ok m => .ok (.reading id (left.erase chunkIdx) error, m, pool)
        | .crashed => .crashed
        | .blocked => .blocked
      else .ok (.reading id (left.erase chunkIdx) true, m, pool)
    else .blocked
  | .reading _ left error, .finish order =>
    if left = [] ∨ error then
      match m.toHostEnd pool error order with
      | .ok (wait, m, pool) => .ok (if error then afterInterrupt wait else .returned 0, m, pool)
      | .crashed => .crashed
      | .blocked => .blocked
    else .blocked
  | .failing r rest, .go _ =>
    if m.replicaDone r then .ok (afterInterrupt (m.interrupt pool rest).1, (m.interrupt pool rest).2) else .blocked
  | .freeHost ret, .replicas order =>
    match m.freeHost pool order with
    | .ok (freed, m, pool) => .ok (afterFree ret freed, m, pool)
    | .crashed => .crashed
    | .blocked => .blocked
  | .freeWait ret wait, .replicas order =>
    match m.freeHostAwake pool order wait with
    | .ok (freed, m, pool) => .ok (afterFree ret freed, m, pool)
    | .crashed => .crashed
    | .blocked => .blocked
  | .toGpu replicaUuid devices pieces, .go _ =>
    match m.toGpuStart k replicaUuid devices pieces with
    | (.inl _, m) => .ok (.freeGpu replicaUuid, m, pool)
    | (.inr r, m) => .ok (.running replicaUuid r, m, pool)
  | .running replicaUuid r, .dispatch =>
    onReplica m r (fun replica =>
      match m.dispatch replica with
      | .ok replica => .ok (.running replicaUuid r, replica)
      | .crashed => .crashed
      | .blocked => .blocked) pool
  | .running replicaUuid r, .consume d =>
    onReplica m r (fun replica =>
      match m.consume replica d with
      | .ok replica => .ok (.running replicaUuid r, replica)
      | .crashed => .crashed
      | .blocked => .blocked) pool
  | .running replicaUuid r, .finish _ =>
    onReplica m r (fun replica =>
      match m.toGpuEnd replica with
      | .ok (ret, replica) => .ok (if ret ≠ 0 then .freeGpu replicaUuid else .returned 0, replica)
      | .crashed => .crashed
      | .blocked => .blocked) pool
  | .freeGpu replicaUuid, .go _ =>
    match m.freeGpu replicaUuid with
    | (some r, m) => .ok (.freeGpuWait replicaUuid r, m, pool)
    | (none, m) => .ok (.returned (-1), m, pool)
  | .freeGpuWait replicaUuid r, .go _ =>
    match m.freeGpuAwake replicaUuid r with
    | .ok m => .ok (.returned (-1), m, pool)
    | .crashed => .crashed
    | .blocked => .blocked
  | _, _ => .blocked

/-- The look-up of a call. -/
def lookup (k : Nat) (modelPath : String) (ret : Int) (pc : Pc) : Option Store :=
  if s.lockedBy = none then
    if modelPath ∈ s.modelMap.keys then some (s.goto k modelPath pc) else some (s.goto k modelPath (.returned ret))
  else none

/-- `LoadModelFromDisk` allocates the memory of its model. It gives the lock back unless it has to evict other models. -/
def allocate (k : Nat) (modelPath : String) (order : List String) (now : Nat) : Option Store :=
  match s.modelMap.get? modelPath with
  | none => none
  | some m =>
    if s.lockedBy = none ∧ s.evictionOrder order then
      let (remainingSize, m, pool) := m.allocatePinnedMemory s.memoryPool
      let s := { s with memoryPool := pool, modelMap := s.modelMap.set modelPath m }
      if remainingSize < 0 then some (s.goto k modelPath (.returned (-1)))
      else if remainingSize > 0 then some ({ s with lockedBy := some k }.goto k modelPath (.evict order remainingSize))
      else some ({ s with modelLastAccessTime := s.modelLastAccessTime.set modelPath now }.goto k modelPath .toHost)
    else none

/-- The loop over the models, until enough chunks are free: the next one is tried. -/
def evict (k : Nat) (modelPath : String) (order : List String) (memChunksNeeded : Int) : Option Store :=
  match order with
  | [] =>
    if memChunksNeeded > 0 then some ({ s with lockedBy := none }.goto k modelPath (.returned (-1)))
    else some (s.goto k modelPath .allocateAgain)
  | victim :: order =>
    match s.modelMap.get? victim with
    | none => some { s with crashed := true }
    | some m =>
      match m.tryFreeHost s.memoryPool with
      | .ok (freedChunks, m, pool) =>
        let s := { s with memoryPool := pool, modelMap := s.modelMap.set victim m }
        if freedChunks > 0 ∧ memChunksNeeded - freedChunks ≤ 0 then some (s.goto k modelPath .allocateAgain)
        else some (s.goto k modelPath (.evict order
          (if freedChunks > 0 then memChunksNeeded - freedChunks else memChunksNeeded)))
      | _ => some { s with crashed := true }

/-- The second allocation. Only a negative result is an error. -/
def allocateAgain (k : Nat) (modelPath : String) (now : Nat) : Option Store :=
  match s.modelMap.get? modelPath with
  | none => none
  | some m =>
    let (remainingSize, m, pool) := m.allocatePinnedMemory s.memoryPool
    let s := { s with memoryPool := pool, modelMap := s.modelMap.set modelPath m, lockedBy := none }
    if remainingSize < 0 then some (s.goto k modelPath (.returned (-1)))
    else some ({ s with modelLastAccessTime := s.modelLastAccessTime.set modelPath now }.goto k modelPath .toHost)

/-- A section of a task that needs the mutex of the model only. -/
def inModel (k : Nat) (modelPath : String) (pc : Pc) (choice : Choice) : Option Store :=
  match s.modelMap.get? modelPath with
  | none => none
  | some m =>
    match modelSection k m s.memoryPool pc choice with
    | .ok (pc, m, pool) => some ({ s with memoryPool := pool, modelMap := s.modelMap.set modelPath m }.goto k modelPath pc)
    | .crashed => some { s with crashed := true }
    | .blocked => none

def taskStep (k : Nat) (task : Task) (choice : Choice) : Option Store :=
  match task.pc, choice with
  | .lookupDisk, _ => s.lookup k task.modelPath (-1) .allocate
  | .allocate, .models order now => s.allocate k task.modelPath order now
  | .evict order memChunksNeeded, _ => s.evict k task.modelPath order memChunksNeeded
  | .allocateAgain, .go now => s.allocateAgain k task.modelPath now
  | .lookupMem replicaUuid devices pieces, .go now =>
    (s.lookup k task.modelPath (-1) (.toGpu replicaUuid devices pieces)).map fun s' =>
      if task.modelPath ∈ s.modelMap.keys then
        { s' with modelLastAccessTime := s'.modelLastAccessTime.set task.modelPath now }
      else s'
  | .lookupUnload, _ => s.lookup k task.modelPath 1 (.freeHost none)
  | pc, choice => s.inModel k task.modelPath pc choice

/-- What happens next, if it can. -/
def step : Action → Option Store
  | .call task => if !s.crashed ∧ task.pc.isCall then some { s with tasks := s.tasks ++ [task] } else none
  | .step k choice =>
    if s.crashed then none
    else
      match s.tasks[k]? with
      | none => none
      | some task => s.taskStep k task choice
  | .reorder freeList =>
    if freeList.isPerm s.memoryPool.freeList then
      some { s with memoryPool := { s.memoryPool with freeList := freeList } }
    else none

/-- Before any call. The models are registered, and the pool is free. -/
structure Initial : Prop where
  nodup : s.memoryPool.pool.Nodup
  freeList : s.memoryPool.freeList.Perm s.memoryPool.pool
  models : ∀ modelPath m, s.modelMap.get? modelPath = some m → ∃ modelSize h, m = .initial modelSize h
  lockedBy : s.lockedBy = none
  tasks : s.tasks = []

def run (s : Store) (actions : List Action) : Option Store := actions.foldlM step s

end Store

namespace Model

variable (m : Model)

/-- Whether a `ToHost` is at work, or the `ToGpu` of a registered replica. -/
def atWork : Bool := m.state = .loading || m.state = .interrupted || m.hasLoading

/-- Whether `TryFreeHost` leaves the memory to a `ToHost` that has failed and still waits for replicas. -/
def leavesInterrupted : Bool := m.state ≠ .interrupted || m.hasLoading

end Model

namespace Store

variable (s : Store)

/-- A `ToGpu` that makes a replica finds its model in the host memory or on the way to it. Memory is freed only when nobody is
at work on the model, and after a wait `FreeGpu` erases no replica that is loading. -/
def guardedSection (m : Model) : Pc → Bool
  | .toGpu replicaUuid _ _ => replicaUuid ∈ m.gpuReplicas.keys || m.state = .loading || m.state = .loaded
  | .freeHost _ => m.leavesInterrupted
  | .freeWait _ .load => m.leavesInterrupted
  | .freeWait _ (.replica _ rest) => rest.any (fun r => m.replicaState r = .loading) || !m.atWork
  | .freeGpuWait replicaUuid _ => (m.gpuReplicas.get? replicaUuid).all fun r => m.replicaState r ≠ .loading
  | _ => true

def guarded : Action → Bool
  | .step k _ =>
    match s.tasks[k]? with
    | none => true
    | some task =>
      match task.pc with
      | .evict (victim :: _) _ => (s.modelMap.get? victim).all leavesInterrupted
      | pc => (s.modelMap.get? task.modelPath).all fun m => guardedSection m pc
  | _ => true

/-- Whether every step of a run meets the condition. -/
def guardedRun (s : Store) : List Action → Bool
  | [] => true
  | a :: actions => s.guarded a && (s.step a).all fun s' => guardedRun s' actions

/-- `DispatchToGpu` finds what it dereferences, and the chunk that a consumer copies next was read into the memory that the
model has. -/
def CopiesRead : Prop :=
  ∀ (k : Nat) (modelPath replicaUuid : String) (r : Nat) (m : Model) (replica : GpuReplica),
    s.tasks[k]? = some ⟨modelPath, .running replicaUuid r⟩ → s.modelMap.get? modelPath = some m →
      m.replicas[r]? = some replica →
    (replica.dispatcher = .created → m.pinnedMem ≠ none) ∧
    (∀ i, replica.dispatcher = .dequeues i → m.hostPtrVector ≠ none) ∧
    ∀ d chunkIdx, copies replica d = some chunkIdx → ∃ pinned, m.pinnedMem = some pinned ∧ chunkIdx ∈ pinned.chunksRead

end Store

/-- Whether a call has returned. -/
def Pc.isReturned : Pc → Bool
  | .returned _ => true
  | _ => false

/-- What happens to a store. -/
inductive Request where
  | act (action : Action)
  /-- `RegisterModelInfo`, with the bytes that the partitions of the model have together. -/
  | registerModelInfo (modelPath : String) (modelSize : Nat)
  | clearMem
deriving DecidableEq

namespace Store

variable (s : Store)

/-- `RegisterModelInfo`. `Initialize` refuses a model of no bytes. -/
def registerModelInfo (modelPath : String) (modelSize : Nat) : Option Store :=
  if s.crashed ∨ s.lockedBy ≠ none then none
  else if modelPath ∈ s.modelMap.keys then some s
  else if h : 0 < modelSize then some { s with modelMap := s.modelMap.set modelPath (.initial modelSize h) }
  else some s

/-- The loop of `ClearMem`: `FreeHost` of one model after the other. -/
def freeModels : List Model → PinnedMemoryPool → SectionEnd (List Model × PinnedMemoryPool)
  | [], pool => .ok ([], pool)
  | m :: models, pool =>
    match m.freeHost pool (m.gpuReplicas.entries.map Prod.snd) with
    | .ok (.inr _, m, pool) =>
      match freeModels models pool with
      | .ok (models, pool) => .ok (m :: models, pool)
      | .crashed => .crashed
      | .blocked => .blocked
    | .crashed => .crashed
    | _ => .blocked

/-- `ClearMem`. The models are destroyed, with the memory that they still have. -/
def clearMem : Option Store :=
  if s.crashed ∨ s.lockedBy ≠ none ∨ ¬s.tasks.all (fun task => task.pc.isReturned) then none
  else
    match freeModels (s.modelMap.entries.map Prod.snd) s.memoryPool with
    | .ok (models, pool) =>
      some { s with memoryPool := models.foldl (fun pool m => (pool.deallocate m.buffers).2) pool, modelMap := .empty }
    | .crashed => some { s with crashed := true }
    | .blocked => none

/-- The next request, if it can be served. -/
def serve : Request → Option Store
  | .act action => s.step action
  | .registerModelInfo modelPath modelSize => s.registerModelInfo modelPath modelSize
  | .clearMem => s.clearMem

def serveAll (s : Store) (requests : List Request) : Option Store := requests.foldlM serve s

/-- Models with an access time are registered, and so are the models that an eviction is about to look up. -/
def Registered : Prop :=
  (∀ modelPath ∈ s.modelLastAccessTime.keys, modelPath ∈ s.modelMap.keys) ∧
  ∀ (k : Nat) (modelPath victim : String) (rest : List String) (memChunksNeeded : Int),
    s.tasks[k]? = some ⟨modelPath, .evict (victim :: rest) memChunksNeeded⟩ → victim ∈ s.modelMap.keys

/-- Every `ClearMem` of the requests that returns finds no access time. -/
def ClearsUnused (s : Store) (requests : List Request) : Prop :=
  ∀ pre post s₁ s₂, requests = pre ++ .clearMem :: post → s.serveAll pre = some s₁ → s₁.clearMem = some s₂ →
    s₂.crashed = false →
    s₁.modelLastAccessTime.keys = []

end Store

end ServerlessLLM
