import ServerlessLLM.Vram.Pool

/-!
# Partitioned bin packing: the planner

`DoublyLinkedList` of `binary_utils.h`, and `CanGroupSplit`, `BestSplitAllocate` and `RecursiveSplitAllocate` of
`GPUTensorPool_v1`. The planner only reads the pool: it cuts the stretch between the first and the last FREE region into
groups and deals the requests out to them. The worklist of groups is a linked list that is spliced while it is traversed.
-/

namespace ServerlessLLM

open Linked

/-! ## The worklist -/

/-- `DoublyLinkedList<T>`. An iterator is a node number; `none` is `end()`. -/
structure DoublyLinkedList (α : Type) where
  store : Linked.Store α
  head : Option Nat
  tail : Option Nat
  size : Nat

namespace DoublyLinkedList

variable {α : Type}

def empty [Inhabited α] : DoublyLinkedList α :=
  { store := { node := fun _ => ⟨default, none, none⟩, fresh := 0 }, head := none, tail := none, size := 0 }

/-- `*it`. -/
def get (l : DoublyLinkedList α) (i : Nat) : α := (l.store.node i).val

/-- `*it = v`. -/
def set (l : DoublyLinkedList α) (i : Nat) (v : α) : DoublyLinkedList α := { l with store := l.store.setVal i v }

/-- `++it`. -/
def next (l : DoublyLinkedList α) (i : Nat) : Option Nat := (l.store.node i).next

/-- `push_back`, that is `insert(end(), value)`. -/
def pushBack (l : DoublyLinkedList α) (v : α) : DoublyLinkedList α :=
  { store := l.store.snoc l.tail v
    head := l.head.or (some l.store.fresh)
    tail := some l.store.fresh
    size := l.size + 1 }

/-- `insert_after(it, value)`, with the iterator of the new element. -/
def insertAfter (l : DoublyLinkedList α) (pos : Nat) (v : α) : DoublyLinkedList α × Nat :=
  ({ l with
      store := l.store.insertAfter pos v
      tail := if (l.store.node pos).next = none then some l.store.fresh else l.tail
      size := l.size + 1 }, l.store.fresh)

/-- `erase(it)`. -/
def erase (l : DoublyLinkedList α) (pos : Nat) : DoublyLinkedList α :=
  if l.size = 0 then l
  else
    { store := l.store.unlink pos
      head := if (l.store.node pos).prev = none then (l.store.node pos).next else l.head
      tail := if (l.store.node pos).next = none then (l.store.node pos).prev else l.tail
      size := l.size - 1 }

def toVector (l : DoublyLinkedList α) : List α := (l.store.walk l.head).map l.get

end DoublyLinkedList

/-! ## Groups -/

/-- The regions from `start` to `stop`, and the requests to be placed there. -/
structure RegionAllocateGroup where
  start : Option NodeId
  stop : Option NodeId
  tgToLoads : List TGNeedAllocates
  skip : Bool

/-- The default constructor of `RegionAllocateGroup`. -/
def RegionAllocateGroup.empty : RegionAllocateGroup := { start := none, stop := none, tgToLoads := [], skip := false }

instance : Inhabited RegionAllocateGroup := ⟨RegionAllocateGroup.empty⟩

def TGNeedAllocates.size (tg : TGNeedAllocates) : Nat := tg.tgIndex.size

/-- The bytes a list of requests asks for. -/
def totalNeed (tgs : List TGNeedAllocates) : Nat := (tgs.map TGNeedAllocates.size).sum

/-- Each request goes to the bin with more room left if it fits there, else to the other one. `ls` and `rs`
are the requests dealt out so far. -/
def canGroupSplit : Nat → Nat → List TGNeedAllocates → List TGNeedAllocates → List TGNeedAllocates →
    Option (List TGNeedAllocates × List TGNeedAllocates)
  | _, _, [], ls, rs => some (ls, rs)
  | left, right, req :: l, ls, rs =>
    if req.size ≤ left ∧ (right ≤ left ∨ ¬req.size ≤ right) then canGroupSplit (left - req.size) right l (ls ++ [req]) rs
    else if req.size ≤ right then canGroupSplit left (right - req.size) l ls (rs ++ [req])
    else none

namespace GPUTensorPool

def freeOf (p : GPUTensorPool) (g : RegionAllocateGroup) : List NodeId :=
  match g.start, g.stop with
  | some s, some e => (p.regionsUntil (some s) (p.next e)).filter fun i => (p.region i).status = .FREE
  | _, _ => []

def sizeOf (p : GPUTensorPool) (l : List NodeId) : Nat := (l.map fun i => (p.region i).size).sum

/-- The split points of a group: between the FREE regions number `i` and `i + 1`, with the allocated bytes between them. -/
def splitPoints (p : GPUTensorPool) : Nat → List NodeId → List (Nat × Nat)
  | i, l :: r :: rest =>
    let mid := (p.regionsUntil (p.next l) (some r)).filter fun j => (p.region j).status = .ALLOCATED
    (p.sizeOf mid, i) :: splitPoints p (i + 1) (r :: rest)
  | _, _ => []

/-- The loop of `BestSplitAllocate` over the split points: the first one at which the requests can be dealt out. The free
bytes left of point `i` are those of the first `i + 1` FREE regions (the source keeps them as prefix sums). -/
def findSplit (p : GPUTensorPool) (regions : List NodeId) (reqs : List TGNeedAllocates) :
    List (Nat × Nat) → Option (Nat × List TGNeedAllocates × List TGNeedAllocates)
  | [] => none
  | sp :: sps =>
    let leftTotal := p.sizeOf (regions.take (sp.2 + 1))
    match canGroupSplit leftTotal (p.sizeOf regions - leftTotal) reqs [] [] with
    | some (ls, rs) => some (sp.2, ls, rs)
    | none => findSplit p regions reqs sps

/-- The two halves, or two empty groups where there is none. -/
def bestSplitAllocate (P : Platform) (p : GPUTensorPool) (original : RegionAllocateGroup) :
    RegionAllocateGroup × RegionAllocateGroup :=
  if original.start = none ∨ original.stop = none then (.empty, .empty)
  else if original.start = original.stop then (.empty, .empty)
  else
    let regions := p.freeOf original
    if regions.length < 2 then (.empty, .empty)
    else
      match p.findSplit regions original.tgToLoads (P.sortDesc Prod.fst (p.splitPoints 0 regions)) with
      | some (i, ls, rs) =>
        ({ start := regions.head?, stop := regions[i]?, tgToLoads := ls, skip := false },
          { start := regions[i + 1]?, stop := regions.getLast?, tgToLoads := rs, skip := false })
      | none => (.empty, .empty)

/-- The group of a single FREE region that gets no request. -/
def singleGroup (i : NodeId) : RegionAllocateGroup := { start := some i, stop := some i, tgToLoads := [], skip := true }

/-- Insert groups behind an iterator, one behind the other; returns the iterator of the last one. -/
def insertGroups (l : DoublyLinkedList RegionAllocateGroup) (pos : Nat) :
    List RegionAllocateGroup → DoublyLinkedList RegionAllocateGroup × Nat
  | [] => (l, pos)
  | g :: gs =>
    let (l, pos) := l.insertAfter pos g
    insertGroups l pos gs

/-- The groups that take the place of a split group: a half without requests is taken apart into its FREE regions. -/
def splitGroups (p : GPUTensorPool) (left right : RegionAllocateGroup) : List RegionAllocateGroup :=
  if left.tgToLoads.isEmpty then (p.freeOf left).map singleGroup ++ [right]
  else if right.tgToLoads.isEmpty then left :: (p.freeOf right).map singleGroup
  else [left, right]

/-- One pass of `RecursiveSplitAllocate` over the worklist, from an iterator on; `splitOccurred` is the flag so far. `none`
means that the fuel did not last to the end of the list. -/
def splitPass (P : Platform) (p : GPUTensorPool) :
    Nat → Option Nat → Bool → DoublyLinkedList RegionAllocateGroup → Option (Bool × DoublyLinkedList RegionAllocateGroup)
  | _, none, splitOccurred, l => some (splitOccurred, l)
  | 0, some _, _, _ => none
  | fuel + 1, some g, splitOccurred, l =>
    let group := l.get g
    if group.skip then splitPass P p fuel (l.next g) splitOccurred l
    else if group.start = group.stop then splitPass P p fuel (l.next g) splitOccurred l
    else
      let (left, right) := p.bestSplitAllocate P group
      if left.tgToLoads.isEmpty && right.tgToLoads.isEmpty then
        let l := l.set g { group with skip := true }
        splitPass P p fuel (l.next g) splitOccurred l
      else
        let (l, last) := insertGroups l g (p.splitGroups left right)
        -- the old group is erased once the new ones stand behind it; the traversal goes on behind the last of them
        let l := l.erase g
        splitPass P p fuel (l.next last) true l

/-- The loop of `RecursiveSplitAllocate`: passes until one splits nothing. `none` means that the fuel did not last. -/
def splitLoop (P : Platform) (p : GPUTensorPool) :
    Nat → DoublyLinkedList RegionAllocateGroup → Option (DoublyLinkedList RegionAllocateGroup)
  | 0, _ => none
  | fuel + 1, l =>
    match p.splitPass P l.size l.head false l with
    | none => none
    | some (true, l) => splitLoop P p fuel l
    | some (false, l) => some l

/-- `RecursiveSplitAllocate`. Every pass that splits makes a group smaller, so one pass more than there are regions is
enough fuel; `none` would be a run that does not end. -/
def recursiveSplitAllocate (P : Platform) (p : GPUTensorPool) (tgToLoads : List TGNeedAllocates) :
    Option (List RegionAllocateGroup) :=
  if tgToLoads.isEmpty then some []
  else
    let free := p.regions.filter fun i => (p.region i).status = .FREE
    let initial : RegionAllocateGroup :=
      { start := free.head?, stop := free.getLast?
        tgToLoads := P.sortDesc TGNeedAllocates.size tgToLoads, skip := false }
    (p.splitLoop P (p.store.fresh + 1) (DoublyLinkedList.empty.pushBack initial)).map DoublyLinkedList.toVector

end GPUTensorPool

end ServerlessLLM
