import ServerlessLLM.Vram.Pool

/-!
# Compaction

`MergeRegions`, `GreedyMerge` and `GlobalDeFrag` of `GPUTensorPool_v1`: they slide allocated regions to the left, so that the
free bytes of a part of the list, or of the whole list, end up in one FREE region.
-/

namespace ServerlessLLM

open Linked Region

namespace GPUTensorPool

/-! ## `MergeRegions` -/

/-- The loop of `MergeRegions` that moves data: returns whether it reached its end, the address behind the last region, the
bytes moved and the pool. -/
def slideRegions (P : Platform) (isDoMove : Bool) :
    List NodeId → Nat → Nat → GPUTensorPool → Bool × Nat × Nat × GPUTensorPool
  | [], currentAddr, moveCost, p => (true, currentAddr, moveCost, p)
  | i :: l, currentAddr, moveCost, p =>
    let r := p.region i
    if r.addr ≠ currentAddr ∧ isDoMove = true then
      let (ok, d) := cudaSafeMove P p.device currentAddr r.addr r.size
      let p := { p with device := d }
      if ok then
        slideRegions P isDoMove l (currentAddr + r.size) (moveCost + r.size) (p.setRegion i (r.setAddr currentAddr))
      else (false, currentAddr, moveCost, p)
    else slideRegions P isDoMove l (currentAddr + r.size) moveCost (p.setRegion i (r.setAddr currentAddr))

/-- The end of `MergeRegions`: link the allocated regions to each other, and behind them one new FREE region. -/
def relinkMerged (p : GPUTensorPool) (prevBefore nextAfter : Option NodeId) (tmp : List NodeId) (addr size : Nat) :
    NodeId × GPUTensorPool :=
  let s := p.store.relink prevBefore nextAfter tmp
  let free := s.fresh
  let s := s.alloc ⟨mk' addr size, none, none⟩
  let s := (s.setNext tmp.getLast? (some free)).setPrev (some free) (tmp.getLast?.or prevBefore)
  let s := (s.setNext (some free) nextAfter).setPrev nextAfter (some free)
  let front := tmp.head?.getD free
  match prevBefore with
  | some q => (free, { p with store := s.setNext (some q) (some front) })
  | none => (free, { p with store := s, memoryRegions := some front })

/-- The merged FREE region, or `none` where the source returns `nullptr`. -/
def mergeRegions (P : Platform) (p : GPUTensorPool) (regionStart regionEnd : Option NodeId) (isDoMove : Bool) :
    Option NodeId × GPUTensorPool :=
  match regionStart, regionEnd with
  | some s, some e =>
    if s = e then (some s, { p with moveDataVolume := p.moveDataVolume ++ [0] })
    else
      let prevBefore := p.prev s
      let nextAfter := p.next e
      let window := p.regionsUntil (some s) nextAfter
      if window.any fun i => (p.region i).status = .LOADING then (none, p)
      else
        let freeRegionSize := (window.map fun i => if (p.region i).status = .FREE then (p.region i).size else 0).sum
        if freeRegionSize = 0 then (none, p)
        else
          let tmp := window.filter fun i => (p.region i).status = .ALLOCATED
          let (ok, currentAddr, moveCost, p) := slideRegions P isDoMove tmp (p.region s).addr 0 p
          if ok then
            let (free, p) := p.relinkMerged prevBefore nextAfter tmp currentAddr freeRegionSize
            (some free, { p with moveDataVolume := p.moveDataVolume ++ [moveCost] })
          -- the regions before the failing one keep their new addresses, and the list is not relinked
          else (none, p)
  | _, _ => (none, p)

/-! ## `GreedyMerge` -/

/-- The inner loop of `GreedyMerge`: the first end of a window, from a given start, that holds `n` free bytes, with the bytes
of the other regions of the window. A LOADING region ends the search. -/
def windowEnd (p : GPUTensorPool) (n : Nat) : List NodeId → Nat → Nat → Option (NodeId × Nat)
  | [], _, _ => none
  | e :: l, freeSum, moveCost =>
    let r := p.region e
    if r.status = .LOADING then none
    else
      let freeSum := if r.status = .FREE then freeSum + r.size else freeSum
      let moveCost := if r.status = .FREE then moveCost else moveCost + r.size
      if n ≤ freeSum then some (e, moveCost) else windowEnd p n l freeSum moveCost

/-- The outer loop of `GreedyMerge`: the window of least move cost, the first one among equals. `none` stands for the
initial cost `SIZE_MAX`, which every window improves on. -/
def bestWindow (p : GPUTensorPool) (n : Nat) :
    List NodeId → Option (NodeId × NodeId × Nat) → Option (NodeId × NodeId × Nat)
  | [], best => best
  | s :: l, best =>
    if (p.region s).status ≠ .FREE then bestWindow p n l best
    else
      match p.windowEnd n (s :: l) 0 0 with
      | none => bestWindow p n l best
      | some (e, moveCost) =>
        match best with
        | none => bestWindow p n l (some (s, e, moveCost))
        | some b => bestWindow p n l (if moveCost < b.2.2 then some (s, e, moveCost) else some b)

/-- The first FREE region of at least `n` bytes. -/
def firstFit (p : GPUTensorPool) (n : Nat) : Option NodeId :=
  p.regions.find? fun i => (p.region i).status = .FREE ∧ n ≤ (p.region i).size

/-- The window `[best_s, best_e]` that `GreedyMerge(n)` merges: none when a FREE region is large enough, or when the free
bytes do not reach `n`. -/
def mergeWindow (p : GPUTensorPool) (n : Nat) : Option (NodeId × NodeId) :=
  if (p.firstFit n).isSome ∨ p.getFreeSize < n then none
  else (p.bestWindow n p.regions none).map fun b => (b.1, b.2.1)

/-- `GreedyMerge` of the pool. -/
def greedyMerge (P : Platform) (p : GPUTensorPool) (n : Nat) : Option NodeId × GPUTensorPool :=
  match p.firstFit n with
  | some i => (some i, p)
  | none =>
    match p.mergeWindow n with
    | none => (none, p)
    | some (s, e) => p.mergeRegions P (some s) (some e) true

/-! ## `GlobalDeFrag` -/

/-- The loop of `GlobalDeFrag` over the allocated regions: a new node for each, linked behind the one before. Returns whether
it reached its end, the address behind the last region, the last and the first new node, the bytes moved and the pool. -/
def deFragLoop (P : Platform) :
    List Region → Nat → Option NodeId → Option NodeId → Nat → GPUTensorPool →
      Bool × Nat × Option NodeId × Option NodeId × Nat × GPUTensorPool
  | [], currentAddr, prev, head, moved, p => (true, currentAddr, prev, head, moved, p)
  | r :: l, currentAddr, prev, head, moved, p =>
    let new := p.store.fresh
    let p := { p with store := p.store.snoc prev (r.setAddr currentAddr) }
    let head := head.or (some new)
    let (ok, d) := if r.addr ≠ currentAddr then cudaSafeMove P p.device currentAddr r.addr r.size else (true, p.device)
    let p := { p with device := d }
    if ok then
      let p := if r.fingerprint ≠ "" then
          { p with allocatedRegions := Function.update p.allocatedRegions r.fingerprint (some new) }
        else p
      deFragLoop P l (currentAddr + r.size) (some new) head (if r.addr ≠ currentAddr then moved + r.size else moved) p
    else (false, currentAddr, prev, head, moved, p)

/-- 0 when every move succeeded, 1 otherwise. -/
def globalDeFrag (P : Platform) (p : GPUTensorPool) : Int × GPUTensorPool :=
  match p.memoryRegions with
  | none => (1, p)
  | some h =>
    let infos := p.regions.map p.region
    let totalFree := ((infos.filter fun r => r.status ≠ .ALLOCATED).map size).sum
    let (ok, currentAddr, prev, head, moved, p) :=
      deFragLoop P (infos.filter fun r => r.status = .ALLOCATED) (p.region h).addr none none 0 p
    if ok then
      let (head, p) :=
        if 0 < totalFree then
          (head.or (some p.store.fresh), { p with store := p.store.snoc prev (mk' currentAddr totalFree) })
        else (head, p)
      (0, { p with memoryRegions := head, moveDataVolume := p.moveDataVolume ++ [moved] })
    else (1, p)

end GPUTensorPool

end ServerlessLLM
