import ServerlessLLM.Library.Dict

/-!
# The LRU cache and its map

`LRUCache` of `LRUList.h`. The nodes are in a list, the one that was used last at its head, and the map has an iterator for each
key. An iterator is the number of a node; numbers are given out as nodes are made.
-/

namespace ServerlessLLM.ModelPool

variable {κ ν : Type} [DecidableEq κ]

/-- `LRUCache`, with its nodes. -/
structure LRUCacheNodes (κ ν : Type) where
  capacity : Nat
  cache : Dict κ Nat
  lruList : List (Nat × κ × ν)
  fresh : Nat

namespace LRUCacheNodes

/-- A new cache. -/
def init (capacity : Nat) : LRUCacheNodes κ ν := ⟨capacity, .empty, [], 0⟩

variable (c : LRUCacheNodes κ ν)

/-- The node of an iterator goes to the front. -/
def moveToHead (it : Nat) : LRUCacheNodes κ ν :=
  { c with lruList := c.lruList.filter (fun node => node.1 = it) ++ c.lruList.filter fun node => node.1 ≠ it }

/-- `it->value`. -/
def valueAt (it : Nat) : Option ν := (c.lruList.find? fun node => node.1 = it).map fun node => node.2.2

/-- `it->value = value`. -/
def setValueAt (it : Nat) (value : ν) : LRUCacheNodes κ ν :=
  { c with lruList := c.lruList.map fun node => if node.1 = it then (node.1, node.2.1, value) else node }

def get (key : κ) : Option ν × LRUCacheNodes κ ν :=
  match c.cache.get? key with
  | some it => (c.valueAt it, c.moveToHead it)
  | none => (none, c)

/-- `pop_back` on the list, with its key removed from the map. -/
def popBack (node : Nat × κ × ν) : LRUCacheNodes κ ν :=
  { c with cache := c.cache.erase node.2.1, lruList := c.lruList.dropLast }

/-- What it returns, and the cache. A full cache loses its last node, and does not take the new one. -/
def put (key : κ) (value : ν) : Int × LRUCacheNodes κ ν :=
  match c.cache.get? key with
  | some it => (0, (c.setValueAt it value).moveToHead it)
  | none =>
    if c.cache.entries.length = c.capacity then
      match c.lruList.getLast? with
      | some node => (-1, c.popBack node)
      | none => (-1, c)
    else
      (0, { c with lruList := (c.fresh, key, value) :: c.lruList, cache := c.cache.set key c.fresh, fresh := c.fresh + 1 })

def remove (key : κ) : LRUCacheNodes κ ν :=
  match c.cache.get? key with
  | some it => { c with lruList := c.lruList.filter fun node => node.1 ≠ it, cache := c.cache.erase key }
  | none => c

/-- `getandRemoveLRUKey`; an empty list gives the default key. -/
def getandRemoveLRUKey [Inhabited κ] : κ × LRUCacheNodes κ ν :=
  match c.lruList.getLast? with
  | some node => (node.2.1, c.popBack node)
  | none => (default, c)

def entries : List (κ × ν) := c.lruList.map Prod.snd

end LRUCacheNodes

end ServerlessLLM.ModelPool
