import ServerlessLLM.Vram.Pool

/-!
# The regions of a pool as a list

The abstract state of a tensor pool: the list of its regions in address order, each with the number of its node. The
operations of the pool are described here on such lists, without pointers: what freeing a region makes of the list
(`freeCells`) and what cutting a region does (`cutCells`). `Lemmas/PoolOps.lean` shows that the pointer operations do the same.
-/

namespace ServerlessLLM

open Linked List Region

abbrev Cell := NodeId × Region

/-- The regions tile `[a, b)`: each starts where the one before it ends, and none is empty. -/
def IsTiling (a : Nat) (l : List Cell) (b : Nat) : Prop :=
  Tiling.Tiles (fun c : Cell => c.2.addr) (fun c => c.2.size) a l b

variable {a b : Nat} {c : Cell} {l l' : List Cell} {y : Cell} {C A : List Cell} {x : Cell} {f : Cell → Bool}
  {size : Nat} (fresh : Nat) (fp : String) (m : Option RegisteredModel)

theorem isTiling_nil : IsTiling a [] b ↔ a = b := Iff.rfl

theorem isTiling_cons : IsTiling a (c :: l) b ↔ c.2.addr = a ∧ 0 < c.2.size ∧ IsTiling (a + c.2.size) l b := Iff.rfl

theorem isTiling_append : IsTiling a (l ++ l') b ↔ ∃ m, IsTiling a l m ∧ IsTiling m l' b := Tiling.tiles_append_iff

def allocatedOf (l : List Cell) : List Cell := l.filter fun c => c.2.status = .ALLOCATED

def occupiedOf (l : List Cell) : List Cell := l.filter fun c => c.2.status ≠ .FREE

def freeBytes (l : List Cell) : Nat := Tiling.total (fun c : Cell => if c.2.status = .FREE then c.2.size else 0) l

/-- No two neighbours are both FREE. -/
def NoAdjacentFree (l : List Cell) : Prop := l.IsChain fun c d => ¬(c.2.status = .FREE ∧ d.2.status = .FREE)

def NoLoading (l : List Cell) : Prop := ∀ c ∈ l, c.2.status ≠ .LOADING

@[simp] theorem allocatedOf_nil : allocatedOf [] = [] := rfl
@[simp] theorem allocatedOf_append (l l' : List Cell) : allocatedOf (l ++ l') = allocatedOf l ++ allocatedOf l' := by
  simp [allocatedOf]

theorem allocatedOf_cons (c : Cell) (l : List Cell) :
    allocatedOf (c :: l) = if c.2.status = .ALLOCATED then c :: allocatedOf l else allocatedOf l := by
  simp [allocatedOf, filter_cons]

theorem mem_allocatedOf : c ∈ allocatedOf l ↔ c ∈ l ∧ c.2.status = .ALLOCATED := by
  simp [allocatedOf]

@[simp] theorem freeBytes_nil : freeBytes [] = 0 := rfl
@[simp] theorem freeBytes_append (l l' : List Cell) : freeBytes (l ++ l') = freeBytes l + freeBytes l' := by
  simp [freeBytes]

theorem freeBytes_cons (c : Cell) (l : List Cell) :
    freeBytes (c :: l) = (if c.2.status = .FREE then c.2.size else 0) + freeBytes l := by
  simp [freeBytes]

theorem noLoading_append : NoLoading (l ++ l') ↔ NoLoading l ∧ NoLoading l' := by
  simp [NoLoading, or_imp, forall_and]

theorem noLoading_cons : NoLoading (c :: l) ↔ c.2.status ≠ .LOADING ∧ NoLoading l := by
  simp [NoLoading]

theorem noAdjacentFree_append :
    NoAdjacentFree (l ++ l') ↔ NoAdjacentFree l ∧ NoAdjacentFree l' ∧
      ∀ c ∈ l.getLast?, ∀ d ∈ l'.head?, ¬(c.2.status = .FREE ∧ d.2.status = .FREE) :=
  isChain_append

theorem noAdjacentFree_cons :
    NoAdjacentFree (c :: l) ↔ (∀ d ∈ l.head?, ¬(c.2.status = .FREE ∧ d.2.status = .FREE)) ∧ NoAdjacentFree l := by
  rw [NoAdjacentFree, isChain_cons]
  rfl

/-! ## Freeing a region -/

/-- A FREE region takes in the one behind it, when that one is FREE. -/
def absorbRight (y : Cell) : List Cell → List Cell
  | [] => [y]
  | n :: C => if n.2.status = .FREE then (y.1, y.2.setSize (y.2.size + n.2.size)) :: C else y :: n :: C

/-- The region before takes in a FREE region, when it is FREE itself. -/
def absorbLeft (A : List Cell) (y : Cell) : List Cell × Cell :=
  match A.getLast? with
  | some q => if q.2.status = .FREE then (A.dropLast, (q.1, q.2.setSize (q.2.size + y.2.size))) else (A, y)
  | none => (A, y)

def Cell.freed (x : Cell) : Cell := (x.1, x.2.setStatus .FREE)

/-- The list after the region between `A` and `C` was freed. -/
def freeCells (A : List Cell) (x : Cell) (C : List Cell) : List Cell :=
  (absorbLeft A x.freed).1 ++ absorbRight (absorbLeft A x.freed).2 C

@[simp] theorem absorbLeft_nil (y : Cell) : absorbLeft [] y = ([], y) := rfl

theorem absorbLeft_concat (A : List Cell) (q y : Cell) :
    absorbLeft (A ++ [q]) y = if q.2.status = .FREE then (A, (q.1, q.2.setSize (q.2.size + y.2.size))) else (A ++ [q], y) := by
  simp [absorbLeft]

theorem isTiling_absorbRight (h : IsTiling a (y :: C) b) : IsTiling a (absorbRight y C) b := by
  cases C with
  | nil => exact h
  | cons n C =>
    simp only [absorbRight]
    split
    · obtain ⟨h1, h2, h3⟩ := isTiling_cons.1 h
      obtain ⟨-, h4, h5⟩ := isTiling_cons.1 h3
      exact isTiling_cons.2 ⟨h1, Nat.add_pos_left h2 _, by simpa only [setSize_size, Nat.add_assoc] using h5⟩
    · exact h

theorem isTiling_absorbLeft (h : IsTiling a (A ++ y :: C) b) :
    IsTiling a ((absorbLeft A y).1 ++ (absorbLeft A y).2 :: C) b := by
  rcases eq_nil_or_concat A with rfl | ⟨A, q, rfl⟩
  · exact h
  · rw [concat_eq_append, absorbLeft_concat] at *
    split
    · rw [append_assoc] at h
      obtain ⟨m, h1, h2⟩ := isTiling_append.1 h
      obtain ⟨h3, h4, h5⟩ := isTiling_cons.1 h2
      obtain ⟨-, -, h6⟩ := isTiling_cons.1 h5
      refine isTiling_append.2 ⟨m, h1, isTiling_cons.2 ⟨h3, Nat.add_pos_left h4 _, ?_⟩⟩
      simpa only [setSize_size, Nat.add_assoc] using h6
    · exact h

theorem isTiling_freeCells (h : IsTiling a (A ++ x :: C) b) : IsTiling a (freeCells A x C) b := by
  have h1 : IsTiling a (A ++ x.freed :: C) b := by
    refine Tiling.Tiles.of_map_eq h ?_
    simp [Cell.freed]
  obtain ⟨m, h2, h3⟩ := isTiling_append.1 (isTiling_absorbLeft h1)
  exact isTiling_append.2 ⟨m, h2, isTiling_absorbRight h3⟩

theorem filter_absorbRight (hf : ∀ c : Cell, c.2.status = .FREE → f c = false)
    (hy : y.2.status = .FREE) : (absorbRight y C).filter f = C.filter f := by
  cases C with
  | nil => simp [absorbRight, hf y hy]
  | cons n C =>
    by_cases hn : n.2.status = .FREE
    · have hz : f (y.1, y.2.setSize (y.2.size + n.2.size)) = false := hf _ hy
      simp [absorbRight, hn, hf n hn, hz]
    · simp [absorbRight, hn, hf y hy]

theorem absorbLeft_status (hy : y.2.status = .FREE) : (absorbLeft A y).2.2.status = .FREE := by
  rcases eq_nil_or_concat A with rfl | ⟨A, q, rfl⟩
  · exact hy
  · rw [concat_eq_append, absorbLeft_concat]
    split
    · assumption
    · exact hy

theorem filter_absorbLeft (hf : ∀ c : Cell, c.2.status = .FREE → f c = false) : (absorbLeft A y).1.filter f = A.filter f := by
  rcases eq_nil_or_concat A with rfl | ⟨A, q, rfl⟩
  · rfl
  · rw [concat_eq_append, absorbLeft_concat]
    by_cases hq : q.2.status = .FREE
    · simp [hq, hf q hq]
    · simp [hq]

theorem filter_freeCells (hf : ∀ c : Cell, c.2.status = .FREE → f c = false) (A C : List Cell) (x : Cell) :
    (freeCells A x C).filter f = A.filter f ++ C.filter f := by
  rw [freeCells, filter_append, filter_absorbLeft hf, filter_absorbRight hf (absorbLeft_status rfl)]

theorem allocatedOf_eq_filter (l : List Cell) : allocatedOf l = (occupiedOf l).filter fun c => c.2.status = .ALLOCATED := by
  rw [occupiedOf, filter_filter]
  refine filter_congr fun c _ => ?_
  cases c.2.status <;> rfl

theorem allocatedOf_absorbLeft : allocatedOf (absorbLeft A y).1 = allocatedOf A := filter_absorbLeft fun c hc => by simp [hc]

theorem allocatedOf_freeCells (A C : List Cell) (x : Cell) : allocatedOf (freeCells A x C) = allocatedOf A ++ allocatedOf C :=
  filter_freeCells (fun c hc => by simp [hc]) A C x

theorem freeBytes_absorbRight (hy : y.2.status = .FREE) : freeBytes (absorbRight y C) = y.2.size + freeBytes C := by
  cases C with
  | nil => simp [absorbRight, freeBytes_cons, hy]
  | cons n C =>
    by_cases hn : n.2.status = .FREE <;> simp [absorbRight, freeBytes_cons, hy, hn, Nat.add_assoc]

theorem freeBytes_absorbLeft : freeBytes (absorbLeft A y).1 + (absorbLeft A y).2.2.size = freeBytes A + y.2.size := by
  rcases eq_nil_or_concat A with rfl | ⟨A, q, rfl⟩
  · rfl
  · rw [concat_eq_append, absorbLeft_concat]
    by_cases hq : q.2.status = .FREE <;> simp [freeBytes_cons, hq, Nat.add_assoc]

theorem freeBytes_freeCells (A C : List Cell) (x : Cell) :
    freeBytes (freeCells A x C) = freeBytes A + x.2.size + freeBytes C := by
  have h := freeBytes_absorbLeft (A := A) (y := x.freed)
  rw [freeCells, freeBytes_append, freeBytes_absorbRight (absorbLeft_status rfl), ← Nat.add_assoc, h]
  rfl

theorem noLoading_freeCells (h : NoLoading (A ++ x :: C)) : NoLoading (freeCells A x C) := by
  rw [noLoading_append, noLoading_cons] at h
  obtain ⟨hA, -, hC⟩ := h
  have h1 : NoLoading (absorbLeft A x.freed).1 := by
    rcases eq_nil_or_concat A with rfl | ⟨A, q, rfl⟩
    · exact hA
    · rw [concat_eq_append, absorbLeft_concat] at *
      split
      · exact (noLoading_append.1 hA).1
      · exact hA
  have h2 : (absorbLeft A x.freed).2.2.status = .FREE := absorbLeft_status rfl
  refine noLoading_append.2 ⟨h1, ?_⟩
  generalize (absorbLeft A x.freed).2 = y at h2
  cases C with
  | nil => exact noLoading_cons.2 ⟨by simp [h2], by simp [NoLoading]⟩
  | cons n C =>
    simp only [absorbRight]
    split
    · exact noLoading_cons.2 ⟨by simp [h2], (noLoading_cons.1 hC).2⟩
    · exact noLoading_cons.2 ⟨by simp [h2], hC⟩

theorem absorbLeft_last (h : NoAdjacentFree A) : ∀ c ∈ (absorbLeft A y).1.getLast?, c.2.status ≠ .FREE := by
  rcases eq_nil_or_concat A with rfl | ⟨A, q, rfl⟩
  · simp
  · rw [concat_eq_append, absorbLeft_concat] at *
    intro c hc
    by_cases hq : q.2.status = .FREE
    · simp only [hq, if_true] at hc
      exact fun hf => (noAdjacentFree_append.1 h).2.2 c hc q (by simp) ⟨hf, hq⟩
    · simp only [hq, if_false, List.getLast?_concat, Option.mem_def, Option.some.injEq] at hc
      exact hc ▸ hq

theorem noAdjacentFree_absorbLeft (h : NoAdjacentFree A) : NoAdjacentFree (absorbLeft A y).1 := by
  rcases eq_nil_or_concat A with rfl | ⟨A, q, rfl⟩
  · exact h
  · rw [concat_eq_append, absorbLeft_concat] at *
    split
    · exact (noAdjacentFree_append.1 h).1
    · exact h

theorem noAdjacentFree_absorbRight (h : NoAdjacentFree C) : NoAdjacentFree (absorbRight y C) := by
  cases C with
  | nil => exact isChain_singleton y
  | cons n C =>
    by_cases hn : n.2.status = .FREE
    · simp only [absorbRight, hn, if_true]
      obtain ⟨h1, h2⟩ := noAdjacentFree_cons.1 h
      exact noAdjacentFree_cons.2 ⟨fun d hd hb => h1 d hd ⟨hn, hb.2⟩, h2⟩
    · simp only [absorbRight, hn, if_false]
      exact noAdjacentFree_cons.2 ⟨fun d hd hb => hn (by simp at hd; exact hd ▸ hb.2), h⟩

theorem noAdjacentFree_freeCells (h : NoAdjacentFree (A ++ x :: C)) : NoAdjacentFree (freeCells A x C) := by
  obtain ⟨hA, hC, -⟩ := noAdjacentFree_append.1 h
  refine noAdjacentFree_append.2 ⟨noAdjacentFree_absorbLeft hA, noAdjacentFree_absorbRight (noAdjacentFree_cons.1 hC).2, ?_⟩
  exact fun c hc d _ hb => absorbLeft_last hA c hc hb.1

/-! ## Cutting a region -/

/-- What cutting `size` bytes off a FREE region makes of it: the allocated region, and the rest if there is one. -/
def cutCells (x : Cell) (fresh size : Nat) (fingerprint : String) (modelRef : Option RegisteredModel) : List Cell :=
  (x.1, { status := .ALLOCATED, addr := x.2.addr, size := size, fingerprint := fingerprint, modelRef := modelRef }) ::
    if size < x.2.size then [(fresh, mk' (x.2.addr + size) (x.2.size - size))] else []

theorem isTiling_cutCells {fresh : Nat} {fp : String}
    {m : Option RegisteredModel} (h : IsTiling a (A ++ x :: C) b) (h0 : 0 < size) (hs : size ≤ x.2.size) :
    IsTiling a (A ++ cutCells x fresh size fp m ++ C) b := by
  obtain ⟨n, h1, h2⟩ := isTiling_append.1 h
  obtain ⟨h3, h4, h5⟩ := isTiling_cons.1 h2
  rw [append_assoc]
  refine isTiling_append.2 ⟨n, h1, ?_⟩
  rw [cutCells, cons_append]
  refine isTiling_cons.2 ⟨h3, h0, ?_⟩
  by_cases hlt : size < x.2.size
  · have hn : n + size + (x.2.size - size) = n + x.2.size := by omega
    rw [if_pos hlt, singleton_append]
    refine isTiling_cons.2 ⟨by simp [mk', h3], Nat.sub_pos_of_lt hlt, ?_⟩
    simpa only [mk', hn] using h5
  · obtain rfl : size = x.2.size := by omega
    rw [if_neg hlt]
    exact h5

theorem allocatedOf_cutCells (x : Cell) (fresh size : Nat) (fp : String) (m : Option RegisteredModel) :
    allocatedOf (cutCells x fresh size fp m) =
      [(x.1, { status := .ALLOCATED, addr := x.2.addr, size := size, fingerprint := fp, modelRef := m })] := by
  by_cases hlt : size < x.2.size <;> simp [cutCells, hlt, allocatedOf_cons, mk']

theorem freeBytes_cutCells (hs : size ≤ x.2.size) : freeBytes (cutCells x fresh size fp m) + size = x.2.size := by
  by_cases hlt : size < x.2.size
  · simp [cutCells, hlt, freeBytes_cons, mk']
    omega
  · simp [cutCells, hlt, freeBytes_cons]
    omega

theorem noLoading_cutCells (x : Cell) (fresh size : Nat) (fp : String) (m : Option RegisteredModel) :
    NoLoading (cutCells x fresh size fp m) := by
  by_cases hlt : size < x.2.size <;> simp [cutCells, hlt, NoLoading, mk']

theorem noAdjacentFree_cutCells {fresh : Nat} {fp : String}
    {m : Option RegisteredModel} (h : NoAdjacentFree (A ++ x :: C)) (hx : x.2.status = .FREE) :
    NoAdjacentFree (A ++ cutCells x fresh size fp m ++ C) := by
  obtain ⟨hA, hxC, -⟩ := noAdjacentFree_append.1 h
  obtain ⟨hC, hC'⟩ := noAdjacentFree_cons.1 hxC
  have hhead : ∀ c ∈ C.head?, c.2.status ≠ .FREE := fun c hc hf => hC c hc ⟨hx, hf⟩
  rw [append_assoc]
  refine noAdjacentFree_append.2 ⟨hA, ?_, ?_⟩
  · by_cases hlt : size < x.2.size
    · simp only [cutCells, hlt, if_true, cons_append, nil_append]
      refine noAdjacentFree_cons.2 ⟨by simp, noAdjacentFree_cons.2 ⟨?_, hC'⟩⟩
      exact fun d hd hb => hhead d hd hb.2
    · simp only [cutCells, hlt, if_false, cons_append, nil_append]
      exact noAdjacentFree_cons.2 ⟨by simp, hC'⟩
  · intro c _ d hd hb
    simp only [cutCells, cons_append, List.head?_cons, Option.mem_def, Option.some.injEq] at hd
    subst hd
    exact absurd hb.2 (by simp)

end ServerlessLLM
