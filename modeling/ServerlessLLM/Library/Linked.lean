import Mathlib.Data.List.Nodup
import Mathlib.Data.List.Perm.Subperm

/-!
# Doubly linked lists in a store of nodes

A store maps node numbers to nodes; a node holds a value and the numbers of its neighbours. `Rep s l` says that the store
holds the list `l` of numbered values as a doubly linked list: every node of `l` has its value and points to its neighbours
in `l`, and to nothing at the two ends. Each operation that a program makes by writing a few pointers has one lemma here that
says which list the store holds afterwards. Nothing is said of nodes that are not in the list: a program may leave unlinked
nodes behind, and go on reading their stale pointers.
-/

namespace Linked

open List Function Option

/-- A node: a value and the numbers of its neighbours (`none` is the null pointer). -/
structure Node (α : Type) where
  val : α
  prev : Option Nat
  next : Option Nat

/-- A store of nodes. The nodes numbered from `fresh` on were never allocated. -/
structure Store (α : Type) where
  node : Nat → Node α
  fresh : Nat

variable {α : Type}

/-! ## Writing one field -/

/-- Write the value of a node. -/
def Store.setVal (s : Store α) (i : Nat) (v : α) : Store α :=
  { s with node := update s.node i { s.node i with val := v } }

/-- Write the `prev` pointer of a node, if there is one. -/
def Store.setPrev (s : Store α) (o p : Option Nat) : Store α :=
  match o with
  | none => s
  | some i => { s with node := update s.node i { s.node i with prev := p } }

/-- Write the `next` pointer of a node, if there is one. -/
def Store.setNext (s : Store α) (o n : Option Nat) : Store α :=
  match o with
  | none => s
  | some i => { s with node := update s.node i { s.node i with next := n } }

/-- Allocate a node; its number is the old value of `fresh`. -/
def Store.alloc (s : Store α) (n : Node α) : Store α :=
  { node := update s.node s.fresh n, fresh := s.fresh + 1 }

open Store
variable (s : Store α) (o : Option Nat) (c : Nat × α) (l : List (Nat × α))

@[simp] theorem Store.setVal_fresh (i : Nat) (v : α) : (s.setVal i v).fresh = s.fresh := rfl

@[simp] theorem Store.setPrev_fresh (p : Option Nat) : (s.setPrev o p).fresh = s.fresh := by
  cases o <;> rfl

@[simp] theorem Store.setNext_fresh (n : Option Nat) : (s.setNext o n).fresh = s.fresh := by
  cases o <;> rfl

@[simp] theorem Store.alloc_fresh (n : Node α) : (s.alloc n).fresh = s.fresh + 1 := rfl

theorem Store.setVal_node (i j : Nat) (v : α) :
    (s.setVal i v).node j = if j = i then { s.node i with val := v } else s.node j := by
  simp [setVal, update_apply]

theorem Store.setPrev_node (p : Option Nat) (j : Nat) :
    (s.setPrev o p).node j = if o = some j then { s.node j with prev := p } else s.node j := by
  cases o with
  | none => simp [setPrev]
  | some i =>
    by_cases h : j = i
    · subst h; simp [setPrev]
    · simp [setPrev, h, Ne.symm h]

theorem Store.setNext_node (n : Option Nat) (j : Nat) :
    (s.setNext o n).node j = if o = some j then { s.node j with next := n } else s.node j := by
  cases o with
  | none => simp [setNext]
  | some i =>
    by_cases h : j = i
    · subst h; simp [setNext]
    · simp [setNext, h, Ne.symm h]

theorem Store.alloc_node (n : Node α) (j : Nat) : (s.alloc n).node j = if j = s.fresh then n else s.node j := by
  simp [alloc, update_apply]

/-- Link the nodes of a list to each other in order, with `before` and `after` at the two ends. -/
def Store.relink (s : Store α) (before after : Option Nat) : List Nat → Store α
  | [] => s
  | i :: l => ((s.setPrev (some i) before).setNext (some i) (l.head?.or after)).relink (some i) after l

/-! ## The numbers at the ends of a list -/

/-- The number of the first node of a list of numbered values. -/
def first (l : List (Nat × α)) : Option Nat := l.head?.map Prod.fst

/-- The number of the last node of a list of numbered values. -/
def last (l : List (Nat × α)) : Option Nat := l.getLast?.map Prod.fst

/-- The numbers of a list of numbered values. -/
def ids (l : List (Nat × α)) : List Nat := l.map Prod.fst

@[simp] theorem first_nil : first ([] : List (Nat × α)) = none := rfl
@[simp] theorem first_cons : first (c :: l) = some c.1 := rfl
@[simp] theorem last_nil : last ([] : List (Nat × α)) = none := rfl
@[simp] theorem ids_nil : ids ([] : List (Nat × α)) = [] := rfl
@[simp] theorem ids_cons : ids (c :: l) = c.1 :: ids l := rfl
@[simp] theorem ids_append (l' : List (Nat × α)) : ids (l ++ l') = ids l ++ ids l' := by simp [ids]

variable {i : Nat} {p n : Option Nat}

variable {l : List (Nat × α)} {c : Nat × α} {s s' : Store α} {A C : List (Nat × α)} {x : Nat × α} {B : List (Nat × α)}

theorem mem_ids : i ∈ ids l ↔ ∃ c ∈ l, c.1 = i := by simp [ids]

theorem mem_ids_of_mem (h : c ∈ l) : c.1 ∈ ids l := mem_ids.2 ⟨c, h, rfl⟩

@[simp] theorem first_append (l l' : List (Nat × α)) : first (l ++ l') = (first l).or (first l') := by
  cases l <;> simp

@[simp] theorem last_append (l l' : List (Nat × α)) : last (l ++ l') = (last l').or (last l) := by
  rcases eq_nil_or_concat l' with rfl | ⟨l'', c, rfl⟩
  · simp
  · simp [last, ← append_assoc]

@[simp] theorem last_singleton (c : Nat × α) : last [c] = some c.1 := rfl

theorem last_cons (c : Nat × α) (l : List (Nat × α)) : last (c :: l) = (last l).or (some c.1) := by
  rw [← singleton_append, last_append, last_singleton]

theorem mem_ids_of_first (h : first l = some i) : i ∈ ids l := by
  cases l with
  | nil => simp at h
  | cons c l => simp at h; simp [h]

theorem mem_ids_of_last (h : last l = some i) : i ∈ ids l := by
  rcases eq_nil_or_concat l with rfl | ⟨l', c, rfl⟩
  · simp at h
  · simp at h; simp [h]

/-! ## Linked segments -/

/-- The nodes of `l` hold its values and are linked to each other in order; before the first stands `p`, after the last `n`. -/
def Links (s : Store α) : Option Nat → List (Nat × α) → Option Nat → Prop
  | _, [], _ => True
  | p, c :: l, n => s.node c.1 = ⟨c.2, p, (first l).or n⟩ ∧ Links s (some c.1) l n

theorem links_append (s : Store α) (p n : Option Nat) (l l' : List (Nat × α)) :
    Links s p (l ++ l') n ↔ Links s p l ((first l').or n) ∧ Links s ((last l).or p) l' n := by
  induction l generalizing p with
  | nil => simp [Links]
  | cons c l ih =>
    have hl : (last (c :: l)).or p = (last l).or (some c.1) := by
      rw [last_cons]; cases last l <;> simp
    simp only [cons_append, Links, ih, first_append, hl, Option.or_assoc]
    exact and_assoc.symm

theorem Links.congr (h : Links s p l n) (he : ∀ i ∈ ids l, s'.node i = s.node i) : Links s' p l n := by
  induction l generalizing p with
  | nil => trivial
  | cons c l ih =>
    obtain ⟨h1, h2⟩ := h
    refine ⟨(he c.1 (by simp)).trans h1, ih h2 fun i hi => he i (by simp [hi])⟩

theorem Links.setPrev (h : Links s p l n) (hd : (ids l).Nodup) (p' : Option Nat) : Links (s.setPrev (first l) p') p' l n := by
  cases l with
  | nil => trivial
  | cons c l =>
    obtain ⟨h1, h2⟩ := h
    refine ⟨by simp [setPrev_node, h1], h2.congr ?_⟩
    intro i hi
    have hne : c.1 ≠ i := fun he => (nodup_cons.1 hd).1 (he ▸ hi)
    simp [setPrev_node, hne]

theorem Links.setNext (h : Links s p l n) (hd : (ids l).Nodup) (n' : Option Nat) : Links (s.setNext (last l) n') p l n' := by
  rcases eq_nil_or_concat l with rfl | ⟨l', c, rfl⟩
  · trivial
  · rw [concat_eq_append] at *
    obtain ⟨h1, h2, -⟩ := (links_append s p n l' [c]).1 h
    refine (links_append _ p n' l' [c]).2 ⟨h1.congr ?_, ?_, trivial⟩
    · intro i hi
      have hne : c.1 ≠ i := by
        rintro rfl
        rw [ids_append, nodup_append] at hd
        exact hd.2.2 _ hi _ (by simp) rfl
      simp [setNext_node, hne]
    · simp [setNext_node, h2]

/-! ## A whole list in a store -/

/-- The store holds `l` as a doubly linked list. -/
structure Rep (s : Store α) (l : List (Nat × α)) : Prop where
  links : Links s none l none
  nodup : (ids l).Nodup
  lt_fresh : ∀ i ∈ ids l, i < s.fresh

theorem Rep.node_eq (h : Rep s (A ++ x :: C)) : s.node x.1 = ⟨x.2, last A, first C⟩ := by
  have := ((links_append s none none A (x :: C)).1 h.links).2.1
  simpa using this

theorem Rep.val_eq (h : Rep s l) (hc : c ∈ l) : (s.node c.1).val = c.2 := by
  obtain ⟨A, C, rfl⟩ := append_of_mem hc
  rw [h.node_eq]

theorem eq_of_fst_eq (hd : (ids l).Nodup) {d : Nat × α} (hc : c ∈ l) (hd' : d ∈ l) (h : c.1 = d.1) : c = d :=
  inj_on_of_nodup_map hd hc hd' h

theorem Rep.not_mem_right (h : Rep s (A ++ x :: C)) : x.1 ∉ ids C := by
  have hd := h.nodup
  rw [ids_append, nodup_append] at hd
  exact (nodup_cons.1 hd.2.1).1

theorem Rep.parts (h : Rep s (A ++ B ++ C)) :
    (ids A).Nodup ∧ (ids B).Nodup ∧ (ids C).Nodup ∧ (∀ i ∈ ids A, i ∉ ids B) ∧ (∀ i ∈ ids A, i ∉ ids C) ∧
      ∀ i ∈ ids B, i ∉ ids C := by
  have hd := h.nodup
  simp only [ids_append, nodup_append, mem_append] at hd
  obtain ⟨⟨h1, h2, h3⟩, h4, h5⟩ := hd
  exact ⟨h1, h2, h4, fun i hi hb => h3 i hi i hb rfl, fun i hi hc => h5 i (.inl hi) i hc rfl,
    fun i hi hc => h5 i (.inr hi) i hc rfl⟩

theorem Rep.links_parts (h : Rep s (A ++ B ++ C)) :
    Links s none A ((first B).or (first C)) ∧ Links s (last A) B (first C) ∧ Links s ((last B).or (last A)) C none := by
  have h1 := (links_append s none none (A ++ B) C).1 h.links
  have h2 := (links_append s none _ A B).1 h1.1
  simp only [or_none, last_append] at h1 h2
  exact ⟨h2.1, h2.2, h1.2⟩

theorem Rep.splice {B' : List (Nat × α)} (h : Rep s (A ++ B ++ C))
    (hA : Links s' none A ((first B').or (first C))) (hB : Links s' (last A) B' (first C))
    (hC : Links s' ((last B').or (last A)) C none) (hf : s.fresh ≤ s'.fresh) (hd : (ids B').Nodup)
    (hB' : ∀ i ∈ ids B', i < s'.fresh ∧ (i ∈ ids B ∨ s.fresh ≤ i)) : Rep s' (A ++ B' ++ C) := by
  obtain ⟨dA, -, dC, hAB, hAC, hBC⟩ := h.parts
  have hlt : ∀ i, i ∈ ids A ∨ i ∈ ids C → i < s.fresh := by
    intro i hi
    exact h.lt_fresh i (by simp only [ids_append, mem_append]; tauto)
  have hnew : ∀ i ∈ ids B', i ∉ ids A ∧ i ∉ ids C := by
    intro i hi
    rcases (hB' i hi).2 with hb | hb
    · exact ⟨fun ha => hAB i ha hb, hBC i hb⟩
    · exact ⟨fun ha => absurd (hlt i (.inl ha)) (by omega), fun hc => absurd (hlt i (.inr hc)) (by omega)⟩
  refine ⟨?_, ?_, ?_⟩
  · refine (links_append _ _ _ (A ++ B') C).2 ⟨(links_append _ _ _ A B').2 ⟨?_, ?_⟩, ?_⟩
    · simpa using hA
    · simpa using hB
    · simpa using hC
  · simp only [ids_append, nodup_append, mem_append]
    refine ⟨⟨dA, hd, ?_⟩, dC, ?_⟩
    · rintro a ha b hb rfl
      exact (hnew a hb).1 ha
    · rintro a (ha | ha) b hb rfl
      · exact hAC a ha hb
      · exact (hnew a ha).2 hb
  · intro i hi
    simp only [ids_append, mem_append] at hi
    rcases hi with (hi | hi) | hi
    · have := hlt i (.inl hi); omega
    · exact (hB' i hi).1
    · have := hlt i (.inr hi); omega

/-! ## The operations -/

theorem Rep.setVal {s : Store α} {A C : List (Nat × α)} {x : Nat × α} (h : Rep s (A ++ x :: C)) (v : α) :
    Rep (s.setVal x.1 v) (A ++ (x.1, v) :: C) := by
  have h' : Rep s (A ++ [x] ++ C) := by simpa using h
  obtain ⟨-, -, -, hAB, -, hBC⟩ := h'.parts
  obtain ⟨hA, hB, hC⟩ := h'.links_parts
  suffices Rep (s.setVal x.1 v) (A ++ [(x.1, v)] ++ C) by simpa using this
  refine h'.splice ?_ ?_ ?_ (Nat.le_refl _) (by simp) ?_
  · refine Links.congr (by simpa using hA) ?_
    intro i hi
    have hne : i ≠ x.1 := by rintro rfl; exact hAB _ hi (by simp)
    simp [setVal_node, hne]
  · simp only [Links] at hB ⊢
    simp [setVal_node, hB.1]
  · refine Links.congr (by simpa using hC) ?_
    intro i hi
    have hne : i ≠ x.1 := by rintro rfl; exact hBC _ (by simp) hi
    simp [setVal_node, hne]
  · intro i hi
    simp only [ids_cons, ids_nil, mem_singleton] at hi
    exact ⟨h'.lt_fresh i (by simp [hi]), .inl (by simp [hi])⟩

/-- The store after a node was unlinked: its neighbours point to each other. -/
def Store.unlink (s : Store α) (i : Nat) : Store α :=
  (s.setNext (s.node i).prev (s.node i).next).setPrev (s.node i).next (s.node i).prev

theorem Rep.unlink {s : Store α} {A C : List (Nat × α)} {x : Nat × α} (h : Rep s (A ++ x :: C)) :
    Rep (s.unlink x.1) (A ++ C) := by
  have h' : Rep s (A ++ [x] ++ C) := by simpa using h
  obtain ⟨dA, -, dC, -, hAC, -⟩ := h'.parts
  obtain ⟨hA, -, hC⟩ := h'.links_parts
  have hx := h.node_eq
  suffices Rep (s.unlink x.1) (A ++ [] ++ C) by simpa using this
  have hu : s.unlink x.1 = (s.setNext (last A) (first C)).setPrev (first C) (last A) := by
    simp [Store.unlink, hx]
  refine h'.splice ?_ trivial ?_ (by simp [hu]) (by simp) (by simp)
  · rw [hu]
    refine Links.congr (s := s.setNext (last A) (first C)) (by simpa using hA.setNext dA (first C)) ?_
    intro i hi
    have hne : first C ≠ some i := fun he => hAC i hi (mem_ids_of_first he)
    simp [setPrev_node, hne]
  · rw [hu]
    refine Links.setPrev (p := some x.1) (hC.congr fun i hi => ?_) dC (last A) |> fun h => by simpa using h
    have hne : last A ≠ some i := fun he => hAC i (mem_ids_of_last he) hi
    simp [setNext_node, hne]

/-- The store after a node was given a value and took over the successor of the node behind it. -/
def Store.absorb (s : Store α) (i j : Nat) (v : α) : Store α :=
  ((s.setVal i v).setNext (some i) (s.node j).next).setPrev (s.node j).next (some i)

theorem Rep.absorb {s : Store α} {A C : List (Nat × α)} {q x : Nat × α} (h : Rep s (A ++ q :: x :: C)) (v : α) :
    Rep (s.absorb q.1 x.1 v) (A ++ (q.1, v) :: C) := by
  have hx : Rep s ((A ++ [q]) ++ x :: C) := by simpa using h
  have hne : x.1 ≠ q.1 := by
    have := h.not_mem_right
    simp only [ids_cons, mem_cons, not_or] at this
    exact Ne.symm this.1
  -- the writes are those of an unlinking, once the value was written
  have hs : s.absorb q.1 x.1 v = (s.setVal q.1 v).unlink x.1 := by
    have hn : (s.setVal q.1 v).node x.1 = ⟨x.2, some q.1, first C⟩ := by
      rw [setVal_node, if_neg hne, hx.node_eq]
      simp
    simp [Store.absorb, Store.unlink, hn, hx.node_eq]
  rw [hs]
  have hv : Rep (s.setVal q.1 v) ((A ++ [(q.1, v)]) ++ x :: C) := by simpa using h.setVal v
  simpa using hv.unlink

/-- The store after a fresh node was linked in behind node `i`. -/
def Store.insertAfter (s : Store α) (i : Nat) (v : α) : Store α :=
  ((s.alloc ⟨v, some i, (s.node i).next⟩).setPrev (s.node i).next (some s.fresh)).setNext (some i) (some s.fresh)

theorem Rep.insertAfter {s : Store α} {A C : List (Nat × α)} {x : Nat × α} (h : Rep s (A ++ x :: C)) (v : α) :
    Rep (s.insertAfter x.1 v) (A ++ x :: (s.fresh, v) :: C) := by
  have h' : Rep s (A ++ [x] ++ C) := by simpa using h
  obtain ⟨dA, -, dC, hAB, hAC, hBC⟩ := h'.parts
  obtain ⟨hA, hB, hC⟩ := h'.links_parts
  have hx := h.node_eq
  have hf : ∀ i, i ∈ ids A ∨ i ∈ ids C ∨ i = x.1 → i ≠ s.fresh := by
    rintro i hi rfl
    refine absurd (h'.lt_fresh s.fresh ?_) (Nat.lt_irrefl _)
    simp only [ids_append, mem_append, ids_cons, ids_nil, mem_singleton]
    tauto
  have hu : s.insertAfter x.1 v =
      ((s.alloc ⟨v, some x.1, first C⟩).setPrev (first C) (some s.fresh)).setNext (some x.1) (some s.fresh) := by
    simp [Store.insertAfter, hx]
  have hCf : first C ≠ some s.fresh := fun he => hf _ (.inr (.inl (mem_ids_of_first he))) rfl
  have hCx : first C ≠ some x.1 := fun he => hBC x.1 (by simp) (mem_ids_of_first he)
  suffices Rep (s.insertAfter x.1 v) (A ++ [x, (s.fresh, v)] ++ C) by simpa using this
  refine h'.splice ?_ ?_ ?_ (by simp [hu]) ?_ ?_
  · refine Links.congr (by simpa using hA) ?_
    intro i hi
    have h1 : first C ≠ some i := fun he => hAC i hi (mem_ids_of_first he)
    have h2 : x.1 ≠ i := by rintro rfl; exact hAB _ hi (by simp)
    simp [hu, setNext_node, setPrev_node, alloc_node, h1, h2, hf i (.inl hi)]
  · have h1 : x.1 ≠ s.fresh := hf _ (.inr (.inr rfl))
    simp [Links, hu, setNext_node, setPrev_node, alloc_node, hCx, hCf, h1, hx]
  · have hC' : Links (s.alloc ⟨v, some x.1, first C⟩) (some x.1) C none := by
      refine Links.congr (by simpa using hC) ?_
      intro i hi
      simp [alloc_node, hf i (.inr (.inl hi))]
    rw [hu]
    refine Links.congr (by simpa [last_cons] using hC'.setPrev dC (some s.fresh)) ?_
    intro i hi
    have h2 : x.1 ≠ i := by rintro rfl; exact hBC _ (by simp) hi
    simp [setNext_node, h2]
  · simpa using hf _ (.inr (.inr rfl))
  · intro i hi
    simp only [ids_cons, ids_nil, mem_cons, not_mem_nil, or_false] at hi
    rcases hi with rfl | rfl
    · have := h'.lt_fresh x.1 (by simp)
      exact ⟨by simp [hu]; omega, .inl (by simp)⟩
    · exact ⟨by simp [hu], .inr (Nat.le_refl _)⟩

/-- The store after a fresh node was linked in behind the last node of a list (or stands alone). -/
def Store.snoc (s : Store α) (tail : Option Nat) (v : α) : Store α :=
  (s.alloc ⟨v, tail, none⟩).setNext tail (some s.fresh)

theorem Rep.snoc {s : Store α} {l : List (Nat × α)} (h : Rep s l) (v : α) : Rep (s.snoc (last l) v) (l ++ [(s.fresh, v)]) := by
  have h' : Rep s (l ++ [] ++ []) := by simpa using h
  have hf : ∀ i ∈ ids l, i ≠ s.fresh := fun i hi => Nat.ne_of_lt (h.lt_fresh i hi)
  suffices Rep (s.snoc (last l) v) (l ++ [(s.fresh, v)] ++ []) by simpa using this
  refine h'.splice ?_ ?_ trivial (by simp [Store.snoc]) (by simp) ?_
  · have hl : Links (s.alloc ⟨v, last l, none⟩) none l none := h.links.congr fun i hi => by simp [alloc_node, hf i hi]
    simpa [Store.snoc] using hl.setNext h.nodup (some s.fresh)
  · have hne : last l ≠ some s.fresh := fun he => hf _ (mem_ids_of_last he) rfl
    simp [Links, Store.snoc, setNext_node, alloc_node, hne]
  · intro i hi
    simp only [ids_cons, ids_nil, mem_singleton] at hi
    exact ⟨by simp [Store.snoc, hi], .inr (by simp [hi])⟩

theorem Rep.nil (s : Store α) : Rep s [] := ⟨trivial, by simp, by simp⟩

theorem Rep.setNext_eq (h : Rep s (A ++ x :: C)) : s.setNext (last A) (some x.1) = s := by
  rcases eq_nil_or_concat A with rfl | ⟨A', q, rfl⟩
  · rfl
  · have hq : s.node q.1 = ⟨q.2, last A', some x.1⟩ := by
      have h' : Rep s (A' ++ q :: x :: C) := by simpa using h
      simpa using h'.node_eq
    have hu : update s.node q.1 ⟨q.2, last A', some x.1⟩ = s.node := by rw [← hq, update_eq_self]
    simp [setNext, hq, hu]

theorem Rep.setPrev_eq (h : Rep s (A ++ x :: C)) : s.setPrev (first C) (some x.1) = s := by
  cases C with
  | nil => rfl
  | cons n C =>
    have hn : s.node n.1 = ⟨n.2, some x.1, first C⟩ := by
      have h' : Rep s ((A ++ [x]) ++ n :: C) := by simpa using h
      simpa using h'.node_eq
    have hu : update s.node n.1 ⟨n.2, some x.1, first C⟩ = s.node := by rw [← hn, update_eq_self]
    simp [setPrev, hn, hu]

theorem relink_node_of_not_mem (s : Store α) (p n : Option Nat) (is : List Nat) (hi : i ∉ is) :
    (s.relink p n is).node i = s.node i := by
  induction is generalizing s p with
  | nil => rfl
  | cons j is ih =>
    simp only [mem_cons, not_or] at hi
    rw [relink, ih _ _ hi.2]
    simp [setNext_node, setPrev_node, Ne.symm hi.1]

@[simp] theorem relink_fresh (s : Store α) (p n : Option Nat) (is : List Nat) : (s.relink p n is).fresh = s.fresh := by
  induction is generalizing s p with
  | nil => rfl
  | cons j is ih => rw [relink, ih]; simp

theorem relink_links (s : Store α) (n : Option Nat) (l : List (Nat × α)) (hd : (ids l).Nodup)
    (hv : ∀ c ∈ l, (s.node c.1).val = c.2) (p : Option Nat) : Links (s.relink p n (ids l)) p l n := by
  induction l generalizing s p with
  | nil => trivial
  | cons c l ih =>
    rw [ids_cons, nodup_cons] at hd
    obtain ⟨hc, hd⟩ := hd
    have hfst : (ids l).head? = first l := by cases l <;> rfl
    refine ⟨?_, ih _ hd ?_ _⟩
    · rw [ids_cons, relink, relink_node_of_not_mem _ _ _ _ hc, hfst]
      simp [setNext_node, setPrev_node, hv c (by simp)]
    · intro d hd'
      have hne : c.1 ≠ d.1 := fun he => hc (he ▸ mem_ids_of_mem hd')
      simp [setNext_node, setPrev_node, hne, hv d (by simp [hd'])]

/-! ## Following the pointers -/

/-- The numbers met from `cur` along the `next` pointers until `stop` is met or the list ends, in at most `fuel` steps. -/
def Store.walkUntil (s : Store α) (stop : Option Nat) : Nat → Option Nat → List Nat
  | 0, _ => []
  | fuel + 1, cur =>
    if cur = stop then [] else
      match cur with
      | none => []
      | some i => i :: s.walkUntil stop fuel (s.node i).next

/-- The numbers met from `cur` along the `next` pointers. -/
def Store.walk (s : Store α) (cur : Option Nat) : List Nat := s.walkUntil none s.fresh cur

theorem Links.walkUntil {s : Store α} {p n : Option Nat} {l : List (Nat × α)} (h : Links s p l n) (hn : ∀ i ∈ ids l, n ≠ some i)
    {fuel : Nat} (hf : l.length ≤ fuel) : s.walkUntil n fuel ((first l).or n) = ids l := by
  induction l generalizing p fuel with
  | nil => cases fuel <;> simp [Store.walkUntil]
  | cons c l ih =>
    cases fuel with
    | zero => simp at hf
    | succ fuel =>
      have hc : (some c.1 : Option Nat) ≠ n := fun he => hn c.1 (by simp) he.symm
      simp only [first_cons, some_or, Store.walkUntil, hc, if_false, ids_cons, h.1]
      rw [ih h.2 (fun i hi => hn i (by simp [hi])) (by simpa using hf)]

theorem Rep.length_le {s : Store α} {l : List (Nat × α)} (h : Rep s l) : l.length ≤ s.fresh := by
  have hsub : ids l ⊆ List.range s.fresh := fun i hi => mem_range.2 (h.lt_fresh i hi)
  have := (subperm_of_subset h.nodup hsub).length_le
  simpa [ids] using this

theorem Rep.walk {s : Store α} {l : List (Nat × α)} (h : Rep s l) : s.walk (first l) = ids l := by
  have := h.links.walkUntil (fun i _ => nofun) h.length_le
  simpa [Store.walk] using this

theorem Rep.walkUntil {s : Store α} {A B C : List (Nat × α)} (h : Rep s (A ++ B ++ C)) (hB : B ≠ []) :
    s.walkUntil (first C) s.fresh (first B) = ids B := by
  obtain ⟨-, -, -, -, -, hBC⟩ := h.parts
  obtain ⟨-, hl, -⟩ := h.links_parts
  have hlen : B.length ≤ s.fresh := by
    have := h.length_le
    simp only [length_append] at this
    omega
  have := hl.walkUntil (fun i hi he => hBC i hi (mem_ids_of_first he)) hlen
  cases B with
  | nil => exact absurd rfl hB
  | cons c B => simpa using this

end Linked
