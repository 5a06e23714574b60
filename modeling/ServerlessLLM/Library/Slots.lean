import Mathlib.Data.List.GetD
import Mathlib.Data.List.Nodup
import Mathlib.Data.List.Perm.Subperm
import Mathlib.Data.Nat.Find

/-!
# Slots and free lists

A row of slots, some of them in use, and blocks of consecutive slots. `Covers` says that the slots in use are those of the
blocks, each of one block. `IsFree` is a run of free slots. A first fit keeps blocks of one length at the multiples of that
length (`dvd_of_first`), where a run of free slots is missing only when the blocks fill the row (`exists_isFree`).

The numbers below a bound are free or taken, and a flag of each says which. `Accounts` relates the free list, the flags and the
taken numbers; its rules say what it is to take a number off the free list and to give one back.
-/

namespace Slots

open List Bool

variable {slots : List Bool} {blocks blocks' : List (Nat × Nat)} {b c : Nat × Nat} {i start n : Nat}

/-- A slot belongs to a block. -/
def Within (b : Nat × Nat) (i : Nat) : Prop := b.1 ≤ i ∧ i < b.1 + b.2

instance (b : Nat × Nat) (i : Nat) : Decidable (Within b i) := inferInstanceAs (Decidable (_ ∧ _))

/-- The slots in use are those of the blocks, each of one block. -/
structure Covers (slots : List Bool) (blocks : List (Nat × Nat)) : Prop where
  inside : ∀ b ∈ blocks, b.1 + b.2 ≤ slots.length
  count : ∀ i, (blocks.countP fun b => Within b i) = (slots.getD i false).toNat

/-- The slots from `start` on are free, so many of them. -/
def IsFree (slots : List Bool) (start n : Nat) : Prop := start + n ≤ slots.length ∧ ∀ i, Within (start, n) i →
    slots.getD i false = false

def mark (slots : List Bool) (start n : Nat) (used : Bool) : List Bool :=
  (range n).foldl (fun slots i => slots.set (start + i) used) slots

theorem mark_succ (slots : List Bool) (start n : Nat) (used : Bool) :
    mark slots start (n + 1) used = (mark slots start n used).set (start + n) used := by
  unfold mark
  rw [range_succ, foldl_append, foldl_cons, foldl_nil]

@[simp] theorem length_mark (slots : List Bool) (start n : Nat) (used : Bool) : (mark slots start n used).length =
    slots.length := by
  induction n with
  | zero => rfl
  | succ n ih => rw [mark_succ, length_set, ih]

theorem getD_mark (slots : List Bool) {start n : Nat} (h : start + n ≤ slots.length) (used : Bool) (i : Nat) :
    (mark slots start n used).getD i false = if Within (start, n) i then used else slots.getD i false := by
  induction n with
  | zero =>
    rw [if_neg (by rintro ⟨hle, hlt⟩; simp only at hle hlt; omega)]
    rfl
  | succ n ih =>
    rw [mark_succ, getD_eq_getElem?_getD, getElem?_set]
    by_cases hi : start + n = i
    · subst hi
      have hw : Within (start, n + 1) (start + n) := ⟨by simp, by simp⟩
      have hlt : start + n < slots.length := by omega
      rw [if_pos rfl, if_pos hw, length_mark, if_pos hlt, Option.getD_some]
    · rw [if_neg hi, ← getD_eq_getElem?_getD, ih (by omega)]
      have hiff : Within (start, n + 1) i ↔ Within (start, n) i := by
        simp only [Within]
        omega
      simp only [hiff]

theorem ext_getD {l l' : List Bool} (hl : l.length = l'.length) (h : ∀ i, l.getD i false = l'.getD i false) : l = l' := by
  refine ext_getElem hl fun i hi hi' => ?_
  have := h i
  rwa [getD_eq_getElem _ _ hi, getD_eq_getElem _ _ hi'] at this

theorem mark_mark_of_isFree (h : IsFree slots start n) : mark (mark slots start n true) start n false = slots := by
  refine ext_getD (by simp) fun i => ?_
  rw [getD_mark _ (by simpa using h.1), getD_mark _ h.1]
  split
  · rename_i hw
    exact (h.2 i hw).symm
  · rfl

theorem getD_replicate_false (n i : Nat) : (replicate n false).getD i false = false := by
  rw [getD_eq_getElem?_getD, getElem?_replicate]
  split <;> rfl

namespace Covers

theorem mono (h : Covers slots blocks) (hp : blocks.Perm blocks') : Covers slots blocks' where
  inside b hb := h.inside b (hp.mem_iff.2 hb)
  count i := by rw [← hp.countP_eq, h.count]

theorem nil (n : Nat) : Covers (replicate n false) [] where
  inside := by simp
  count i := by
    rw [getD_replicate_false]
    rfl

theorem getD_eq_true_iff (h : Covers slots blocks) : slots.getD i false = true ↔ ∃ b ∈ blocks, Within b i := by
  have hc := h.count i
  have hpos := countP_pos_iff (l := blocks) (p := fun b => decide (Within b i))
  simp only [decide_eq_true_eq] at hpos
  rw [← hpos, hc]
  cases slots.getD i false <;> simp

theorem pairwise (h : Covers slots blocks) : blocks.Pairwise fun b c => ∀ i, ¬(Within b i ∧ Within c i) := by
  rw [pairwise_iff_forall_sublist]
  rintro b c hsub i ⟨hb, hc⟩
  have hle := hsub.countP_le (p := fun b => decide (Within b i))
  have hone : (slots.getD i false).toNat ≤ 1 := toNat_le _
  rw [h.count] at hle
  simp only [countP_cons, countP_nil, hb, hc, decide_true, if_true] at hle
  omega

theorem mark_true (h : Covers slots blocks) (hfe : IsFree slots start n) :
    Covers (mark slots start n true) ((start, n) :: blocks) where
  inside := by
    intro b hb
    rw [length_mark]
    rcases mem_cons.1 hb with rfl | hb
    · exact hfe.1
    · exact h.inside b hb
  count i := by
    rw [countP_cons, h.count, getD_mark _ hfe.1]
    by_cases hw : Within (start, n) i
    · rw [hfe.2 i hw]
      simp [hw]
    · simp [hw]

theorem mark_false (h : Covers slots ((start, n) :: blocks)) : Covers (mark slots start n false) blocks where
  inside := by
    intro b hb
    rw [length_mark]
    exact h.inside b (mem_cons_of_mem _ hb)
  count i := by
    have hin : start + n ≤ slots.length := h.inside (start, n) mem_cons_self
    have hc := h.count i
    rw [countP_cons] at hc
    rw [getD_mark _ hin]
    by_cases hw : Within (start, n) i
    · have hone : (slots.getD i false).toNat ≤ 1 := toNat_le _
      simp only [hw, decide_true, if_true] at hc ⊢
      simp only [toNat_false]
      omega
    · simpa [hw] using hc

end Covers

/-! ## First fit -/

/-- The blocks have `n` slots each and start at multiples of `n`. -/
def Aligned (n : Nat) (blocks : List (Nat × Nat)) : Prop := ∀ b ∈ blocks, n ∣ b.1 ∧ b.2 = n

theorem Covers.group (h : Covers slots blocks) (ha : Aligned n blocks) {k : Nat} (hk : (k + 1) * n ≤ slots.length) :
    IsFree slots (k * n) n ∨ k * n ∈ blocks.map Prod.fst := by
  by_cases hfe : ∀ i, Within (k * n, n) i → slots.getD i false = false
  · refine .inl ⟨?_, hfe⟩
    rw [Nat.add_mul, Nat.one_mul] at hk
    exact hk
  · push Not at hfe
    obtain ⟨i, hi, hused⟩ := hfe
    obtain ⟨b, hb, hbi⟩ := h.getD_eq_true_iff.1 (by simpa using hused)
    obtain ⟨⟨m, hm⟩, hlen⟩ := ha b hb
    refine .inr (mem_map.2 ⟨b, hb, ?_⟩)
    -- the slot `i` lies in the groups `m` and `k`
    have hmk : m = k := by
      obtain ⟨hle, hlt⟩ := hi
      obtain ⟨hle', hlt'⟩ := hbi
      rw [hm, hlen] at hlt'
      rw [hm] at hle'
      have h₁ : m * n < (k + 1) * n := by rw [Nat.mul_comm, Nat.add_mul, Nat.one_mul]; exact Nat.lt_of_le_of_lt hle' hlt
      have h₂ : k * n < (m + 1) * n := by rw [Nat.add_mul, Nat.one_mul, Nat.mul_comm m]; exact Nat.lt_of_le_of_lt hle hlt'
      have := Nat.lt_of_mul_lt_mul_right h₁
      have := Nat.lt_of_mul_lt_mul_right h₂
      omega
    rw [hm, hmk, Nat.mul_comm]

theorem Covers.dvd_of_first (h : Covers slots blocks) (ha : Aligned n blocks) (hn : 0 < n) (hfe : IsFree slots start n)
    (hfst : ∀ s < start, ¬IsFree slots s n) : n ∣ start := by
  by_contra hdvd
  have hlt : start / n * n < start := by
    refine Nat.lt_of_le_of_ne (Nat.div_mul_le_self _ _) fun heq => hdvd ?_
    exact ⟨start / n, by rw [Nat.mul_comm, heq]⟩
  have hend : start < (start / n + 1) * n := by
    rw [Nat.add_mul, Nat.one_mul]
    exact Nat.lt_div_mul_add hn
  have hin : (start / n + 1) * n ≤ slots.length := by
    refine Nat.le_trans ?_ hfe.1
    rw [Nat.add_mul, Nat.one_mul]
    omega
  rcases h.group ha hin with hgrp | hblk
  · exact hfst _ hlt hgrp
  · -- the block of that group would have a slot of the free run
    obtain ⟨b, hb, heq⟩ := mem_map.1 hblk
    have hw : Within b start := by
      rw [Nat.add_mul, Nat.one_mul] at hend
      refine ⟨by omega, ?_⟩
      rw [(ha b hb).2]
      omega
    have hused := h.getD_eq_true_iff.2 ⟨b, hb, hw⟩
    rw [hfe.2 start ⟨Nat.le_refl _, by simp only; omega⟩] at hused
    cases hused

theorem Covers.exists_isFree (h : Covers slots blocks) (ha : Aligned n blocks) (hn : 0 < n)
    (hro : (blocks.length + 1) * n ≤ slots.length) : ∃ start, IsFree slots start n := by
  by_contra hno
  push Not at hno
  have hsub : (range (blocks.length + 1)).map (· * n) ⊆ blocks.map Prod.fst := by
    intro s hs
    obtain ⟨k, hk, rfl⟩ := mem_map.1 hs
    rw [mem_range] at hk
    have hin : (k + 1) * n ≤ slots.length := Nat.le_trans (Nat.mul_le_mul_right n hk) hro
    exact (h.group ha hin).resolve_left (hno _)
  have hnd : ((range (blocks.length + 1)).map (· * n)).Nodup :=
    nodup_range.map fun a b hab => Nat.eq_of_mul_eq_mul_right hn hab
  have hle := (hnd.subperm hsub).length_le
  simp only [length_map, length_range] at hle
  omega

/-! ## Holes -/

/-- How many blocks of `n` slots fit into the holes of a row that comes after `run` free slots. -/
def roomFrom (n : Nat) : List Bool → Nat → Nat
  | [], run => run / n
  | true :: slots, run => run / n + roomFrom n slots 0
  | false :: slots, run => roomFrom n slots (run + 1)

/-- How many blocks of `n` slots fit into the holes of a row. -/
def room (n : Nat) (slots : List Bool) : Nat := roomFrom n slots 0

theorem roomFrom_add (hn : 0 < n) (slots : List Bool) (run : Nat) : roomFrom n slots (run + n) = roomFrom n slots run + 1 := by
  induction slots generalizing run with
  | nil => exact Nat.add_div_right run hn
  | cons used slots ih =>
    cases used with
    | true =>
      unfold roomFrom
      rw [Nat.add_div_right run hn]
      omega
    | false =>
      unfold roomFrom
      rw [Nat.add_right_comm, ih]

theorem roomFrom_append_true (n : Nat) (l l' : List Bool) (run : Nat) : roomFrom n (l ++ true :: l') run = roomFrom n l run +
    roomFrom n l' 0 := by
  induction l generalizing run with
  | nil => rfl
  | cons used l ih => cases used <;> simp [roomFrom, ih, Nat.add_assoc]

theorem roomFrom_replicate_false (n k : Nat) (l : List Bool) (run : Nat) : roomFrom n (replicate k false ++ l) run =
    roomFrom n l (run + k) := by
  induction k generalizing run with
  | zero => rfl
  | succ k ih => rw [replicate_succ, cons_append, roomFrom, ih, Nat.add_right_comm, Nat.add_assoc]

theorem roomFrom_replicate_true (n k : Nat) (l : List Bool) : roomFrom n (replicate k true ++ l) 0 = roomFrom n l 0 := by
  induction k with
  | zero => rfl
  | succ k ih => rw [replicate_succ, cons_append, roomFrom, ih, Nat.zero_div, Nat.zero_add]

theorem mark_eq (used : Bool) (h : start + n ≤ slots.length) :
    mark slots start n used = slots.take start ++ (replicate n used ++ slots.drop (start + n)) := by
  induction n with
  | zero => simp [mark]
  | succ n ih =>
    have hlt : start + n < slots.length := by omega
    have hmin : min start slots.length = start := by omega
    rw [mark_succ, ih (by omega), drop_eq_getElem_cons hlt, replicate_succ', append_assoc]
    simp [hmin, Nat.add_assoc]

theorem IsFree.mark_false (h : IsFree slots start n) : mark slots start n false = slots := by
  refine ext_getD (by simp) fun i => ?_
  rw [getD_mark _ h.1]
  split
  · rename_i hw
    exact (h.2 i hw).symm
  · rfl

theorem room_mark (hn : 0 < n) (h : IsFree slots start n) (hfst : ∀ s < start, ¬IsFree slots s n) :
    room n (mark slots start n true) + 1 = room n slots := by
  -- the slots of the block, and those before and after it
  have hslots : slots = slots.take start ++ (replicate n false ++ slots.drop (start + n)) := by
    rw [← mark_eq false h.1, h.mark_false]
  have hbef : slots.take start = [] ∨ ∃ l, slots.take start = l ++ [true] := by
    rcases Nat.eq_zero_or_pos start with rfl | hpos
    · exact .inl (take_zero ..)
    · right
      have hlt : start - 1 < slots.length := by
        have := h.1
        omega
      have hused : slots[start - 1] = true := by
        by_contra hfe
        rw [not_eq_true] at hfe
        refine hfst (start - 1) (by omega) ⟨by have := h.1; omega, fun i hi => ?_⟩
        rcases Nat.eq_or_lt_of_le hi.1 with rfl | hlt'
        · rw [getD_eq_getElem _ _ hlt]
          exact hfe
        · have hi₂ := hi.2
          simp only at hi₂ hlt'
          exact h.2 i ⟨by simp only; omega, by simp only; omega⟩
      refine ⟨slots.take (start - 1), ?_⟩
      rw [← hused, take_append_getElem hlt, Nat.sub_add_cancel hpos]
  unfold room
  rw [mark_eq true h.1]
  conv_rhs => rw [hslots]
  rcases hbef with hnil | ⟨l, hl⟩
  · rw [hnil, nil_append, nil_append, roomFrom_replicate_true, roomFrom_replicate_false, roomFrom_add hn]
  · rw [hl, append_assoc, append_assoc, singleton_append, singleton_append, roomFrom_append_true, roomFrom_append_true,
      roomFrom_replicate_true, roomFrom_replicate_false, roomFrom_add hn, Nat.add_assoc]

theorem isFree_of_roomFrom (h : 0 < roomFrom n slots start) : ∃ s, IsFree (replicate start false ++ slots) s n := by
  induction slots generalizing start with
  | nil =>
    refine ⟨0, ?_, fun i _ => ?_⟩
    · have := (Nat.div_pos_iff.1 h).2
      simpa using this
    · rw [append_nil]
      exact getD_replicate_false start i
  | cons used slots ih =>
    cases used with
    | true =>
      rcases Nat.eq_zero_or_pos (start / n) with hzero | hpos
      · rw [roomFrom, hzero, Nat.zero_add] at h
        obtain ⟨s, hle, hfe⟩ := ih h
        rw [replicate_zero, nil_append] at hle hfe
        -- the run lies behind the slot in use
        refine ⟨start + 1 + s, ?_, fun i hi => ?_⟩
        · rw [length_append, length_replicate, length_cons]
          omega
        · obtain ⟨k, rfl⟩ : ∃ k, i = start + 1 + k := ⟨i - (start + 1), by have := hi.1; simp only at this; omega⟩
          rw [getD_append_right _ _ _ _ (by rw [length_replicate]; omega), length_replicate,
            show start + 1 + k - start = k + 1 by omega, getD_cons_succ]
          refine hfe k ⟨?_, ?_⟩
          · have := hi.1
            simp only at this ⊢
            omega
          · have := hi.2
            simp only at this ⊢
            omega
      · refine ⟨0, ?_, fun i hi => ?_⟩
        · have := (Nat.div_pos_iff.1 hpos).2
          rw [length_append, length_replicate]
          omega
        · have hlt : i < start := by
            have := hi.2
            have := (Nat.div_pos_iff.1 hpos).2
            simp only at *
            omega
          rw [getD_append _ _ _ _ (by rwa [length_replicate])]
          exact getD_replicate_false start i
    | false =>
      obtain ⟨s, hs⟩ := ih (by rwa [roomFrom] at h)
      refine ⟨s, ?_⟩
      rwa [replicate_succ', append_assoc] at hs

theorem room_pos_iff (hn : 0 < n) : 0 < room n slots ↔ ∃ s, IsFree slots s n := by
  classical
  constructor
  · intro h
    simpa using isFree_of_roomFrom h
  · intro h
    rw [← room_mark hn (Nat.find_spec h) fun s hs => Nat.find_min h hs]
    exact Nat.succ_pos _

end Slots

namespace FreeList

variable {n id : Nat} {free taken taken' : List Nat} {flags : List Bool}

/-- Every number below `n` is on the free list or taken, once, and its flag is set when it is taken. -/
structure Accounts (n : Nat) (free : List Nat) (flags : List Bool) (taken : List Nat) : Prop where
  perm : (free ++ taken).Perm (List.range n)
  flags : ∀ id < n, flags[id]? = some (decide (id ∉ free))

namespace Accounts

theorem init (n : Nat) : Accounts n (List.range n).reverse (List.replicate n false) [] := by
  refine ⟨?_, ?_⟩
  · rw [List.append_nil]
    exact List.reverse_perm _
  · intro id h
    simp [h]

theorem mono (h : Accounts n free flags taken) (ht : taken.Perm taken') : Accounts n free flags taken' :=
  ⟨(ht.symm.append_left _).trans h.perm, h.flags⟩

theorem nodup (h : Accounts n free flags taken) : (free ++ taken).Nodup := h.perm.nodup_iff.2 List.nodup_range

theorem length (h : Accounts n free flags taken) : free.length + taken.length = n := by
  have hl := h.perm.length_eq
  rwa [List.length_append, List.length_range] at hl

theorem lt_of_mem (h : Accounts n free flags taken) (hid : id ∈ free ++ taken) : id < n :=
  List.mem_range.1 (h.perm.mem_iff.1 hid)

theorem take (h : Accounts n (id :: free) flags taken) : Accounts n free (flags.set id true) (id :: taken) := by
  have hnd := h.nodup
  rw [List.cons_append, List.nodup_cons, List.mem_append, not_or] at hnd
  refine ⟨List.perm_middle.trans h.perm, ?_⟩
  intro k hk
  have hlt : k < flags.length := (List.getElem?_eq_some_iff.1 (h.flags k hk)).1
  rw [List.getElem?_set]
  by_cases hkid : id = k
  · subst hkid
    simp [hlt, hnd.1.1]
  · rw [if_neg hkid, h.flags k hk]
    simp [Ne.symm hkid]

theorem give (h : Accounts n free flags (id :: taken)) : Accounts n (id :: free) (flags.set id false) taken := by
  refine ⟨List.perm_middle.symm.trans h.perm, ?_⟩
  intro k hk
  have hlt : k < flags.length := (getElem?_eq_some_iff.1 (h.flags k hk)).1
  rw [List.getElem?_set]
  by_cases hkid : id = k
  · subst hkid
    simp [hlt]
  · rw [if_neg hkid, h.flags k hk]
    simp [Ne.symm hkid]

theorem count (h : Accounts n free flags taken) (hid : id < n) :
    (free.count id = 1 ∧ taken.count id = 0 ∧ flags[id]? = some false) ∨
      (free.count id = 0 ∧ taken.count id = 1 ∧ flags[id]? = some true) := by
  have hcnt : free.count id + taken.count id = 1 := by
    rw [← List.count_append, h.perm.count_eq]
    exact List.count_eq_one_of_mem List.nodup_range (List.mem_range.2 hid)
  rw [h.flags id hid]
  by_cases hf : id ∈ free
  · have hpos : 0 < free.count id := List.count_pos_iff.2 hf
    refine .inl ⟨by omega, by omega, by simp [hf]⟩
  · have hzero : free.count id = 0 := List.count_eq_zero.2 hf
    refine .inr ⟨hzero, by omega, by simp [hf]⟩

end Accounts

end FreeList
