import ServerlessLLM.Library.Bytes

/-!
# Segments that are written over older ones

A file that is written from its start over an older, longer one keeps the tail of the old one. Files that are read one behind
the other are then shifted by the tails before them.
-/

namespace Bytes

open List

variable {α : Type}

/-- Writing at the end of what was already written over the old file. -/
theorem putAt_over [Zero α] (seg tail data : List α) :
    putAt (seg ++ tail.drop seg.length) seg.length data = (seg ++ data) ++ tail.drop (seg ++ data).length := by
  cases data with
  | nil => simp [putAt]
  | cons x data => simp [putAt, drop_append, Nat.add_sub_cancel_left]

/-- The segments are written from the start over older ones, whose tails stay. -/
def overlay : List (List α) → List (List α) → List (List α)
  | old, [] => old
  | [], seg :: segs => seg :: segs
  | tail :: old, seg :: segs => (seg ++ tail.drop seg.length) :: overlay old segs

@[simp] theorem overlay_nil (segs : List (List α)) : overlay [] segs = segs := by cases segs <;> rfl

theorem overlay_cons (old : List (List α)) (seg : List α) (segs : List (List α)) :
    overlay old (seg :: segs) = (seg ++ (old.headD []).drop seg.length) :: overlay old.tail segs := by
  cases old <;> simp [overlay]

theorem length_overlay (old segs : List (List α)) : (overlay old segs).length = max old.length segs.length := by
  induction segs generalizing old with
  | nil => simp [overlay]
  | cons seg segs ih =>
    cases old with
    | nil => simp
    | cons tail old => simp only [overlay, length_cons, ih, Nat.succ_max_succ]

/-- The old segments are split where the new ones are. -/
theorem overlay_append (old front back : List (List α)) :
    overlay old (front ++ back) = overlay (old.take front.length) front ++ overlay (old.drop front.length) back := by
  induction front generalizing old with
  | nil => simp
  | cons seg front ih =>
    cases old with
    | nil => simp
    | cons tail old => simp [overlay, ih]

/-- Appending to a segment is a write to the file that it is written over. -/
theorem modify_overlay [Zero α] (old front back : List (List α)) (seg data : List α) :
    (overlay old (front ++ seg :: back)).modify front.length (fun file => putAt file seg.length data) =
      overlay old (front ++ (seg ++ data) :: back) := by
  have hlen : (overlay (old.take front.length) front).length = front.length := by
    rw [length_overlay, length_take]
    omega
  rw [overlay_append, overlay_append, overlay_cons, overlay_cons]
  generalize overlay (old.take front.length) front = front' at hlen
  rw [← hlen, modify_length, putAt_over]

/-- A new empty segment is a new file, or the next of the old ones. -/
theorem overlay_concat_nil (old segs : List (List α)) : overlay old (segs ++ [[]]) =
    if segs.length < (overlay old segs).length then overlay old segs else overlay old segs ++ [[]] := by
  have hself : overlay old segs = overlay (old.take segs.length) segs ++ old.drop segs.length := by
    simpa [overlay] using overlay_append old segs []
  rw [overlay_append, length_overlay]
  conv_rhs => rw [hself]
  cases h : old.drop segs.length with
  | nil =>
    have hle := drop_eq_nil_iff.1 h
    rw [if_neg (by omega)]
    simp
  | cons tail old' =>
    have hlt : segs.length < old.length := by
      by_contra hle
      rw [drop_eq_nil_of_le (by omega)] at h
      cases h
    rw [if_pos (by omega)]
    simp [overlay]

theorem length_le_overlay (old segs : List (List α)) : segs.flatten.length ≤ (overlay old segs).flatten.length := by
  induction segs generalizing old with
  | nil => simp
  | cons seg segs ih =>
    have := ih old.tail
    rw [overlay_cons, flatten_cons, flatten_cons, length_append, length_append, length_append]
    omega

/-- The old segments before `pos` are no longer than the new ones over them, which have these sizes. -/
def Unshifted (old : List (List α)) (sizes : List Nat) (pos : Nat) : Prop :=
  ∀ i, (sizes.take (i + 1)).sum ≤ pos → (old.getD i []).length ≤ sizes.getD i 0

theorem Unshifted.mono {old : List (List α)} {sizes : List Nat} {pos pos' : Nat} (h : Unshifted old sizes pos')
    (hle : pos ≤ pos') : Unshifted old sizes pos := fun i hi => h i (Nat.le_trans hi hle)

theorem overlay_covered {old segs : List (List α)} (hlen : old.length ≤ segs.length)
    (h : ∀ i, (old.getD i []).length ≤ (segs.map length).getD i 0) : overlay old segs = segs := by
  induction segs generalizing old with
  | nil => simpa [overlay] using hlen
  | cons seg segs ih =>
    cases old with
    | nil => simp
    | cons tail old =>
      have h0 : tail.length ≤ seg.length := by simpa using h 0
      rw [overlay, drop_eq_nil_of_le h0, append_nil, ih (by simpa using hlen) fun i => by simpa using h (i + 1)]

/-- Where nothing is shifted, what the segments hold is held by what they are written over. -/
theorem HeldAt.overlaid {x : List α} {segs : List (List α)} {pos : Nat} (h : HeldAt segs pos x) {old : List (List α)}
    (hu : Unshifted old (segs.map length) pos) : HeldAt (overlay old segs) pos x := by
  obtain ⟨front, seg, back, before, after, rfl, rfl, rfl⟩ := h
  have hfront : overlay (old.take front.length) front = front := by
    refine overlay_covered (length_take_le _ _) fun i => ?_
    rcases Nat.lt_or_ge i front.length with hi | hi
    · have hle := hu i ?_
      · simpa [getD_eq_getElem?_getD, getElem?_take, hi, getElem?_append] using hle
      · have hsum := congrArg sum (take_append_drop (i + 1) (front.map length))
        rw [sum_append] at hsum
        rw [map_append, take_append_of_le_length (by rw [length_map]; exact hi), length_flatten]
        omega
    · simp [getD_eq_getElem?_getD, getElem?_eq_none (l := old.take front.length) (i := i) (by simp; omega)]
  rw [overlay_append, overlay_cons, hfront]
  exact ⟨front, _, _, before, _, rfl, append_assoc .., rfl⟩

theorem HeldAt.add_le_length {x : List α} {segs : List (List α)} {pos : Nat} (h : HeldAt segs pos x) :
    pos + x.length ≤ segs.flatten.length := by
  obtain ⟨front, seg, back, before, after, rfl, rfl, rfl⟩ := h
  simp only [flatten_append, flatten_cons, length_append]
  omega

theorem sum_take_le {l : List Nat} {j k : Nat} (hjk : j ≤ k) : (l.take j).sum ≤ (l.take k).sum := by
  have hsplit := congrArg sum (take_append_drop j (l.take k))
  rw [sum_append, take_take, Nat.min_eq_left hjk] at hsplit
  omega

theorem heldAt_nil {segs : List (List α)} {pos : Nat} (hne : segs ≠ []) (h : pos ≤ segs.flatten.length) :
    HeldAt segs pos [] := by
  induction segs generalizing pos with
  | nil => cases hne rfl
  | cons seg segs ih =>
    rcases Nat.lt_or_ge seg.length pos with hlt | hle
    · have hrest : pos - seg.length ≤ segs.flatten.length := by
        rw [flatten_cons, length_append] at h
        omega
      have hne' : segs ≠ [] := by
        rintro rfl
        simp at hrest
        omega
      obtain ⟨front, s, back, before, after, rfl, rfl, hpos⟩ := ih hne' hrest
      refine ⟨seg :: front, _, back, before, after, rfl, rfl, ?_⟩
      rw [flatten_cons, length_append]
      omega
    · refine ⟨[], seg, segs, seg.take pos, seg.drop pos, rfl, by simp, ?_⟩
      simp [Nat.min_eq_left hle]

/-- Behind the first segment that lies over a longer old one comes the tail of the old one. -/
theorem getElem?_overlay {old segs : List (List α)} {i : Nat} (hi : i < segs.length)
    (hbefore : ∀ j < i, (old.getD j []).length ≤ (segs.getD j []).length)
    (hlong : (segs.getD i []).length < (old.getD i []).length) :
    (overlay old segs).flatten[((segs.map length).take (i + 1)).sum]? = (old.getD i [])[(segs.getD i []).length]? := by
  induction i generalizing old segs with
  | zero =>
    obtain ⟨seg, segs, rfl⟩ := exists_cons_of_length_pos hi
    cases old with
    | nil => simp at hlong
    | cons tail old =>
      have hlt : seg.length < tail.length := by simpa using hlong
      simp [overlay, getElem?_append, hlt, Nat.sub_ne_zero_of_lt hlt]
  | succ i ih =>
    obtain ⟨seg, segs, rfl⟩ := exists_cons_of_length_pos (Nat.zero_lt_of_lt hi)
    cases old with
    | nil => simp at hlong
    | cons tail old =>
      have h0 : tail.length ≤ seg.length := by simpa using hbefore 0 (Nat.succ_pos i)
      have hrest := @ih old segs (by simpa using hi) (fun j hj => by simpa using hbefore (j + 1) (Nat.succ_lt_succ hj))
        (by simpa using hlong)
      simpa [overlay, drop_eq_nil_of_le h0, getElem?_append_right, Nat.add_sub_cancel_left] using hrest

variable {segs segs' : List (List α)} {n : Nat}

theorem take_overlay_congr (hsizes : segs.map length = segs'.map length) (h : segs.flatten.take n = segs'.flatten.take n)
    (old : List (List α)) : (overlay old segs).flatten.take n = (overlay old segs').flatten.take n := by
  induction segs generalizing segs' old n with
  | nil =>
    obtain rfl : segs' = [] := by simpa using hsizes.symm
    rfl
  | cons seg segs ih =>
    obtain ⟨seg', segs', rfl⟩ := exists_cons_of_length_pos (l := segs') (by rw [← length_map, ← hsizes]; simp)
    obtain ⟨hseg, hrest⟩ : seg.length = seg'.length ∧ segs.map length = segs'.map length := by simpa using hsizes
    rw [flatten_cons, flatten_cons, take_append, take_append] at h
    obtain ⟨hfst, hsnd⟩ := append_inj h (by simp [hseg])
    rw [hseg] at hsnd
    rw [overlay_cons, overlay_cons, flatten_cons, flatten_cons, append_assoc, append_assoc, take_append,
      take_append, hfst, hseg,
      take_append, take_append]
    have hle := congrArg (take (n - seg'.length - ((old.headD []).drop seg'.length).length)) hsnd
    rw [take_take, take_take, Nat.min_eq_left (Nat.sub_le _ _)] at hle
    rw [ih hrest hle]

/-- Behind a tail, what stands at a position was written for an earlier one. -/
theorem take_succ_overlay_congr (hsizes : segs.map length = segs'.map length) (h : segs.flatten.take n = segs'.flatten.take n)
    {old : List (List α)} (hu : ¬Unshifted old (segs.map length) n) :
    (overlay old segs).flatten.take (n + 1) = (overlay old segs').flatten.take (n + 1) := by
  induction segs generalizing segs' old n with
  | nil =>
    obtain rfl : segs' = [] := by simpa using hsizes.symm
    rfl
  | cons seg segs ih =>
    obtain ⟨seg', segs', rfl⟩ := exists_cons_of_length_pos (l := segs') (by rw [← length_map, ← hsizes]; simp)
    obtain ⟨hseg, hrest⟩ : seg.length = seg'.length ∧ segs.map length = segs'.map length := by simpa using hsizes
    obtain ⟨i, hsum, hlong⟩ : ∃ i, (((seg :: segs).map length).take (i + 1)).sum ≤ n ∧
        ((seg :: segs).map length).getD i 0 < (old.getD i []).length := by simpa [Unshifted] using hu
    have hle : seg.length ≤ n := by
      rw [map_cons, take_succ_cons, sum_cons] at hsum
      omega
    rw [flatten_cons, flatten_cons, take_append, take_append] at h
    obtain ⟨hfst, hsnd⟩ := append_inj h (by simp [hseg])
    rw [take_of_length_le hle, take_of_length_le (hseg ▸ hle)] at hfst
    subst hfst
    rw [overlay_cons, overlay_cons, flatten_cons, flatten_cons, take_append, @take_append _ (seg ++ _)]
    congr 1
    rw [length_append, length_drop]
    rcases Nat.lt_or_ge seg.length (old.headD []).length with hlt | hge
    · -- the tail takes the place of at least one byte
      refine take_overlay_congr hrest ?_ _
      have hle := congrArg (take (n + 1 - (seg.length + ((old.headD []).length - seg.length)))) hsnd
      rwa [take_take, take_take, Nat.min_eq_left (by omega)] at hle
    · rw [show n + 1 - (seg.length + ((old.headD []).length - seg.length)) = n - seg.length + 1 by omega]
      refine ih hrest hsnd ?_
      cases i with
      | zero => cases old <;> simp at hlong hge; omega
      | succ i =>
        intro hu
        have := hu i (by simp at hsum ⊢; omega)
        cases old <;> simp at hlong this
        omega

end Bytes
