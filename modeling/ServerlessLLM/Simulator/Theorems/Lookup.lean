import Mathlib.Tactic.FieldSimp
import Mathlib.Tactic.Ring
import ServerlessLLM.Simulator.Lemmas.MckpOps
import ServerlessLLM.Simulator.Lemmas.TableOps
import ServerlessLLM.Simulator.Theorems.StallTable

/-!
# Lookups between the rows

A lookup is a row, or a weighted mean of two rows that is not negative.
-/

namespace ServerlessLLM.Simulator.PrefixStallTable

open StallTable List Option Except

variable {table : PrefixStallTable} {model n : Nat} {item : StallModel} {extrapolation : InputExtrapolation}
  {rows : List StallRow}
  {v v' : StallRow → ℚ}

/-! ## Rows -/

theorem weightedMean_eq (n : Nat) {left right : Nat × ℚ} (h : left.1 < right.1) :
    weightedMean n left right = (((right.1 : ℚ) - n) * left.2 + ((n : ℚ) - left.1) * right.2) / ((right.1 : ℚ) - left.1) := by
  have hpos : (0 : ℚ) < (right.1 : ℚ) - left.1 := sub_pos.2 (Nat.cast_lt.2 h)
  unfold weightedMean
  field_simp
  ring

theorem lookupRows_nonneg (extrapolation : InputExtrapolation) (n : Nat) (hne : rows ≠ [])
    (hsrt : (rows.map StallRow.inputTokens).Pairwise (· < ·)) (hv : ∀ row ∈ rows, 0 ≤ v row) :
    0 ≤ lookupRows extrapolation n (rows.map fun row => (row.inputTokens, v row)) := by
  unfold lookupRows
  rcases betweenRows_cases extrapolation n hne hsrt with ⟨row, hrow, -, heq⟩ | ⟨left, -, right, -, -, -, -, -, heq⟩
  · rw [heq]
    exact hv row hrow
  · rw [heq]
    exact le_max_left _ _

theorem lookupRows_zero (extrapolation : InputExtrapolation) (n : Nat) (hne : rows ≠ [])
    (hsrt : (rows.map StallRow.inputTokens).Pairwise (· < ·)) (hv : ∀ row ∈ rows, v row = 0) :
    lookupRows extrapolation n (rows.map fun row => (row.inputTokens, v row)) = 0 := by
  unfold lookupRows
  rcases betweenRows_cases extrapolation n hne hsrt with ⟨row, hrow, -, heq⟩ | ⟨left, hleft, right, hright, -, -, -, -, heq⟩
  · rw [heq]
    exact hv row hrow
  · rw [heq]
    simp [clippedMean, weightedMean, hv left hleft, hv right hright]

theorem lookupRows_mono (hne : rows ≠ []) (hsrt : (rows.map StallRow.inputTokens).Pairwise (· < ·))
    (hwth : Within extrapolation rows n)
    (hv : ∀ row ∈ rows, v row ≤ v' row) :
    lookupRows extrapolation n (rows.map fun row => (row.inputTokens, v row)) ≤
      lookupRows extrapolation n (rows.map fun row => (row.inputTokens, v' row)) := by
  unfold lookupRows
  rcases betweenRows_cases extrapolation n hne hsrt with ⟨row, hrow, -, heq⟩ |
    ⟨left, hleft, right, hright, -, hlt, hle, hright', heq⟩
  · rw [heq, heq]
    exact hv row hrow
  · rw [heq, heq]
    refine max_le_max le_rfl ?_
    have hn : n ≤ right.inputTokens := hright' hwth
    have hwidth : (0 : ℚ) ≤ (right.inputTokens : ℚ) - left.inputTokens := sub_nonneg.2 (Nat.cast_le.2 hlt.le)
    have haft : (0 : ℚ) ≤ (right.inputTokens : ℚ) - n := sub_nonneg.2 (Nat.cast_le.2 hn)
    have hbef : (0 : ℚ) ≤ (n : ℚ) - left.inputTokens := sub_nonneg.2 (Nat.cast_le.2 hle)
    rw [weightedMean_eq n hlt, weightedMean_eq n hlt]
    exact div_le_div_of_nonneg_right (add_le_add (mul_le_mul_of_nonneg_left (hv left hleft) haft)
      (mul_le_mul_of_nonneg_left (hv right hright) hbef)) hwidth

theorem lookupRows_measured (extrapolation : InputExtrapolation) (hsrt : (rows.map StallRow.inputTokens).Pairwise (· < ·))
    {row : StallRow} (hrow : row ∈ rows) (hv : 0 ≤ v row) :
    lookupRows extrapolation row.inputTokens (rows.map fun row => (row.inputTokens, v row)) = v row := by
  unfold lookupRows
  rcases betweenRows_cases extrapolation row.inputTokens (ne_nil_of_mem hrow) hsrt with
    ⟨row', -, hsa, heq⟩ | ⟨left, -, right, -, hsa, hlt, -, -, heq⟩
  · rw [heq, hsa row hrow rfl]
  · rw [heq]
    unfold clippedMean
    have hpos : (0 : ℚ) < (right.inputTokens : ℚ) - left.inputTokens := sub_pos.2 (Nat.cast_lt.2 hlt)
    rcases hsa row hrow rfl with rfl | rfl
    · rw [weightedMean_eq _ hlt, sub_self, zero_mul, add_zero, mul_div_cancel_left₀ _ hpos.ne', max_eq_right hv]
    · rw [weightedMean_eq _ hlt, sub_self, zero_mul, zero_add, mul_div_cancel_left₀ _ hpos.ne', max_eq_right hv]

/-! ## Lookups of an accepted table -/

def prefixStall (p : Nat) (row : StallRow) : ℚ := row.prefixStallMs[p]?.getD 0

/-- The stall of a row for a suffix; rows without the field have none. -/
def suffixStall (s : Nat) (row : StallRow) : ℚ := (row.suffixStallMs.bind fun l => l[s]?).getD 0

section Rows

variable {groupCount p q s : Nat} {row : StallRow}

section

variable (h : row.Valid groupCount)

include h

theorem prefixStall_full : prefixStall groupCount row = 0 := by
  unfold prefixStall
  have hla := h.full
  rw [getLast?_eq_getElem?, h.length, Nat.add_sub_cancel] at hla
  rw [hla]
  rfl

theorem prefixStall_anti (hpq : p ≤ q) (hq : q ≤ groupCount) : prefixStall q row ≤ prefixStall p row := by
  have hlen := h.length
  unfold prefixStall
  rw [getElem?_eq_getElem (by omega), getElem?_eq_getElem (by omega)]
  exact (isChain_iff_pairwise.1 h.chain).rel_get_of_le (a := ⟨p, by omega⟩) (b := ⟨q, by omega⟩) hpq

theorem prefixStall_nonneg (hp : p ≤ groupCount) : 0 ≤ prefixStall p row := prefixStall_full h ▸ prefixStall_anti h hp le_rfl

theorem suffixStall_zero : suffixStall 0 row = 0 := by
  unfold suffixStall
  cases hsuf : row.suffixStallMs with
  | none => rfl
  | some l =>
    have hhead := (h.suffix l hsuf).2.1
    rw [head?_eq_getElem?] at hhead
    rw [bind_some, hhead]
    rfl

theorem suffixStall_mono {t : Nat} (hst : s ≤ t) (ht : t ≤ groupCount) : suffixStall s row ≤ suffixStall t row := by
  unfold suffixStall
  cases hsuf : row.suffixStallMs with
  | none => exact le_rfl
  | some l =>
    obtain ⟨hlen, -, hchain⟩ := h.suffix l hsuf
    rw [bind_some, bind_some, getElem?_eq_getElem (by omega), getElem?_eq_getElem (by omega)]
    exact (isChain_iff_pairwise.1 hchain).rel_get_of_le (a := ⟨s, by omega⟩) (b := ⟨t, by omega⟩) hst

theorem suffixStall_nonneg (hs : s ≤ groupCount) : 0 ≤ suffixStall s row :=
  suffixStall_zero h ▸ suffixStall_mono h (Nat.zero_le s) hs

end

end Rows

theorem lookupRows_of_betweenRows (hne : rows ≠ []) (hsrt : (rows.map StallRow.inputTokens).Pairwise (· < ·))
    {read : StallRow → Except TableError ℚ} (hrd : ∀ row ∈ rows, ∀ x, read row = .ok x → v row = x) {x : ℚ}
    (h : betweenRows (.error .indexError) (readMean n) extrapolation n
      (rows.map fun row => (row.inputTokens, read row)) = .ok x) :
    x = lookupRows extrapolation n (rows.map fun row => (row.inputTokens, v row)) ∧
      ∀ row ∈ rows, row.inputTokens = n → ∃ y, read row = .ok y := by
  unfold lookupRows
  rcases betweenRows_cases extrapolation n hne hsrt with
    ⟨row, hrow, hsa, heq⟩ | ⟨left, hleft, right, hright, hsa, -, -, -, heq⟩
  · rw [heq] at h ⊢
    exact ⟨(hrd row hrow x h).symm, fun row' hrow' hn => ⟨x, hsa row' hrow' hn ▸ h⟩⟩
  · rw [heq] at h ⊢
    unfold readMean at h
    cases hl : read left with
    | error e =>
      rw [hl] at h
      nomatch h
    | ok y =>
      cases hr : read right with
      | error e =>
        rw [hl, hr] at h
        nomatch h
      | ok z =>
        rw [hl, hr] at h
        refine ⟨?_, ?_⟩
        · rw [hrd left hleft y hl, hrd right hright z hr]
          exact (ok.inj h).symm
        · intro row' hrow' hn
          rcases hsa row' hrow' hn with rfl | rfl
          · exact ⟨y, hl⟩
          · exact ⟨z, hr⟩

theorem readField_eq_ok {values : Option (List ℚ)} {i : Nat} {x : ℚ} (h : readField values i = .ok x) :
    ∃ l, values = some l ∧ l[i]? = some x := by
  cases values with
  | none => nomatch h
  | some l =>
    unfold readField at h
    dsimp only at h
    cases hx : l[i]? with
    | none =>
      rw [hx] at h
      nomatch h
    | some value =>
      rw [hx] at h
      exact ⟨l, rfl, hx.trans (congrArg some (ok.inj h))⟩

theorem lookupSuffix_spec (hitem : table.models.get? model = some item) (hvld : item.Valid) {s : Nat} {x : ℚ}
    (h : table.lookupSuffix model n s = .ok x) : s ≤ item.groupCount ∧
      x = lookupRows table.inputExtrapolation n (item.rows.map fun row => (row.inputTokens, suffixStall s row)) ∧
      ∀ row ∈ item.rows, row.inputTokens = n → ∃ l, row.suffixStallMs = some l ∧ l[s]? = some (suffixStall s row) := by
  unfold lookupSuffix lookupField at h
  rw [hitem] at h
  dsimp only at h
  split at h
  · nomatch h
  rename_i hs
  split at h
  · nomatch h
  have hrd : ∀ row ∈ item.rows, ∀ y, readField row.suffixStallMs s = .ok y → suffixStall s row = y := by
    intro row _ y hy
    obtain ⟨l, hl, hget⟩ := readField_eq_ok hy
    unfold suffixStall
    rw [hl, bind_some, hget]
    rfl
  obtain ⟨hx, hmeasured⟩ := lookupRows_of_betweenRows hvld.nonempty hvld.inOrder hrd h
  refine ⟨not_lt.1 hs, hx, ?_⟩
  intro row hrow hn
  obtain ⟨y, hy⟩ := hmeasured row hrow hn
  rw [hrd row hrow y hy]
  exact readField_eq_ok hy

theorem le_of_lookup (hitem : table.models.get? model = some item) {p : Nat} {x : ℚ} (h : table.lookup model n p = .ok x) :
    p ≤ item.groupCount := by
  unfold lookup lookupField at h
  rw [hitem] at h
  dsimp only at h
  split at h
  · nomatch h
  · rename_i hp
    exact not_lt.1 hp

/-- What the lookups of a model have in both modes, for every input length: they are zero with everything resident and never
negative, and at the length of a row they are the row. -/
structure KeepsRows (table : PrefixStallTable) (model : Nat) (item : StallModel) (n : Nat) : Prop where
  prefixes : ∀ p ≤ item.groupCount, ∃ x, table.lookup model n p = .ok x ∧ 0 ≤ x
  full : table.lookup model n item.groupCount = .ok 0
  measured : ∀ row ∈ item.rows, row.inputTokens = n → ∀ p ≤ item.groupCount, ∃ x, row.prefixStallMs[p]? = some x ∧
    table.lookup model n p = .ok x
  suffixes : (∀ row ∈ item.rows, row.suffixStallMs ≠ none) → ∀ s ≤ item.groupCount, ∃ x, table.lookupSuffix model n s = .ok x
  suffixNonneg : ∀ s x, table.lookupSuffix model n s = .ok x → 0 ≤ x
  start : ∀ x, table.lookupSuffix model n 0 = .ok x → x = 0
  measuredSuffix : ∀ row ∈ item.rows, row.inputTokens = n → ∀ s x, table.lookupSuffix model n s = .ok x →
    ∃ l, row.suffixStallMs = some l ∧ l[s]? = some x

/-- The lookups go down with the prefix and up with the start of the suffix, so that the envelope of `curve` has nothing to do.
-/
structure KeepsOrder (table : PrefixStallTable) (model : Nat) (item : StallModel) (n : Nat) : Prop where
  falling : ∀ p q x y, p ≤ q → table.lookup model n p = .ok x → table.lookup model n q = .ok y → y ≤ x
  rising : ∀ s t x y, s ≤ t → table.lookupSuffix model n s = .ok x → table.lookupSuffix model n t = .ok y → x ≤ y
  curve : table.curve model n = (range (item.groupCount + 1)).mapM (table.lookup model n)

theorem lookup_eq_prefixStall (hitem : table.models.get? model = some item) (hvld : item.Valid) (n : Nat) {p : Nat}
    (hp : p ≤ item.groupCount) : table.lookup model n p =
      .ok (lookupRows table.inputExtrapolation n (item.rows.map fun row => (row.inputTokens, prefixStall p row))) :=
  lookup_eq hitem hvld n hp

theorem lookupSuffix_eq (hitem : table.models.get? model = some item) (hvld : item.Valid)
    (hall : ∀ row ∈ item.rows, row.suffixStallMs ≠ none) (n : Nat) {s : Nat} (hs : s ≤ item.groupCount) :
      table.lookupSuffix model n s =
      .ok (lookupRows table.inputExtrapolation n (item.rows.map fun row => (row.inputTokens, suffixStall s row))) := by
  unfold lookupSuffix lookupField
  rw [hitem]
  dsimp only
  rw [if_neg (not_lt.2 hs), if_neg]
  · refine betweenRows_readMean table.inputExtrapolation n hvld.nonempty hvld.inOrder ?_
    intro row hrow
    obtain ⟨l, hl⟩ := ne_none_iff_exists'.1 (hall row hrow)
    have hlt : s < l.length := by
      rw [((hvld.rows row hrow).suffix l hl).1]
      exact Nat.lt_succ_of_le hs
    unfold suffixStall
    rw [hl, readField_eq hlt, bind_some, getElem?_eq_getElem hlt]
    rfl
  · cases hrows : item.rows with
    | nil => exact absurd hrows hvld.nonempty
    | cons row rows =>
      obtain ⟨l, hl⟩ := ne_none_iff_exists'.1 (hall row (hrows ▸ mem_cons_self))
      simp [hl]

theorem keepsRows (hitem : table.models.get? model = some item) (hvld : item.Valid) (n : Nat) :
    KeepsRows table model item n := by
  constructor
  case prefixes =>
    exact fun p hp => ⟨_, lookup_eq_prefixStall hitem hvld n hp,
      lookupRows_nonneg _ n hvld.nonempty hvld.inOrder fun row hrow =>
      prefixStall_nonneg (hvld.rows row hrow) hp⟩
  case full =>
    rw [lookup_eq_prefixStall hitem hvld n le_rfl,
      lookupRows_zero _ n hvld.nonempty hvld.inOrder fun row hrow => prefixStall_full (hvld.rows row hrow)]
  case measured =>
    rintro row hrow rfl p hp
    have hlt : p < row.prefixStallMs.length := by
      rw [(hvld.rows row hrow).length]
      exact Nat.lt_succ_of_le hp
    refine ⟨prefixStall p row, ?_, ?_⟩
    · unfold prefixStall
      rw [getElem?_eq_getElem hlt]
      rfl
    · rw [lookup_eq_prefixStall hitem hvld _ hp,
        lookupRows_measured _ hvld.inOrder hrow (prefixStall_nonneg (hvld.rows row hrow) hp)]
  case suffixes => exact fun hall s hs => ⟨_, lookupSuffix_eq hitem hvld hall n hs⟩
  case suffixNonneg =>
    intro s x h
    obtain ⟨hs, rfl, -⟩ := lookupSuffix_spec hitem hvld h
    exact lookupRows_nonneg _ n hvld.nonempty hvld.inOrder fun row hrow => suffixStall_nonneg (hvld.rows row hrow) hs
  case start =>
    intro x h
    obtain ⟨-, rfl, -⟩ := lookupSuffix_spec hitem hvld h
    exact lookupRows_zero _ n hvld.nonempty hvld.inOrder fun row hrow => suffixStall_zero (hvld.rows row hrow)
  case measuredSuffix =>
    rintro row hrow rfl s x h
    obtain ⟨hs, rfl, hmeasured⟩ := lookupSuffix_spec hitem hvld h
    rw [lookupRows_measured _ hvld.inOrder hrow (suffixStall_nonneg (hvld.rows row hrow) hs)]
    exact hmeasured row hrow rfl

theorem raiseBackward_set_last {values : List ℚ} (hchain : values.IsChain (· ≥ ·)) (hla : values[values.length - 1]? = some 0) :
    raiseBackward (values.set (values.length - 1) 0) = values := by
  obtain ⟨hlt, hzero⟩ := List.getElem?_eq_some_iff.1 hla
  have hset : values.set (values.length - 1) 0 = values := by
    rw [← hzero]
    exact set_getElem_self hlt
  rw [hset, raiseBackward_of_chain hchain]

theorem keepsOrder (hitem : table.models.get? model = some item) (hvld : item.Valid)
    (hwth : Within table.inputExtrapolation item.rows n) : KeepsOrder table model item n := by
  have hfalling : ∀ p q, p ≤ q → q ≤ item.groupCount →
      lookupRows table.inputExtrapolation n (item.rows.map fun row => (row.inputTokens, prefixStall q row)) ≤
        lookupRows table.inputExtrapolation n
          (item.rows.map fun row => (row.inputTokens, prefixStall p row)) := fun p q hpq hq =>
    lookupRows_mono hvld.nonempty hvld.inOrder hwth fun row hrow => prefixStall_anti (hvld.rows row hrow) hpq hq
  constructor
  case falling =>
    intro p q x y hpq hx hy
    have hq := le_of_lookup hitem hy
    rw [lookup_eq_prefixStall hitem hvld n (hpq.trans hq)] at hx
    rw [lookup_eq_prefixStall hitem hvld n hq] at hy
    rw [← ok.inj hx, ← ok.inj hy]
    exact hfalling p q hpq hq
  case rising =>
    intro s t x y hst hx hy
    obtain ⟨-, rfl, -⟩ := lookupSuffix_spec hitem hvld hx
    obtain ⟨ht, rfl, -⟩ := lookupSuffix_spec hitem hvld hy
    exact lookupRows_mono hvld.nonempty hvld.inOrder hwth fun row hrow => suffixStall_mono (hvld.rows row hrow) hst ht
  case curve =>
    have hmap := mapM_ok fun p (hp : p ∈ range (item.groupCount + 1)) =>
      lookup_eq_prefixStall hitem hvld n (Nat.lt_succ_iff.1 (mem_range.1 hp))
    unfold curve
    rw [hitem]
    dsimp only
    rw [hmap]
    refine congrArg ok (raiseBackward_set_last ?_ ?_)
    · refine List.Pairwise.isChain (pairwise_map.2 ?_)
      refine List.Pairwise.imp_of_mem (fun {p q} _ hq hpq => ?_) pairwise_lt_range
      exact hfalling p q (le_of_lt hpq) (Nat.lt_succ_iff.1 (mem_range.1 hq))
    · have hlt : item.groupCount < ((range (item.groupCount + 1)).map fun p =>
          lookupRows table.inputExtrapolation n
            (item.rows.map fun row => (row.inputTokens, prefixStall p row))).length := by simp
      rw [length_map, length_range, Nat.add_sub_cancel, getElem?_eq_getElem hlt, getElem_map, getElem_range]
      exact congrArg some (lookupRows_zero _ n hvld.nonempty hvld.inOrder fun row hrow => prefixStall_full (hvld.rows row hrow))

/-- The lookups keep the shape of the rows, up to the last row or when it stands for what is past it. -/
theorem lookup_shape {document : List (Nat × StallModel)} (haccept : accept document extrapolation = .ok table)
    (hitem : table.models.get? model = some item) (n : Nat) :
    KeepsRows table model item n ∧ (Within extrapolation item.rows n → KeepsOrder table model item n) := by
  obtain ⟨hmode, hvld⟩ := valid_of_accept haccept
  exact ⟨keepsRows hitem (hvld model item hitem) n, fun hwth => keepsOrder hitem (hvld model item hitem) (hmode ▸ hwth)⟩

/-- A model of two groups, whose curves cross when they are extended. -/
def crossingModel : StallModel where
  groupCount := 2
  prefixBytes := [0, 1, 2]
  rows := [⟨1, [10, 0, 0], none, none⟩, ⟨2, [5, 5, 0], none, none⟩]

def crossingTable (extrapolation : InputExtrapolation) : PrefixStallTable := ⟨Dict.empty.set 0 crossingModel, extrapolation⟩

theorem accept_crossing (extrapolation : InputExtrapolation) : accept [(0, crossingModel)] extrapolation =
    .ok (crossingTable extrapolation) :=
  rfl

theorem lookup_shape_crossing : KeepsOrder (crossingTable .clamp) 0 crossingModel 3 :=
  (lookup_shape (accept_crossing .clamp) rfl 3).2 (.inl rfl)

/-- Past the last row, the stall with one group is extended above that with none. -/
theorem lookup_not_monotone : ¬∀ (document : List (Nat × StallModel)) (extrapolation : InputExtrapolation)
    (table : PrefixStallTable)
    (model : Nat) (item : StallModel) (n : Nat), accept document extrapolation = .ok table →
      table.models.get? model = some item →
    KeepsOrder table model item n := by
  intro hall
  have hord := hall _ _ _ 0 crossingModel 3 (accept_crossing .linear) rfl
  have hno : (crossingTable .linear).lookup 0 3 0 = .ok 0 := by decide +kernel
  have hone : (crossingTable .linear).lookup 0 3 1 = .ok 10 := by decide +kernel
  exact absurd (hord.falling 0 1 0 10 (Nat.zero_le 1) hno hone) (by decide)

/-! ## The attribution -/

theorem shapley_additive {target h2dOnly allocationOnly both : ℚ} (htgt : 0 ≤ target) (hh2d : 0 ≤ h2dOnly)
    (halo : 0 ≤ allocationOnly) (hh2d' : h2dOnly ≤ both) (halo' : allocationOnly ≤ both) :
    0 ≤ (shapley target h2dOnly allocationOnly both).1 ∧ 0 ≤ (shapley target h2dOnly allocationOnly both).2 ∧
      (shapley target h2dOnly allocationOnly both).1 + (shapley target h2dOnly allocationOnly both).2 = target := by
  unfold shapley
  dsimp only
  split
  · refine ⟨le_max_left _ _, le_rfl, ?_⟩
    rw [add_zero, max_eq_right htgt]
  · rename_i hpos
    rw [not_or, not_le, not_le] at hpos
    have hscale : 0 ≤ target / ((h2dOnly + both - allocationOnly) / 2 + (allocationOnly + both - h2dOnly) / 2) :=
      div_nonneg htgt hpos.2.le
    have hfst : 0 ≤ (h2dOnly + both - allocationOnly) / 2 := by linarith
    have hsec : 0 ≤ (allocationOnly + both - h2dOnly) / 2 := by linarith
    refine ⟨le_max_left _ _, le_max_left _ _, ?_⟩
    rw [max_eq_right (mul_nonneg hfst hscale), max_eq_right (mul_nonneg hsec hscale), ← add_mul, mul_div_cancel₀ _ hpos.2.ne']

theorem replay_le (profile : LoadingProfile) {h2dGbps segmentAllocationMs : ℚ} (hh2d : 0 < h2dGbps)
    (halo : 0 ≤ segmentAllocationMs)
    (model : Nat) (kind : ResidencyKind) (stateCount : Nat) (useH2d useAllocation : Bool) (row : StallRow) :
    profile.replay h2dGbps segmentAllocationMs model kind stateCount useH2d useAllocation row ≤
      profile.replay h2dGbps segmentAllocationMs model kind stateCount true true row := by
  have hbyt : ∀ group : Group, 0 ≤ (group.logicalBytes : ℚ) / (h2dGbps * 1000000) := fun group =>
    div_nonneg (Nat.cast_nonneg _) (mul_nonneg hh2d.le (by norm_num))
  refine replayStall_mono _ _ (fun _ h => h) (fun group => add_le_add ?_ ?_) fun group => add_nonneg (hbyt group) halo
  · cases useH2d with
    | true => exact le_rfl
    | false => exact hbyt group
  · cases useAllocation with
    | true => exact le_rfl
    | false => exact halo

theorem attribution_additive (hvld : item.Valid) (hmode : table.inputExtrapolation = .clamp) (profile : LoadingProfile)
    (hh2d : ∀ h2dGbps ∈ profile.h2dGbps, 0 < h2dGbps) (halo : ∀ segmentAllocationMs ∈ profile.segmentAllocationMs,
      0 ≤ segmentAllocationMs)
    (model n stateCount : Nat) (kind : ResidencyKind) {stall : ℚ} (hsll : 0 ≤ stall) :
    0 ≤ (table.attribution profile model item n stateCount kind stall).1 ∧
      0 ≤ (table.attribution profile model item n stateCount kind stall).2 ∧
      (table.attribution profile model item n stateCount kind stall).1 +
        (table.attribution profile model item n stateCount kind stall).2 =
        stall := by
  unfold attribution
  split
  · rename_i h2dGbps segmentAllocationMs hgbps hms
    split
    · exact ⟨hsll, le_rfl, add_zero stall⟩
    · have hle := fun useH2d useAllocation row (_ : row ∈ item.rows) =>
        replay_le profile (hh2d _ hgbps) (halo _ hms) model kind stateCount useH2d useAllocation row
      have hnn : ∀ useH2d useAllocation, ∀ row ∈ item.rows,
          0 ≤ profile.replay h2dGbps segmentAllocationMs model kind stateCount useH2d useAllocation row :=
        fun _ _ _ _ => replayStall_nonneg _ _ _ _
      exact shapley_additive hsll (lookupRows_nonneg _ n hvld.nonempty hvld.inOrder (hnn true false))
        (lookupRows_nonneg _ n hvld.nonempty hvld.inOrder (hnn false true))
        (lookupRows_mono hvld.nonempty hvld.inOrder (.inl hmode) (hle true false))
        (lookupRows_mono hvld.nonempty hvld.inOrder (.inl hmode) (hle false true))
  · exact ⟨hsll, le_rfl, add_zero stall⟩

/-- In clamp mode the two components are not negative, and their sum is the stall that is looked up. -/
theorem exposedLoadingComponents_additive {document : List (Nat × StallModel)} (haccept : accept document .clamp = .ok table)
    (profile : LoadingProfile) (hh2d : ∀ h2dGbps ∈ profile.h2dGbps, 0 < h2dGbps)
    (hallocation : ∀ segmentAllocationMs ∈ profile.segmentAllocationMs, 0 ≤ segmentAllocationMs) (model n stateCount : Nat)
    (kind : ResidencyKind) :
    (∀ stall, table.target kind model n stateCount = .ok stall → ∃ h2d allocation,
      table.exposedLoadingComponents profile model n stateCount kind = .ok (h2d, allocation) ∧
        0 ≤ h2d ∧ 0 ≤ allocation ∧ h2d + allocation = stall) ∧
    ∀ e, table.target kind model n stateCount = .error e →
      table.exposedLoadingComponents profile model n stateCount kind = .error e := by
  obtain ⟨hmode, hvld⟩ := valid_of_accept haccept
  unfold exposedLoadingComponents
  cases hitem : table.models.get? model with
  | none =>
    have htgt : table.target kind model n stateCount = .error .keyError := by
      cases kind <;> simp [target, lookup, lookupSuffix, lookupField, hitem]
    rw [htgt]
    refine ⟨nofun, ?_⟩
    intro e he
    cases he
    rfl
  | some item =>
    refine ⟨fun stall hsll => ?_, fun e he => by rw [he]; rfl⟩
    have hkps := keepsRows hitem (hvld model item hitem) n
    have hnn : 0 ≤ stall := by
      cases kind with
      | prefixGroups =>
        obtain ⟨x, hx, hnn⟩ := hkps.prefixes stateCount (le_of_lookup hitem hsll)
        rw [← ok.inj (hx.symm.trans hsll)]
        exact hnn
      | suffixGroups => exact hkps.suffixNonneg stateCount stall hsll
    rw [hsll]
    exact ⟨_, _, rfl, attribution_additive (hvld model item hitem) hmode profile hh2d hallocation model n stateCount kind hnn⟩

/-- Two groups that begin at one and two milliseconds, with a millisecond to load each of them and half of one to allocate it.
-/
def crossingProfile : LoadingProfile where
  groups := fun _ => [⟨[], 1000000, true⟩, ⟨[], 1000000, true⟩]
  groupBoundaryMs := fun _ _ => some [1, 2]
  h2dGbps := some 1
  segmentAllocationMs := some (1 / 2)

theorem exposedLoadingComponents_additive_crossing : ∃ h2d allocation,
    (crossingTable .clamp).exposedLoadingComponents crossingProfile 0 1 0 .prefixGroups = .ok (h2d, allocation) ∧
      0 ≤ h2d ∧ 0 ≤ allocation ∧ h2d + allocation = 10 := by
  refine (exposedLoadingComponents_additive (accept_crossing .clamp) crossingProfile ?_ ?_ 0 1 0 .prefixGroups).1 10
    (by decide +kernel)
  · rintro h2dGbps ⟨⟩
    decide
  · rintro segmentAllocationMs ⟨⟩
    exact div_nonneg zero_le_one zero_le_two

end ServerlessLLM.Simulator.PrefixStallTable
