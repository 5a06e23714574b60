import ServerlessLLM.Simulator.Mckp

/-!
# Tables that are accepted

What the checks of `PrefixStallTable.__init__` leave: the bytes of the prefixes go up, the rows are in the order of their input
lengths, and their stalls go down.
-/

namespace ServerlessLLM.Simulator

open List Except

/-- A row that passed the checks. -/
structure StallRow.Valid (groupCount : Nat) (row : StallRow) : Prop where
  length : row.prefixStallMs.length = groupCount + 1
  full : row.prefixStallMs.getLast? = some 0
  chain : row.prefixStallMs.IsChain (· ≥ ·)
  suffix : ∀ suffix ∈ row.suffixStallMs, suffix.length = groupCount + 1 ∧ suffix.head? = some 0 ∧ suffix.IsChain (· ≤ ·)

/-- A model that passed the checks. -/
structure StallModel.Valid (item : StallModel) : Prop where
  bytesLength : item.prefixBytes.length = item.groupCount + 1
  bytesChain : item.prefixBytes.IsChain (· ≤ ·)
  nonempty : item.rows ≠ []
  inOrder : (item.rows.map StallRow.inputTokens).Pairwise (· < ·)
  rows : ∀ row ∈ item.rows, row.Valid item.groupCount

namespace PrefixStallTable

variable {table : PrefixStallTable} {model : Nat} {item : StallModel}

variable {groupCount : Nat} {document : List (Nat × StallModel)}

theorem valid_of_checkRow {row : StallRow} (h : checkRow model groupCount row = .ok ()) : row.Valid groupCount := by
  unfold checkRow at h
  split at h
  · cases h
  rename_i hlen
  split at h
  · cases h
  rename_i hfull
  split at h
  · cases h
  rename_i hchain
  refine ⟨not_not.1 hlen, not_not.1 hfull, not_not.1 hchain, ?_⟩
  intro suffix hsuf
  rw [Option.mem_def] at hsuf
  rw [hsuf] at h
  dsimp only at h
  split at h
  · cases h
  rename_i hlen'
  split at h
  · cases h
  rename_i hzero
  split at h
  · cases h
  rename_i hchain'
  exact ⟨not_not.1 hlen', not_not.1 hzero, not_not.1 hchain'⟩

theorem valid_of_checkRows {rows : List StallRow} (h : checkRows model groupCount rows = .ok ()) :
    ∀ row ∈ rows, row.Valid groupCount := by
  induction rows with
  | nil => simp
  | cons row rows ih =>
    rw [checkRows] at h
    cases hrow : checkRow model groupCount row with
    | error e =>
      rw [hrow] at h
      cases h
    | ok _ =>
      rw [hrow] at h
      intro x hx
      rcases mem_cons.1 hx with rfl | hx
      · exact valid_of_checkRow hrow
      · exact ih h x hx

theorem valid_of_acceptModel {accepted : StallModel} (h : acceptModel model item = .ok accepted) : accepted.Valid := by
  unfold acceptModel at h
  split at h
  · cases h
  rename_i hlen
  split at h
  · cases h
  rename_i hchain
  dsimp only at h
  split at h
  · cases h
  rename_i hrows
  rw [not_or] at hrows
  cases hcheck : checkRows model item.groupCount (item.rows.insertionSort fun a b => a.inputTokens ≤ b.inputTokens) with
  | error e =>
    rw [hcheck] at h
    cases h
  | ok _ =>
    rw [hcheck] at h
    obtain rfl := ok.inj h
    refine ⟨not_not.1 hlen, not_not.1 hchain, hrows.1, ?_, valid_of_checkRows hcheck⟩
    have hsrt := pairwise_insertionSort (fun a b : StallRow => a.inputTokens ≤ b.inputTokens) item.rows
    have hle := pairwise_map.2 hsrt
    exact (hle.and (not_not.1 hrows.2)).imp fun hab => lt_of_le_of_ne hab.1 hab.2

theorem valid_of_acceptModels {models models' : Dict Nat StallModel}
    (hmds : ∀ model item, models.get? model = some item → item.Valid) (h : acceptModels document models = .ok models') :
    ∀ model item, models'.get? model = some item → item.Valid := by
  induction document generalizing models with
  | nil =>
    obtain rfl := ok.inj h
    exact hmds
  | cons entry document ih =>
    obtain ⟨model, item⟩ := entry
    rw [acceptModels] at h
    cases hitem : acceptModel model item with
    | error e =>
      rw [hitem] at h
      cases h
    | ok accepted =>
      rw [hitem] at h
      refine ih ?_ h
      intro model' item' hget
      rw [Dict.get?_set] at hget
      split at hget
      · rw [← Option.some.inj hget]
        exact valid_of_acceptModel hitem
      · exact hmds model' item' hget

theorem valid_of_accept {extrapolation : InputExtrapolation} (h : accept document extrapolation = .ok table) :
    table.inputExtrapolation = extrapolation ∧ ∀ model item, table.models.get? model = some item → item.Valid := by
  unfold accept at h
  cases hmds : acceptModels document .empty with
  | error e =>
    rw [hmds] at h
    cases h
  | ok models =>
    rw [hmds] at h
    obtain rfl := ok.inj h
    refine ⟨rfl, valid_of_acceptModels ?_ hmds⟩
    intro model item hget
    cases hget

/-! ## Lookups -/

theorem prefixBytes_eq (hitem : table.models.get? model = some item) {p : Nat} (hp : p ≤ item.groupCount) :
    table.prefixBytes model p = .ok (item.prefixBytes[p]?.getD 0) := by
  unfold prefixBytes
  rw [hitem]
  exact if_neg (not_lt.2 hp)

theorem getElem_le_iff_lt_countP {l : List Nat} (h : l.Pairwise (· < ·)) (n : Nat) {i : Nat} (hi : i < l.length) :
    l[i] ≤ n ↔ i < l.countP (· ≤ n) := by
  induction l generalizing i with
  | nil => nomatch hi
  | cons a l ih =>
    obtain ⟨hfst, hrs⟩ := pairwise_cons.1 h
    by_cases ha : a ≤ n
    · have hcnt : (a :: l).countP (· ≤ n) = l.countP (· ≤ n) + 1 := countP_cons_of_pos (decide_eq_true ha)
      rw [hcnt]
      cases i with
      | zero => simpa using ha
      | succ i =>
        rw [getElem_cons_succ, ih hrs (Nat.lt_of_succ_lt_succ hi)]
        omega
    · have hno : l.countP (· ≤ n) = 0 := by
        refine countP_eq_zero.2 ?_
        intro x hx
        have hlt := hfst x hx
        simp
        omega
      have hcnt : (a :: l).countP (· ≤ n) = l.countP (· ≤ n) := countP_cons_of_neg (by simpa using ha)
      rw [hcnt, hno]
      have hle : a ≤ (a :: l)[i] := by
        cases i with
        | zero => exact le_rfl
        | succ i => exact le_of_lt (hfst _ (getElem_mem _))
      omega

/-- An input length that is not past the rows, or for which the last row stands. -/
def Within (extrapolation : InputExtrapolation) (rows : List StallRow) (inputTokens : Nat) : Prop :=
  extrapolation = .clamp ∨ rows.length = 1 ∨ ∃ row ∈ rows, inputTokens ≤ row.inputTokens

section Rows

variable {rows : List StallRow} {n : Nat}

section

variable (hsrt : (rows.map StallRow.inputTokens).Pairwise (· < ·))

include hsrt

theorem inputTokens_lt {i j : Nat} (hi : i < rows.length)
    (hj : j < rows.length) (hij : i < j) : rows[i].inputTokens < rows[j].inputTokens :=
  pairwise_iff_getElem.1 (pairwise_map.1 hsrt) i j hi hj hij

theorem inputTokens_le {i j : Nat} (hi : i < rows.length)
    (hj : j < rows.length) (hij : i ≤ j) : rows[i].inputTokens ≤ rows[j].inputTokens := by
  rcases Nat.lt_or_eq_of_le hij with h | rfl
  · exact le_of_lt (inputTokens_lt hsrt hi hj h)
  · exact le_rfl

theorem eq_first_of_le (hpos : 0 < rows.length)
    (hn : n ≤ rows[0].inputTokens) : ∀ row ∈ rows, row.inputTokens = n → row = rows[0] := by
  intro row hrow heq
  obtain ⟨i, hi, rfl⟩ := getElem_of_mem hrow
  rcases Nat.eq_zero_or_pos i with rfl | haft
  · rfl
  · have := inputTokens_lt hsrt hpos hi haft
    omega

theorem eq_of_le_of_le {i k : Nat} (hi : i < rows.length)
    (hk : k < rows.length) (hik : i ≤ k) (hn : rows[k].inputTokens ≤ n) (heq : rows[i].inputTokens = n) :
      rows[i] = rows[k] := by
  rcases Nat.lt_or_eq_of_le hik with hbef | rfl
  · have := inputTokens_lt hsrt hi hk hbef
    omega
  · rfl

end

variable {α : Type} (zero : α) (v : StallRow → α)

theorem column_at (i : Nat) (hi : i < rows.length) :
    (rows.map fun row => (row.inputTokens, v row))[i]?.getD (0, zero) = (rows[i].inputTokens, v rows[i]) := by
  rw [getElem?_map, getElem?_eq_getElem hi]
  rfl

theorem column_head (hpos : 0 < rows.length) :
    (rows.map fun row => (row.inputTokens, v row)).head?.getD (0, zero) = (rows[0].inputTokens, v rows[0]) := by
  rw [head?_eq_getElem?]
  exact column_at zero v 0 hpos

theorem column_last (hend : rows.length - 1 < rows.length) :
    (rows.map fun row => (row.inputTokens, v row)).getLast?.getD (0, zero) =
      (rows[rows.length - 1].inputTokens, v rows[rows.length - 1]) := by
  rw [getLast?_eq_getElem?, length_map]
  exact column_at zero v _ hend

end Rows

theorem betweenRows_cases (extrapolation : InputExtrapolation) (n : Nat) {rows : List StallRow} (hne : rows ≠ [])
    (hsrt : (rows.map StallRow.inputTokens).Pairwise (· < ·)) :
    (∃ row ∈ rows, (∀ row' ∈ rows, row'.inputTokens = n → row' = row) ∧
      ∀ {α : Type} (zero : α) (mean : Nat × α → Nat × α → α) (v : StallRow → α),
        betweenRows zero mean extrapolation n (rows.map fun row => (row.inputTokens, v row)) = v row) ∨
    ∃ left ∈ rows, ∃ right ∈ rows, (∀ row' ∈ rows, row'.inputTokens = n → row' = left ∨ row' = right) ∧
      left.inputTokens < right.inputTokens ∧ left.inputTokens ≤ n ∧ (Within extrapolation rows n → n ≤ right.inputTokens) ∧
      ∀ {α : Type} (zero : α) (mean : Nat × α → Nat × α → α) (v : StallRow → α),
        betweenRows zero mean extrapolation n (rows.map fun row => (row.inputTokens, v row)) =
          mean (left.inputTokens, v left) (right.inputTokens, v right) := by
  have hpos := length_pos_of_ne_nil hne
  have hend : rows.length - 1 < rows.length := Nat.sub_lt hpos Nat.one_pos
  by_cases hfst : n ≤ rows[0].inputTokens
  · refine .inl ⟨rows[0], getElem_mem _, eq_first_of_le hsrt hpos hfst, fun zero mean v => ?_⟩
    unfold betweenRows
    rw [column_head zero v hpos, column_last zero v hend]
    exact if_pos hfst
  have hatEnd : rows[rows.length - 1].inputTokens ≤ n → ∀ row ∈ rows, row.inputTokens = n → row = rows[rows.length - 1] := by
    intro hpast row hrow heq
    obtain ⟨i, hi, rfl⟩ := getElem_of_mem hrow
    exact eq_of_le_of_le hsrt hi hend (Nat.le_sub_one_of_lt hi) hpast heq
  by_cases hclamp : rows[rows.length - 1].inputTokens ≤ n ∧ (extrapolation = .clamp ∨ rows.length = 1)
  · refine .inl ⟨rows[rows.length - 1], getElem_mem _, hatEnd hclamp.1, fun zero mean v => ?_⟩
    unfold betweenRows
    rw [column_head zero v hpos, column_last zero v hend, length_map]
    exact (if_neg hfst).trans (if_pos hclamp)
  by_cases hpast : rows[rows.length - 1].inputTokens ≤ n
  · -- the last two rows
    have hone : rows.length ≠ 1 := fun h => hclamp ⟨hpast, .inr h⟩
    have htwo : rows.length - 1 - 1 < rows.length := by omega
    refine .inr ⟨rows[rows.length - 1 - 1], getElem_mem _, rows[rows.length - 1], getElem_mem _,
      fun row hrow heq => .inr (hatEnd hpast row hrow heq), inputTokens_lt hsrt htwo hend (by omega),
      (inputTokens_le hsrt htwo hend (by omega)).trans hpast, fun hwth => ?_, fun zero mean v => ?_⟩
    · rcases hwth with hmode | hsingle | ⟨row, hrow, hn⟩
      · exact absurd ⟨hpast, .inl hmode⟩ hclamp
      · exact absurd hsingle hone
      · obtain ⟨i, hi, rfl⟩ := getElem_of_mem hrow
        exact hn.trans (inputTokens_le hsrt hi hend (by omega))
    · unfold betweenRows
      rw [column_head zero v hpos, column_last zero v hend, length_map]
      refine ((if_neg hfst).trans (if_neg hclamp)).trans ?_
      dsimp only
      rw [if_pos hpast, column_at zero v _ htwo, column_at zero v _ hend]
  · -- the rows before and after the input length
    have hcnt : ∀ {α : Type} (v : StallRow → α), ((rows.map fun row => (row.inputTokens, v row)).countP fun row => row.1 ≤ n) =
        (rows.map StallRow.inputTokens).countP (· ≤ n) := by
      intro α v
      rw [countP_map, countP_map]
      rfl
    have hk : ∀ (i : Nat) (hi : i < rows.length), rows[i].inputTokens ≤ n ↔
      i < (rows.map StallRow.inputTokens).countP (· ≤ n) := by
      intro i hi
      rw [← getElem_le_iff_lt_countP hsrt n (by rwa [length_map]), getElem_map]
    generalize (rows.map StallRow.inputTokens).countP (· ≤ n) = k at hcnt hk
    have hk0 : 0 < k := (hk 0 hpos).1 (by omega)
    have hklt : k < rows.length := by
      have := (hk _ hend).not.1 hpast
      omega
    have haft : n < rows[k].inputTokens := not_le.1 ((hk k hklt).not.2 (lt_irrefl k))
    have hbef : rows[k - 1].inputTokens ≤ n := (hk (k - 1) (by omega)).2 (by omega)
    refine .inr ⟨rows[k - 1], getElem_mem _, rows[k], getElem_mem _, fun row hrow heq => .inl ?_,
      hbef.trans_lt haft, hbef, fun _ => le_of_lt haft, fun zero mean v => ?_⟩
    · obtain ⟨i, hi, rfl⟩ := getElem_of_mem hrow
      exact eq_of_le_of_le hsrt hi (by omega) (Nat.le_sub_one_of_lt ((hk i hi).1 heq.le)) hbef heq
    · unfold betweenRows
      rw [column_head zero v hpos, column_last zero v hend, length_map]
      refine ((if_neg hfst).trans (if_neg hclamp)).trans ?_
      dsimp only
      rw [if_neg hpast, hcnt v, column_at zero v _ (by omega), column_at zero v _ hklt]

theorem betweenRows_readMean (extrapolation : InputExtrapolation) (n : Nat) {rows : List StallRow} (hne : rows ≠ [])
    (hsrt : (rows.map StallRow.inputTokens).Pairwise (· < ·)) {read : StallRow → Except TableError ℚ} {v : StallRow → ℚ}
    (hrd : ∀ row ∈ rows, read row = .ok (v row)) :
    betweenRows (.error .indexError) (readMean n) extrapolation n (rows.map fun row => (row.inputTokens, read row)) =
      .ok (lookupRows extrapolation n (rows.map fun row => (row.inputTokens, v row))) := by
  unfold lookupRows
  rcases betweenRows_cases extrapolation n hne hsrt with ⟨row, hrow, -, heq⟩ | ⟨left, hleft, right, hright, -, -, -, -, heq⟩
  · rw [heq, heq, hrd row hrow]
  · rw [heq, heq]
    unfold readMean
    rw [hrd left hleft, hrd right hright]
    rfl

theorem readField_eq {values : List ℚ} {i : Nat} (hi : i < values.length) : readField (some values) i = .ok values[i] := by
  unfold readField
  dsimp only
  rw [getElem?_eq_getElem hi]

theorem lookup_eq (hitem : table.models.get? model = some item) (hvld : item.Valid) (tokens : Nat) {p : Nat}
    (hp : p ≤ item.groupCount) :
    table.lookup model tokens p = .ok (lookupRows table.inputExtrapolation tokens
      (item.rows.map fun row => (row.inputTokens, row.prefixStallMs[p]?.getD 0))) := by
  unfold lookup lookupField
  rw [hitem]
  dsimp only
  rw [if_neg (not_lt.2 hp), if_neg]
  · refine betweenRows_readMean table.inputExtrapolation tokens hvld.nonempty hvld.inOrder ?_
    intro row hrow
    have hlt : p < row.prefixStallMs.length := by
      rw [(hvld.rows row hrow).length]
      exact Nat.lt_succ_of_le hp
    rw [readField_eq hlt, getElem?_eq_getElem hlt]
    rfl
  · cases hrows : item.rows with
    | nil => exact absurd hrows hvld.nonempty
    | cons row rows => simp

theorem damage_eq (hitem : table.models.get? model = some item) (hvld : item.Valid) {resident p : Nat}
    (hres : resident ≤ item.groupCount) (hp : p ≤ resident) (samples : List (Nat × ℚ)) :
    ∃ d, damage table model resident samples p = .ok d := by
  induction samples with
  | nil => exact ⟨0, rfl⟩
  | cons sample samples ih =>
    obtain ⟨tokens, weight⟩ := sample
    obtain ⟨d, hd⟩ := ih
    rw [damage]
    split
    · rw [lookup_eq hitem hvld tokens hres, lookup_eq hitem hvld tokens (hp.trans hres), hd]
      exact ⟨_, rfl⟩
    · exact ⟨d, hd⟩

end PrefixStallTable

end ServerlessLLM.Simulator
