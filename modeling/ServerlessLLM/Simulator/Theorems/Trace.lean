import ServerlessLLM.Library.Runs
import ServerlessLLM.Simulator.Trace

/-!
# What traces are loaded to

Both loops keep the same lines, so the arrivals match the requests.
-/

namespace ServerlessLLM.Simulator.Trace

open List Option Except Prod PythonText
open Outcome (bind_eq_ok)

variable {digit : Char → Option Nat} {float : List Char → Option ℚ} {o : Options} {layouts : Dict ℤ Layout}

/-! ## The lines that are kept -/

/-- What `load_trace` makes of a line. -/
structure Loads (digit : Char → Option Nat) (o : Options) (layouts : Dict ℤ Layout)
    (e : List (List Char) × Request) (inputTokens : ℤ)
    (layout : Layout) : Prop where
  input : intField digit e.1 2 = .ok inputTokens
  output : intField digit e.1 3 = .ok e.2.traceOutputTokens
  lookup : layouts.get? e.2.modelId = some layout
  inputTokens : e.2.inputTokens = clampTokens o layout inputTokens
  outputTokens : e.2.outputTokens = Trace.outputTokens o e.2.traceOutputTokens

variable {requestId : Nat} {fields lines : List (List Char)} {sourceRequests : Nat} {previous : Option ℤ}
  {entries : List (List (List Char) × Request)} {e : TraceError}

theorem loads_of_toRequest {modelId : ℤ} {r : Request} (h : toRequest digit o layouts requestId modelId fields = .ok r) :
    r.requestId = requestId ∧ ∃ inputTokens layout, Loads digit o layouts (fields, r) inputTokens layout := by
  obtain ⟨inputTokens, hinput, h⟩ := bind_eq_ok.1 h
  obtain ⟨traceOutputTokens, hout, h⟩ := bind_eq_ok.1 h
  obtain ⟨layout, hlay, h⟩ := bind_eq_ok.1 h
  obtain rfl := ok.inj h
  refine ⟨rfl, inputTokens, layout, hinput, hout, ?_, rfl, rfl⟩
  unfold layoutOf at hlay
  split at hlay
  · rename_i found hfnd
    rw [hfnd, ok.inj hlay]
  · nomatch hlay

theorem loadTraceFrom_spec
    (h : loadTraceFrom digit o layouts sourceRequests previous requestId lines = .ok entries) :
    entries.map (fun e => e.2.requestId) = range' requestId entries.length ∧
      ∀ e ∈ entries, ∃ inputTokens layout, Loads digit o layouts e inputTokens layout := by
  induction lines generalizing sourceRequests previous requestId entries with
  | nil =>
    obtain rfl := ok.inj h
    exact ⟨rfl, by simp⟩
  | cons line lines ih =>
    rw [loadTraceFrom] at h
    split at h
    · exact ih h
    · obtain ⟨modelId, -, h⟩ := bind_eq_ok.1 h
      simp only at h
      split at h
      · obtain ⟨request, hreq, h⟩ := bind_eq_ok.1 h
        obtain ⟨hid, hlds⟩ := loads_of_toRequest hreq
        split at h
        · obtain rfl := ok.inj h
          exact ⟨by simp [hid], by simpa using hlds⟩
        · obtain ⟨rest, hrs, h⟩ := bind_eq_ok.1 h
          obtain rfl := ok.inj h
          obtain ⟨hids, hall⟩ := ih hrs
          exact ⟨by simp [hid, hids, range'_succ], forall_mem_cons.2 ⟨hlds, hall⟩⟩
      · split at h
        · obtain rfl := ok.inj h
          exact ⟨rfl, by simp⟩
        · exact ih h

theorem loops_keep_same {raw : List (List (List Char) × ℚ)}
    (h : loadTraceFrom digit o layouts sourceRequests previous requestId lines = .ok entries)
    (hraw : rawArrivalsFrom digit float o.maxRequests o.traceMode sourceRequests previous lines = .ok raw) :
    raw.map fst = entries.map fst := by
  induction lines generalizing sourceRequests previous requestId entries raw with
  | nil =>
    obtain rfl := ok.inj h
    obtain rfl := ok.inj hraw
    rfl
  | cons line lines ih =>
    rw [loadTraceFrom] at h
    rw [rawArrivalsFrom] at hraw
    split at h
    · rename_i hskip
      rw [if_pos hskip] at hraw
      exact ih h hraw
    · rename_i hskip
      rw [if_neg hskip] at hraw
      obtain ⟨modelId, hmod, h⟩ := bind_eq_ok.1 h
      obtain ⟨modelId', hmod', hraw⟩ := bind_eq_ok.1 hraw
      obtain rfl : modelId = modelId' := ok.inj (hmod.symm.trans hmod')
      simp only at h hraw
      split at h
      · rename_i hkeep
        rw [if_pos hkeep] at hraw
        obtain ⟨request, -, h⟩ := bind_eq_ok.1 h
        obtain ⟨arrivals, harr, hraw⟩ := bind_eq_ok.1 hraw
        obtain ⟨arrival, hone⟩ : ∃ arrival, arrivals = [(split (strip line), arrival)] := by
          cases harv : floatField float (split (strip line)) 0 with
          | error e =>
            rw [harv] at harr
            nomatch harr
          | ok arrival =>
            rw [harv] at harr
            exact ⟨arrival, (ok.inj harr).symm⟩
        subst hone
        split at h
        · rename_i hstop
          rw [if_pos hstop] at hraw
          obtain rfl := ok.inj h
          obtain rfl := ok.inj hraw
          rfl
        · rename_i hgo
          rw [if_neg hgo] at hraw
          obtain ⟨rest, hrs, h⟩ := bind_eq_ok.1 h
          obtain ⟨rest', hrs', hraw⟩ := bind_eq_ok.1 hraw
          obtain rfl := ok.inj h
          obtain rfl := ok.inj hraw
          rw [map_append, map_cons, map_cons, ih hrs hrs']
          rfl
      · rename_i hskip
        rw [if_neg hskip] at hraw
        obtain ⟨arrivals, harr, hraw⟩ := bind_eq_ok.1 hraw
        obtain rfl := ok.inj harr
        split at h
        · rename_i hstop
          rw [if_pos hstop] at hraw
          obtain rfl := ok.inj h
          obtain rfl := ok.inj hraw
          rfl
        · rename_i hgo
          rw [if_neg hgo] at hraw
          obtain ⟨rest', hrs', hraw⟩ := bind_eq_ok.1 hraw
          obtain rfl := ok.inj hraw
          exact ih h hrs'

/-! ## Feasibility -/

theorem ceilDiv_le_iff {value divisor k : ℤ} (h : 0 < divisor) : ceilDiv value divisor ≤ k ↔ value ≤ k * divisor := by
  unfold ceilDiv
  rw [← Int.lt_add_one_iff, Int.ediv_lt_iff_lt_mul h, add_mul, one_mul]
  omega

theorem fits_iff (o : Options) (layout : Layout) (inputTokens outputTokens : ℤ) :
    Fits o layout inputTokens outputTokens ↔
      inputTokens + outputTokens ≤ (o.poolPages - layout.pageCount) * o.kvBlockTokens := by
  unfold Fits
  rw [← ceilDiv_le_iff o.kvBlockTokens_pos]
  omega

/-- Some input fits. -/
def Feasible (o : Options) (layout : Layout) (outputTokens : ℤ) : Prop := ∃ n, 1 ≤ n ∧ Fits o layout n outputTokens

theorem clampTokens_bounds (o : Options) (layout : Layout) (inputTokens : ℤ) :
    1 ≤ clampTokens o layout inputTokens ∧ clampTokens o layout inputTokens ≤ layout.maxInputTokens := by
  have hlimit := layout.maxInputTokens_pos
  have hscaled : 1 ≤ scaledTokens inputTokens o.inputScale := le_max_left _ _
  unfold clampTokens
  simp only
  omega

/-- Room is left for the output: `output_tokens` is given, or the trace has no more than one output token, or the tokens of the
line fit before the pool bounds them. -/
def LeavesRoom (o : Options) (layout : Layout) (inputTokens traceOutputTokens : ℤ) : Prop :=
  0 < o.outputTokens ∨ traceOutputTokens ≤ 1 ∨
    min (scaledTokens inputTokens o.inputScale) layout.maxInputTokens + traceOutputTokens ≤
      (o.poolPages - layout.pageCount) * o.kvBlockTokens

theorem fits_clampTokens_iff {layout : Layout} {inputTokens traceOutputTokens : ℤ}
    (h : Feasible o layout (outputTokens o traceOutputTokens)) :
    Fits o layout (clampTokens o layout inputTokens) (outputTokens o traceOutputTokens) ↔
      LeavesRoom o layout inputTokens traceOutputTokens := by
  obtain ⟨n, hn, hft⟩ := h
  have hlimit := layout.maxInputTokens_pos
  have hscaled : 1 ≤ scaledTokens inputTokens o.inputScale := le_max_left _ _
  rw [fits_iff] at hft ⊢
  unfold LeavesRoom clampTokens outputTokens at *
  simp only at *
  generalize (o.poolPages - layout.pageCount) * o.kvBlockTokens = room at *
  generalize scaledTokens inputTokens o.inputScale = scaled at *
  split at hft
  · rename_i hpos
    rw [if_pos hpos]
    exact iff_of_true (by omega) (.inl hpos)
  · rename_i hzero
    rw [if_neg hzero]
    omega

theorem normalizeArrivals_ne_mismatch {arrivalMode : ArrivalMode} {requestRateRps : ℚ} {raw : List ℚ} (a n : Nat) :
    normalizeArrivals arrivalMode requestRateRps raw.length raw ≠ .error (.filteringMismatch a n) := by
  unfold normalizeArrivals
  rw [if_neg (not_not.2 rfl)]
  split
  · nofun
  · split
    · nofun
    · simp only
      split
      · nofun
      · split <;> nofun

def LineError (e : TraceError) : Prop := e = .indexError ∨ e = .valueError

theorem lineError_of_intField {i : Nat} (h : intField digit fields i = .error e) : LineError e := by
  unfold intField field at h
  cases hfield : fields[i]? with
  | none =>
    rw [hfield] at h
    exact .inl (Except.error.inj h).symm
  | some text =>
    simp only [hfield, bind, Except.bind] at h
    split at h
    · nomatch h
    · exact .inr (Except.error.inj h).symm

theorem lineError_of_floatField {i : Nat} (h : floatField float fields i = .error e) : LineError e := by
  unfold floatField field at h
  cases hfield : fields[i]? with
  | none =>
    rw [hfield] at h
    exact .inl (Except.error.inj h).symm
  | some text =>
    simp only [hfield, bind, Except.bind] at h
    split at h
    · nomatch h
    · exact .inr (Except.error.inj h).symm

theorem bind_eq_error {α β : Type} {x : Except TraceError α} {f : α → Except TraceError β}
    (h : (x >>= f) = .error e) : x = .error e ∨ ∃ a, x = .ok a ∧ f a = .error e := by
  cases x with
  | error e' => exact .inl (congrArg error (error.inj h))
  | ok a => exact .inr ⟨a, rfl, h⟩

theorem lineError_of_rawArrivals {maxRequests : ℤ} {traceMode : Mode}
    (h : rawArrivalsFrom digit float maxRequests traceMode sourceRequests previous lines = .error e) : LineError e := by
  induction lines generalizing sourceRequests previous with
  | nil => nomatch h
  | cons line lines ih =>
    have hrs : ∀ {modelId : ℤ} {arrivals : List (List (List Char) × ℚ)},
        (if 0 < maxRequests ∧ maxRequests ≤ ↑(sourceRequests + 1) then ok arrivals else do
          let rest ← rawArrivalsFrom digit float maxRequests traceMode (sourceRequests + 1) (some modelId) lines
          .ok (arrivals ++ rest)) = .error e → LineError e := by
      intro modelId arrivals h
      split at h
      · nomatch h
      · rcases bind_eq_error h with h | ⟨rest, -, h⟩
        · exact ih h
        · nomatch h
    rw [rawArrivalsFrom] at h
    split at h
    · exact ih h
    · rcases bind_eq_error h with h | ⟨modelId, -, h⟩
      · exact lineError_of_intField h
      · simp only at h
        split at h
        · rcases bind_eq_error h with h | ⟨arrivals, -, h⟩
          · cases harv : floatField float (split (strip line)) 0 with
            | error e' =>
              rw [harv] at h
              exact error.inj h ▸ lineError_of_floatField harv
            | ok arrival =>
              rw [harv] at h
              nomatch h
          · exact hrs h
        · rcases bind_eq_error h with h | ⟨arrivals, -, h⟩
          · nomatch h
          · exact hrs h

theorem loadTraceArrivals_ne_mismatch {text : List Char}
    (h : loadTrace digit o layouts text = .ok entries) (arrivalMode : ArrivalMode) (requestRateRps : ℚ) (a n : Nat) :
    loadTraceArrivals digit float o.maxRequests o.traceMode entries.length arrivalMode requestRateRps text ≠
      .error (.filteringMismatch a n) := by
  intro herr
  rcases bind_eq_error herr with hraw | ⟨raw, hraw, herr⟩
  · rcases lineError_of_rawArrivals hraw with heq | heq
    · nomatch heq
    · nomatch heq
  · have hsa := congrArg length (loops_keep_same h hraw)
    rw [length_map, length_map] at hsa
    rw [← hsa, ← length_map snd] at herr
    exact normalizeArrivals_ne_mismatch a n herr

/-- The input tokens of a request are positive and within the limit of its model, and the arrivals come from the same lines. The
requests that can fit do exactly when each line leaves room for its output. -/
theorem loadTrace_fits_iff {text : List Char} {entries : List (List (List Char) × Request)}
    (h : loadTrace digit o layouts text = .ok entries) :
    (∀ e ∈ entries, ∀ layout, layouts.get? e.2.modelId = some layout → 1 ≤ e.2.inputTokens ∧
      e.2.inputTokens ≤ layout.maxInputTokens) ∧
    (∀ raw, rawArrivals digit float o.maxRequests o.traceMode text = .ok raw → raw.map fst = entries.map fst) ∧
    (∀ (arrivalMode : ArrivalMode) (requestRateRps : ℚ) (a n : Nat),
      loadTraceArrivals digit float o.maxRequests o.traceMode entries.length arrivalMode requestRateRps text ≠
        .error (.filteringMismatch a n)) ∧
    ((∀ e ∈ entries, ∀ layout, layouts.get? e.2.modelId = some layout → Feasible o layout e.2.outputTokens →
        Fits o layout e.2.inputTokens e.2.outputTokens) ↔
      ∀ e ∈ entries, ∀ layout, layouts.get? e.2.modelId = some layout → Feasible o layout e.2.outputTokens →
        ∀ inputTokens traceOutputTokens, intField digit e.1 2 = .ok inputTokens → intField digit e.1 3 = .ok traceOutputTokens →
          LeavesRoom o layout inputTokens traceOutputTokens) := by
  have hlds := (loadTraceFrom_spec h).2
  refine ⟨?_, fun raw hraw => loops_keep_same h hraw,
    fun arrivalMode requestRateRps a n => loadTraceArrivals_ne_mismatch h arrivalMode requestRateRps a n, ?_⟩
  · intro e he layout hlay
    obtain ⟨inputTokens, layout', hld⟩ := hlds e he
    obtain rfl : layout' = layout := some.inj (hld.lookup.symm.trans hlay)
    rw [hld.inputTokens]
    exact clampTokens_bounds o layout' inputTokens
  · refine forall_congr' fun e => forall_congr' fun he => forall_congr' fun layout => forall_congr' fun hlay =>
      forall_congr' ?_
    intro hfea
    obtain ⟨inputTokens, layout', hld⟩ := hlds e he
    obtain rfl : layout' = layout := some.inj (hld.lookup.symm.trans hlay)
    rw [hld.outputTokens] at hfea ⊢
    rw [hld.inputTokens, fits_clampTokens_iff hfea]
    constructor
    · intro hro input output hinput hout
      obtain rfl := ok.inj (hld.input.symm.trans hinput)
      obtain rfl := ok.inj (hld.output.symm.trans hout)
      exact hro
    · intro hall
      exact hall _ _ hld.input hld.output

def asciiDigit (c : Char) : Option Nat := if c.isDigit then some (c.toNat - '0'.toNat) else none

/-- A pool of two pages with blocks of eight tokens, and the output tokens of the trace. -/
def traceOutput : Options := ⟨0, 1, 0, 2, 8, .all, by decide⟩

def onePage : Dict ℤ Layout := ⟨[(0, ⟨100, 1, by decide⟩)], by decide⟩

def tenAndSeven : List Char := ['0', ' ', '0', ' ', '1', '0', ' ', '7']

theorem loadTrace_tenAndSeven : loadTrace asciiDigit traceOutput onePage tenAndSeven =
    .ok [([['0'], ['0'], ['1', '0'], ['7']], ⟨0, 0, 7, 7, 7⟩)] := by decide +kernel

/-- Lines with three, four and four input tokens, and two, four and four output tokens. -/
def threeLines : List Char :=
  ['0', ' ', '0', ' ', '3', ' ', '2', '\n', '1', ' ', '0', ' ', '4', ' ', '4', '\n', '2', ' ', '0', ' ', '4', ' ', '4']

theorem loadTrace_threeLines : loadTrace asciiDigit traceOutput onePage threeLines =
    .ok [([['0'], ['0'], ['3'], ['2']], ⟨0, 0, 3, 2, 2⟩), ([['1'], ['0'], ['4'], ['4']], ⟨1, 0, 4, 4, 4⟩),
      ([['2'], ['0'], ['4'], ['4']], ⟨2, 0, 4, 4, 4⟩)] := by decide +kernel

theorem threeLines_room : ∀ e ∈ [([['0'], ['0'], ['3'], ['2']], (⟨0, 0, 3, 2, 2⟩ : Request)),
    ([['1'], ['0'], ['4'], ['4']], ⟨1, 0, 4, 4, 4⟩), ([['2'], ['0'], ['4'], ['4']], ⟨2, 0, 4, 4, 4⟩)], e.2.modelId = 0 ∧
      ∃ i ∈ [3, 4], ∃ n ∈ [2, 4], intField asciiDigit e.1 2 = .ok i ∧ intField asciiDigit e.1 3 = .ok n ∧
        min (scaledTokens i traceOutput.inputScale) 100 + n ≤ (traceOutput.poolPages - 1) * traceOutput.kvBlockTokens := by
  decide +kernel

theorem loadTrace_fits_iff_threeLines : ∃ entries, loadTrace asciiDigit traceOutput onePage threeLines = .ok entries ∧
    (∀ raw, rawArrivals asciiDigit (fun _ => some 0) 0 .all threeLines = .ok raw → raw.map fst = entries.map fst) ∧
    ∀ e ∈ entries, ∀ layout, onePage.get? e.2.modelId = some layout → Feasible traceOutput layout e.2.outputTokens →
      Fits traceOutput layout e.2.inputTokens e.2.outputTokens := by
  obtain ⟨-, hlines, -, hfits⟩ := @loadTrace_fits_iff asciiDigit (fun _ => some 0) _ _ _ _ loadTrace_threeLines
  refine ⟨_, loadTrace_threeLines, hlines, hfits.2 ?_⟩
  intro e he layout hlay _ input output hinput hout
  obtain ⟨hmodel, i, -, n, -, hi, hn, hroom⟩ := threeLines_room e he
  rw [hmodel] at hlay
  obtain rfl : ⟨100, 1, by decide⟩ = layout := some.inj hlay
  obtain rfl := ok.inj (hi.symm.trans hinput)
  obtain rfl := ok.inj (hn.symm.trans hout)
  exact .inr (.inr hroom)

/-- One input token would fit beside seven output tokens, but the request has seven. -/
theorem loadTrace_not_fits : ¬∀ (o : Options) (layouts : Dict ℤ Layout) (text : List Char)
    (entries : List (List (List Char) × Request)),
    loadTrace asciiDigit o layouts text = .ok entries → ∀ e ∈ entries, ∀ layout, layouts.get? e.2.modelId = some layout →
      Feasible o layout e.2.outputTokens → Fits o layout e.2.inputTokens e.2.outputTokens := by
  intro hall
  have hft := hall traceOutput onePage tenAndSeven _ loadTrace_tenAndSeven _ mem_cons_self ⟨100, 1, by decide⟩ rfl
    ⟨1, by decide, by decide⟩
  exact absurd hft (by decide)

end ServerlessLLM.Simulator.Trace
