import Mathlib.Data.Bool.AllAny
import ServerlessLLM.Checkpoint.GroupIndex

/-!
# The text of the index is read back

`ParseTensorGroupIndex` returns the groups that were written, as long as the names of the tensors are words without the markers
of the parser.
-/

namespace ServerlessLLM

open Text List TensorGroupIndex ParseVars Stream TensorIndex

section

/-! ## Markers -/

theorem r_not_mem_decimal (z : Int) : 'r' ∉ decimal z := by
  intro h
  rcases mem_decimal h with hd | hd
  · exact absurd hd (by decide)
  · exact absurd hd (by decide)

theorem isSpace_of_isHexDigit {c : Char} (h : isHexDigit c = true) : isSpace c = false := by
  simp only [isSpace, Bool.or_eq_false_iff, decide_eq_false_iff_not]
  refine ⟨⟨⟨⟨⟨?_, ?_⟩, ?_⟩, ?_⟩, ?_⟩, ?_⟩ <;>
  · rintro rfl
    exact absurd h (by decide)

theorem isSpace_blank : ∀ c ∈ " ".toList, isSpace c = true := by simp [isSpace]

/-- The literal at the start of a line: it is no comment, and has none of the markers. -/
structure Literal (markers : List (List Char)) (text : List Char) : Prop where
  nonempty : text ≠ []
  noComment : text.head? ≠ some '#'
  clear : ∀ marker ∈ markers, Clear marker text
  letter : ∀ marker ∈ markers, 'r' ∈ marker

instance (markers : List (List Char)) (text : List Char) : Decidable (Literal markers text) :=
  decidable_of_iff (text ≠ [] ∧ text.head? ≠ some '#' ∧ (∀ marker ∈ markers, Clear marker text) ∧
      ∀ marker ∈ markers, 'r' ∈ marker)
    ⟨fun ⟨h1, h2, h3, h4⟩ => ⟨h1, h2, h3, h4⟩, fun h => ⟨h.nonempty, h.noComment, h.clear, h.letter⟩⟩

variable {markers : List (List Char)} {text : List Char} (rest : List Char)

theorem Literal.not_infix {rest : List Char} (h : Literal markers text)
    (hrs : 'r' ∉ rest) : ∀ marker ∈ markers, ¬marker <:+: text ++ rest := by
  intro marker hm
  rw [(h.clear marker hm).infix_append_iff]
  exact not_infix_of_not_mem (h.letter marker hm) hrs

theorem Literal.not_infix_of_word {w : List Char} (h : Literal markers text)
    (hm : ∀ marker ∈ markers, ' ' ∈ marker) (hw : ∀ c ∈ w, isSpace c = false) : ∀ marker ∈ markers, ¬marker <:+: text ++ w := by
  intro marker hmem
  rw [(h.clear marker hmem).infix_append_iff]
  exact not_infix_of_not_mem (hm marker hmem) fun hspace => absurd (hw _ hspace) (by decide)

theorem Literal.not_skipped (h : Literal markers text) (rest : List Char) :
    ¬(text ++ rest = [] ∨ (text ++ rest).head? = some '#') := by
  have hcomment := h.noComment
  cases text with
  | nil => exact absurd rfl h.nonempty
  | cons c text => simpa using hcomment

/-! ## Values -/

theorem skip_groupOffset : (of ("Group Offset: ".toList ++ rest)).skip.skip = .of (" ".toList ++ rest) := by
  have h1 : (of ("Group Offset: ".toList ++ rest)).skip = .of (" Offset: ".toList ++ rest) :=
    skip_word [] "Group".toList ("Offset: ".toList ++ rest) (by decide)
  rw [h1]
  exact skip_word [' '] "Offset:".toList rest (by decide)

theorem skip_groupSize : (of ("Group Size: ".toList ++ rest)).skip.skip = .of (" ".toList ++ rest) := by
  have h1 : (of ("Group Size: ".toList ++ rest)).skip = .of (" Size: ".toList ++ rest) :=
    skip_word [] "Group".toList ("Size: ".toList ++ rest) (by decide)
  rw [h1]
  exact skip_word [' '] "Size:".toList rest (by decide)

theorem skip_tensorName : (of ("  Tensor Name: ".toList ++ rest)).skip.skip = .of (" ".toList ++ rest) := by
  have h1 : (of ("  Tensor Name: ".toList ++ rest)).skip = .of (" Name: ".toList ++ rest) :=
    skip_word [' ', ' '] "Tensor".toList ("Name: ".toList ++ rest) (by decide)
  rw [h1]
  exact skip_word [' '] "Name:".toList rest (by decide)

theorem skip_fingerprint : (of ("Fingerprint: ".toList ++ rest)).skip = .of (" ".toList ++ rest) :=
  skip_word [] "Fingerprint:".toList rest (by decide)

theorem skip_offset : (of ("  Offset: ".toList ++ rest)).skip = .of (" ".toList ++ rest) :=
  skip_word [' ', ' '] "Offset:".toList rest (by decide)

theorem skip_size : (of ("  Size: ".toList ++ rest)).skip = .of (" ".toList ++ rest) :=
  skip_word [' ', ' '] "Size:".toList rest (by decide)

theorem number_natCast {n : Nat} (hn : n < sizeBound) (old : Nat) :
    ((of (" ".toList ++ decimal n)).number sizeBound old).1 = n := by
  rw [number_decimal isSpace_blank (by omega) (by omega)]
  exact Nat.mod_eq_of_lt hn

theorem word_to_end {w old : List Char} (hw : ∀ c ∈ w, isSpace c = false) (hold : w = [] → old = []) :
    ((of (" ".toList ++ w)).word old).1 = w := by
  by_cases hne : w = []
  · subst hne
    rw [hold rfl]
    rfl
  · have h : (of ([' '] ++ (w ++ []))).word old = (w, .of []) :=
      word_append ⟨isSpace_blank, hne, hw⟩ (by simp) old
    rw [append_nil] at h
    exact congrArg Prod.fst h

/-! ## Lines -/

/-- What a line without the marker of a tensor does. -/
def ParseVars.readLine (line : List Char) (s : ParseVars) : ParseVars :=
  ((s.readGroupOffset line).readGroupSize line).readFingerprint line

section Lines

variable (uninit : Nat) (terminated : Bool)

theorem parseLines_line {markers : List (List Char)} {text rest : List Char} (h : Literal markers text)
    (hnot : ¬tensorNameMarker <:+: text ++ rest) (more : List (List Char)) (s : ParseVars) :
    parseLines uninit terminated ((text ++ rest) :: more) s =
      parseLines uninit terminated more (s.readLine (text ++ rest)) := by
  rw [parseLines, if_neg (h.not_skipped rest)]
  simp only [hnot, if_false]
  rfl

theorem literal_header : Literal [groupOffsetMarker, groupSizeMarker, fingerprintMarker, tensorNameMarker]
    "Number of tensor groups: ".toList := by decide

theorem literal_groupOffset : Literal [groupSizeMarker, fingerprintMarker, tensorNameMarker] "Group Offset: ".toList := by
  decide

theorem literal_groupSize : Literal [groupOffsetMarker, fingerprintMarker, tensorNameMarker] "Group Size: ".toList := by
  decide

theorem literal_fingerprint : Literal [groupOffsetMarker, groupSizeMarker, tensorNameMarker] "Fingerprint: ".toList := by
  decide

theorem literal_groupIndex : Literal [groupOffsetMarker, groupSizeMarker, fingerprintMarker, tensorNameMarker]
    "Tensor Group Index:".toList := by decide

theorem literal_tensorName : Literal [groupOffsetMarker, groupSizeMarker, fingerprintMarker] "  Tensor Name: ".toList := by
  decide

theorem readLine_of_clear {line : List Char}
    (h : ∀ marker ∈ [groupOffsetMarker, groupSizeMarker, fingerprintMarker], ¬marker <:+: line) (s : ParseVars) :
    s.readLine line = s := by
  unfold readLine readGroupOffset
  rw [if_neg (h _ (by simp))]
  unfold readGroupSize
  rw [if_neg (h _ (by simp))]
  unfold readFingerprint
  rw [if_neg (h _ (by simp))]

theorem readLine_groupOffset (z : Int) (s : ParseVars) :
    s.readLine ("Group Offset: ".toList ++ decimal z) =
      ⟨s.groups, ⟨((of (" ".toList ++ decimal z)).number sizeBound 0).1, 0, "", []⟩, true⟩ := by
  have hnot := literal_groupOffset.not_infix (r_not_mem_decimal z)
  unfold readLine readGroupOffset
  rw [if_pos (infix_append_of_infix_left (by decide)), skip_groupOffset]
  unfold readGroupSize
  rw [if_neg (hnot _ (by simp))]
  unfold readFingerprint
  rw [if_neg (hnot _ (by simp))]

theorem readLine_groupSize (z : Int) (s : ParseVars) :
    s.readLine ("Group Size: ".toList ++ decimal z) =
      { s with
        currentTensorGroup.size := ((of (" ".toList ++ decimal z)).number sizeBound s.currentTensorGroup.size).1 } := by
  have hnot := literal_groupSize.not_infix (r_not_mem_decimal z)
  unfold readLine readGroupOffset
  rw [if_neg (hnot _ (by simp))]
  unfold readGroupSize
  rw [if_pos (infix_append_of_infix_left (by decide)), skip_groupSize]
  unfold readFingerprint
  rw [if_neg (hnot _ (by simp))]

theorem fingerprint_clear {w : List Char} (hw : ∀ c ∈ w, isSpace c = false) :
    ∀ marker ∈ [groupOffsetMarker, groupSizeMarker, tensorNameMarker], ¬marker <:+: "Fingerprint: ".toList ++ w :=
  literal_fingerprint.not_infix_of_word (by decide) hw

theorem readLine_fingerprint {w : List Char} (hw : ∀ c ∈ w, isSpace c = false) (s : ParseVars) :
    s.readLine ("Fingerprint: ".toList ++ w) =
      { s with
        currentTensorGroup.fingerprint :=
          String.ofList ((of (" ".toList ++ w)).word s.currentTensorGroup.fingerprint.toList).1 } := by
  have hnot := fingerprint_clear hw
  unfold readLine readGroupOffset
  rw [if_neg (hnot _ (by simp))]
  unfold readGroupSize
  rw [if_neg (hnot _ (by simp))]
  unfold readFingerprint
  rw [if_pos (infix_append_of_infix_left (by decide)), skip_fingerprint]

variable (more : List (List Char)) (e : DumpEntry)

theorem parseLines_groupIndex (s : ParseVars) :
    parseLines uninit terminated ("Tensor Group Index:".toList :: more) s = parseLines uninit terminated more s := by
  have hclear := literal_groupIndex.not_infix (not_mem_nil (a := 'r'))
  have h := parseLines_line uninit terminated literal_groupIndex (hclear _ (by simp)) more s
  rwa [readLine_of_clear fun marker hm => hclear marker (mem_append_left [tensorNameMarker] hm), append_nil] at h

theorem parseLines_groupHead (g : DumpGroup) (hfp : ∀ c ∈ g.fingerprint.toList, isSpace c = false)
    (more : List (List Char)) (s : ParseVars) :
    ∃ fileOffset size, (g.groupOffset < sizeBound → fileOffset = g.groupOffset) ∧
      (g.groupSize < sizeBound → size = g.groupSize) ∧
      parseLines uninit terminated (["Group Offset: ".toList ++ decimal g.groupOffset,
          "Group Size: ".toList ++ decimal g.groupSize, "Fingerprint: ".toList ++ g.fingerprint.toList,
          "Tensor Group Index:".toList] ++ more) s =
        parseLines uninit terminated more ⟨s.groups, ⟨fileOffset, size, g.fingerprint, []⟩, true⟩ := by
  refine ⟨_, _, fun h => number_natCast h 0, fun h => number_natCast h 0, ?_⟩
  have hword : ((of (" ".toList ++ g.fingerprint.toList)).word "".toList).1 = g.fingerprint.toList :=
    word_to_end hfp fun _ => rfl
  simp only [cons_append, nil_append]
  rw [parseLines_line uninit terminated literal_groupOffset (literal_groupOffset.not_infix (r_not_mem_decimal _) _ (by simp)),
    parseLines_line uninit terminated literal_groupSize (literal_groupSize.not_infix (r_not_mem_decimal _) _ (by simp)),
    parseLines_line uninit terminated literal_fingerprint (fingerprint_clear hfp _ (by simp)), parseLines_groupIndex,
    readLine_groupOffset, readLine_groupSize, readLine_fingerprint hfp, hword, String.ofList_toList]

/-! ## Tensors -/

def readTensorLines (uninit : Nat) (e : DumpEntry) (s : ParseVars) : ParseVars :=
  (s.readLine ("  Tensor Name: ".toList ++ e.name.toList)).readTensor uninit ("  Tensor Name: ".toList ++ e.name.toList)
    ("  Offset: ".toList ++ decimal e.offset) ("  Size: ".toList ++ decimal e.size)

theorem parseLines_tensor (more : List (List Char)) (s : ParseVars) :
    parseLines uninit terminated (printTensor e ++ more) s = parseLines uninit terminated more
      (readTensorLines uninit e s) := by
  have hmar : tensorNameMarker <:+: "  Tensor Name: ".toList ++ e.name.toList := infix_append_of_infix_left (by decide)
  simp only [printTensor, cons_append, nil_append]
  rw [parseLines, if_neg (literal_tensorName.not_skipped _)]
  simp only [hmar, if_true]
  rfl

theorem readTensorLines_offset (hnm : ¬groupOffsetMarker <:+: e.name.toList)
    (hlower : -(sizeBound : Int) < e.offset) (hupper : e.offset < sizeBound) (s : ParseVars) :
    (readTensorLines uninit e s).tensorGroupIndexes = s.tensorGroupIndexes ∧
      (readTensorLines uninit e s).readingTensorGroup = s.readingTensorGroup ∧
      (readTensorLines uninit e s).currentTensorGroup.tensorIndexes.map offset =
        s.currentTensorGroup.tensorIndexes.map offset ++ [(e.offset % sizeBound).toNat] := by
  have hnot : ¬groupOffsetMarker <:+: "  Tensor Name: ".toList ++ e.name.toList := by
    rwa [(literal_tensorName.clear groupOffsetMarker (by simp)).infix_append_iff]
  have hkeep : ∀ t : ParseVars, ∀ line, (t.readGroupSize line).tensorGroupIndexes = t.tensorGroupIndexes ∧
      (t.readGroupSize line).readingTensorGroup = t.readingTensorGroup ∧
      (t.readGroupSize line).currentTensorGroup.tensorIndexes = t.currentTensorGroup.tensorIndexes := by
    intro t line
    unfold readGroupSize
    split
    · exact ⟨rfl, rfl, rfl⟩
    · exact ⟨rfl, rfl, rfl⟩
  have hkeep' : ∀ t : ParseVars, ∀ line, (t.readFingerprint line).tensorGroupIndexes = t.tensorGroupIndexes ∧
      (t.readFingerprint line).readingTensorGroup = t.readingTensorGroup ∧
      (t.readFingerprint line).currentTensorGroup.tensorIndexes = t.currentTensorGroup.tensorIndexes := by
    intro t line
    unfold readFingerprint
    split
    · exact ⟨rfl, rfl, rfl⟩
    · exact ⟨rfl, rfl, rfl⟩
  unfold readTensorLines readTensor readLine readGroupOffset
  rw [if_neg hnot, skip_offset, number_decimal isSpace_blank hlower hupper]
  simp only [hkeep, hkeep', map_append, map_cons, map_nil, and_self]

theorem readTensorLines_eq (hspace : ∀ c ∈ e.name.toList, isSpace c = false)
    (hmarkers : ∀ marker ∈ [groupOffsetMarker, groupSizeMarker, fingerprintMarker], ¬marker <:+: e.name.toList)
    {offset : Nat} (hoff : e.offset = offset) (hbd : offset < sizeBound) (hsz : e.size < sizeBound) (s : ParseVars) :
    readTensorLines uninit e s =
      { s with
        currentTensorGroup.tensorIndexes := s.currentTensorGroup.tensorIndexes ++ [⟨e.name, offset, e.size⟩] } := by
  have hnot : ∀ marker ∈ [groupOffsetMarker, groupSizeMarker, fingerprintMarker],
      ¬marker <:+: "  Tensor Name: ".toList ++ e.name.toList := by
    intro marker hm
    rw [(literal_tensorName.clear marker hm).infix_append_iff]
    exact hmarkers marker hm
  have hword : ((of (" ".toList ++ e.name.toList)).word []).1 = e.name.toList := word_to_end hspace fun _ => rfl
  unfold readTensorLines readTensor
  rw [readLine_of_clear hnot, skip_tensorName, skip_offset, skip_size, hword, String.ofList_toList, hoff,
    number_natCast hbd, number_natCast hsz]

theorem parseLines_tensors (l : List DumpEntry) (more : List (List Char)) (s : ParseVars) :
    parseLines uninit terminated (l.flatMap printTensor ++ more) s =
      parseLines uninit terminated more (l.foldl (fun s e => readTensorLines uninit e s) s) := by
  induction l generalizing s with
  | nil => rfl
  | cons e l ih => rw [flatMap_cons, append_assoc, parseLines_tensor, ih, foldl_cons]

theorem parseLines_empty (s : ParseVars) :
    parseLines uninit terminated ([] :: more) s = parseLines uninit terminated more s := by
  rw [parseLines, if_pos (.inl rfl)]

theorem parseLines_group (g : DumpGroup) (hfp : ∀ c ∈ g.fingerprint.toList, isSpace c = false)
    (more : List (List Char)) (s : ParseVars) :
    ∃ fileOffset size, (g.groupOffset < sizeBound → fileOffset = g.groupOffset) ∧
      (g.groupSize < sizeBound → size = g.groupSize) ∧
      parseLines uninit terminated (printGroup g ++ more) s =
        parseLines uninit terminated more (g.groupIndex.foldl (fun s e => readTensorLines uninit e s)
            ⟨s.groups, ⟨fileOffset, size, g.fingerprint, []⟩, true⟩) := by
  obtain ⟨fileOffset, size, hoff, hsz, hhead⟩ :=
    parseLines_groupHead uninit terminated g hfp (g.groupIndex.flatMap printTensor ++ ([] :: more)) s
  refine ⟨fileOffset, size, hoff, hsz, ?_⟩
  rw [parseLines_tensors, parseLines_empty] at hhead
  rw [← hhead, printGroup]
  simp only [append_assoc, cons_append, nil_append]

theorem parseLines_printLines (dumpIndex : List DumpGroup) (s : ParseVars) :
    parseLines uninit terminated (printLines dumpIndex) s = parseLines uninit terminated (dumpIndex.flatMap printGroup) s := by
  have hclear : ∀ marker ∈ [groupOffsetMarker, groupSizeMarker, fingerprintMarker],
      ¬marker <:+: "Number of tensor groups: ".toList ++ decimal dumpIndex.length := by
    intro marker hm
    exact literal_header.not_infix (r_not_mem_decimal _) marker (mem_append_left [tensorNameMarker] hm)
  rw [printLines, cons_append, cons_append, nil_append,
    parseLines_line uninit terminated literal_header (literal_header.not_infix (r_not_mem_decimal _) _ (by simp)),
    readLine_of_clear hclear,
    parseLines_empty]

end Lines

/-! ## The file -/

def indexLiterals : List String :=
  ["Number of tensor groups: ", "Group Offset: ", "Group Size: ", "Fingerprint: ", "Tensor Group Index:", "  Tensor Name: ",
    "  Offset: ", "  Size: "]

theorem forall_mem_printLines {p : Char → Bool} {dumpIndex : List DumpGroup}
    (hlit : (indexLiterals.all fun text => text.toList.all p) = true)
    (hdec : ∀ z, ∀ c ∈ decimal z, p c = true) (hfp : ∀ g ∈ dumpIndex, ∀ c ∈ g.fingerprint.toList, p c = true)
    (hnm : ∀ g ∈ dumpIndex, ∀ e ∈ g.groupIndex, ∀ c ∈ e.name.toList, p c = true) :
    ∀ line ∈ printLines dumpIndex, ∀ c ∈ line, p c = true := by
  have htext : ∀ text ∈ indexLiterals, ∀ c ∈ text.toList, p c = true := fun text ht =>
    all_eq_true.1 (all_eq_true.1 hlit text ht)
  have happ : ∀ text ∈ indexLiterals, ∀ value : List Char, (∀ c ∈ value, p c = true) →
    ∀ c ∈ text.toList ++ value, p c = true := by
    intro text ht value hval c hc
    exact (mem_append.1 hc).elim (htext text ht c) (hval c)
  intro line hline
  rcases mem_append.1 hline with hline | hline
  · rcases mem_cons.1 hline with rfl | hline
    · exact happ _ (by simp [indexLiterals]) _ (hdec _)
    · obtain rfl : line = [] := by simpa using hline
      simp
  · obtain ⟨g, hg, hline⟩ := mem_flatMap.1 hline
    simp only [printGroup, mem_append, mem_cons, not_mem_nil, or_false, mem_flatMap] at hline
    rcases hline with ((rfl | rfl | rfl | rfl) | ⟨e, he, hline⟩) | rfl
    · exact happ _ (by simp [indexLiterals]) _ (hdec _)
    · exact happ _ (by simp [indexLiterals]) _ (hdec _)
    · exact happ _ (by simp [indexLiterals]) _ (hfp g hg)
    · exact htext _ (by simp [indexLiterals])
    · simp only [printTensor, mem_cons, not_mem_nil, or_false] at hline
      rcases hline with rfl | rfl | rfl
      · exact happ _ (by simp [indexLiterals]) _ (hnm g hg e he)
      · exact happ _ (by simp [indexLiterals]) _ (hdec _)
      · exact happ _ (by simp [indexLiterals]) _ (hdec _)
    · simp

theorem lines_text {dumpIndex : List DumpGroup} (hfp : ∀ g ∈ dumpIndex, ∀ c ∈ g.fingerprint.toList, isSpace c = false)
    (hnm : ∀ g ∈ dumpIndex, ∀ e ∈ g.groupIndex, '\n' ∉ e.name.toList) :
    lines (tensorGroupIndexText dumpIndex) = printLines dumpIndex := by
  have hword : ∀ c : Char, isSpace c = false → (c != '\n') = true := by
    intro c hc
    rw [bne_iff_ne]
    rintro rfl
    exact absurd hc (by decide)
  have hall : ∀ line ∈ printLines dumpIndex, ∀ c ∈ line, (c != '\n') = true := by
    refine forall_mem_printLines (by decide) (fun z c hc => hword c (isSpace_of_mem_decimal hc))
      (fun g hg c hc => hword c (hfp g hg c hc)) ?_
    intro g hg e he c hc
    rw [bne_iff_ne]
    rintro rfl
    exact hnm g hg e he hc
  exact lines_unlines fun line hline hfeed => absurd (hall line hline _ hfeed) (by decide)

end

def TensorGroupIndex.toDump (g : TensorGroupIndex) : DumpGroup :=
  ⟨g.fileOffset, g.size, g.fingerprint, g.tensorIndexes.map fun t => ⟨t.name, t.offset, t.size⟩⟩

/-- A tensor that can be written: a word without markers for its name. -/
structure TensorIndex.Printable (t : TensorIndex) : Prop where
  offset : t.offset < sizeBound
  size : t.size < sizeBound
  noSpace : ∀ c ∈ t.name.toList, isSpace c = false
  noMarker : ∀ marker ∈ [groupOffsetMarker, groupSizeMarker, fingerprintMarker, tensorNameMarker], ¬marker <:+: t.name.toList

/-- A group that can be written. -/
structure TensorGroupIndex.Printable (g : TensorGroupIndex) : Prop where
  fileOffset : g.fileOffset < sizeBound
  size : g.size < sizeBound
  fingerprint : ∀ c ∈ g.fingerprint.toList, isHexDigit c = true
  tensors : ∀ t ∈ g.tensorIndexes, t.Printable

/-- What the parser needs of a group: the fingerprint may be any word. -/
structure TensorGroupIndex.Legible (g : TensorGroupIndex) : Prop where
  fileOffset : g.fileOffset < sizeBound
  size : g.size < sizeBound
  fingerprint : ∀ c ∈ g.fingerprint.toList, isSpace c = false
  tensors : ∀ t ∈ g.tensorIndexes, t.Printable

theorem TensorGroupIndex.Printable.legible {g : TensorGroupIndex} (h : g.Printable) : g.Legible :=
  ⟨h.fileOffset, h.size, fun c hc => isSpace_of_isHexDigit (h.fingerprint c hc), h.tensors⟩

theorem foldl_readTensorLines (uninit : Nat) {l : List TensorIndex} (h : ∀ t ∈ l, t.Printable) (s : ParseVars) :
    (l.map fun t => (⟨t.name, t.offset, t.size⟩ : DumpEntry)).foldl (fun s e => readTensorLines uninit e s) s =
      { s with currentTensorGroup.tensorIndexes := s.currentTensorGroup.tensorIndexes ++ l } := by
  induction l generalizing s with
  | nil => simp
  | cons t l ih =>
    have ht := h t mem_cons_self
    have hmarkers : ∀ marker ∈ [groupOffsetMarker, groupSizeMarker, fingerprintMarker], ¬marker <:+: t.name.toList := by
      intro marker hm
      refine ht.noMarker marker ?_
      simp only [mem_cons, not_mem_nil, or_false] at hm ⊢
      rcases hm with rfl | rfl | rfl <;> simp
    rw [map_cons, foldl_cons, readTensorLines_eq uninit _ ht.noSpace hmarkers rfl ht.offset ht.size,
      ih fun t' ht' => h t' (mem_cons_of_mem _ ht')]
    simp

theorem groups_parseLines (uninit : Nat) (terminated : Bool) {gs : List TensorGroupIndex} (h : ∀ g ∈ gs, g.Legible)
    (s : ParseVars) :
    (parseLines uninit terminated ((gs.map toDump).flatMap printGroup) s).groups = s.groups ++ gs := by
  induction gs generalizing s with
  | nil => simp [parseLines]
  | cons g gs ih =>
    have hg := h g mem_cons_self
    obtain ⟨fileOffset, size, hoff, hsz, hparse⟩ := parseLines_group uninit terminated g.toDump hg.fingerprint
      ((gs.map toDump).flatMap printGroup) s
    obtain rfl := hoff hg.fileOffset
    obtain rfl := hsz hg.size
    rw [map_cons, flatMap_cons, hparse, ih fun g' hg' => h g' (mem_cons_of_mem _ hg'),
      toDump, foldl_readTensorLines uninit hg.tensors]
    simp [groups]

theorem parse_legible (uninit : Nat) {gs : List TensorGroupIndex} (h : ∀ g ∈ gs, g.Legible) :
    parseTensorGroupIndex uninit (tensorGroupIndexText (gs.map toDump)) = gs := by
  have hfp : ∀ g ∈ gs.map toDump, ∀ c ∈ g.fingerprint.toList, isSpace c = false := by
    intro g' hg'
    obtain ⟨g, hg, rfl⟩ := mem_map.1 hg'
    exact (h g hg).fingerprint
  have hnm : ∀ g ∈ gs.map toDump, ∀ e ∈ g.groupIndex, '\n' ∉ e.name.toList := by
    intro g' hg' e he hfeed
    obtain ⟨g, hg, rfl⟩ := mem_map.1 hg'
    obtain ⟨t, ht, rfl⟩ := mem_map.1 he
    exact absurd (((h g hg).tensors t ht).noSpace _ hfeed) (by decide)
  rw [parseTensorGroupIndex, lines_text hfp hnm, parseLines_printLines, groups_parseLines uninit _ h]
  simp [groups]

/-- For every list of groups whose fingerprints are hexadecimal, whose numbers fit in a `size_t` and whose tensors have words
without markers for their names, the parser returns the groups that were written. -/
theorem parseTensorGroupIndex_text (uninit : Nat) (gs : List TensorGroupIndex) (h : ∀ g ∈ gs, g.Printable) :
    parseTensorGroupIndex uninit (tensorGroupIndexText (gs.map toDump)) = gs :=
  parse_legible uninit fun g hg => (h g hg).legible

def twoGroups : List TensorGroupIndex :=
  [⟨0, 0, "00ff", []⟩, ⟨16, 24, "a9", [⟨"model.embed", 0, 16⟩, ⟨"#norm:", 16, 8⟩]⟩]

theorem parseTensorGroupIndex_twoGroups :
    parseTensorGroupIndex 7 (tensorGroupIndexText (twoGroups.map toDump)) = twoGroups := by
  refine parseTensorGroupIndex_text 7 twoGroups ?_
  have hten : ∀ t ∈ [(⟨"model.embed", 0, 16⟩ : TensorIndex), ⟨"#norm:", 16, 8⟩], t.Printable := by
    intro t ht
    simp only [mem_cons, not_mem_nil, or_false] at ht
    rcases ht with rfl | rfl
    · exact ⟨by decide, by decide, all_iff_forall_prop.1 (by decide), by decide⟩
    · exact ⟨by decide, by decide, all_iff_forall_prop.1 (by decide), by decide⟩
  intro g hg
  simp only [twoGroups, mem_cons, not_mem_nil, or_false] at hg
  rcases hg with rfl | rfl
  · exact ⟨by decide, by decide, all_iff_forall_prop.1 (by decide), by simp⟩
  · exact ⟨by decide, by decide, all_iff_forall_prop.1 (by decide), hten⟩

end ServerlessLLM
