import ServerlessLLM.Checkpoint.IndexReaders
import ServerlessLLM.Checkpoint.Theorems.IndexText

/-!
# The readers of the index agree

The parser of the store and the three scripts read the same groups from an index, and `parse_group_index` finds every tensor at
the offset of its group and its own.
-/

namespace ServerlessLLM

open Text PythonText List TensorGroupIndex PositionVars

/-! ## What is written -/

def AdapterGroup.toIndex (modelId : Int) (g : AdapterGroup) : TensorGroupIndex :=
  ⟨g.offset, g.size, String.ofList ("safetensors:".toList ++ decimal modelId ++ ":".toList ++ g.name.toList),
    [⟨g.name, 0, g.size⟩]⟩

theorem adapterIndexText_eq (modelId : Int) (groups : List AdapterGroup) :
    adapterIndexText modelId groups = tensorGroupIndexText ((groups.map (AdapterGroup.toIndex modelId)).map toDump) := by
  have hgrp : ∀ g : AdapterGroup, printAdapterGroup modelId g = printGroup (g.toIndex modelId).toDump := by
    intro g
    simp only [printAdapterGroup, printGroup, AdapterGroup.toIndex, toDump, printTensor, map_cons,
      map_nil, flatMap_cons, flatMap_nil, String.toList_ofList, cons_append, nil_append,
      append_nil]
    rfl
  simp only [adapterIndexText, tensorGroupIndexText, printLines, length_map, flatMap_map, funext hgrp]

/-- The texts that the two writers make of groups. A fingerprint of `save_tensor_group_dict` is a hexadecimal digest. -/
inductive Written : List Char → List TensorGroupIndex → Prop
  | saved {gs : List TensorGroupIndex} (hne : ∀ g ∈ gs, g.fingerprint.toList ≠ [])
      (hhex : ∀ g ∈ gs, ∀ c ∈ g.fingerprint.toList, isHexDigit c = true) :
      Written (tensorGroupIndexText (gs.map toDump)) gs
  | adapter (modelId : Int) (groups : List AdapterGroup) :
      Written (adapterIndexText modelId groups) (groups.map (AdapterGroup.toIndex modelId))

/-- A group with numbers that fit in a `size_t` and words without markers for the names of its tensors, in the sense of both
languages. -/
structure TensorGroupIndex.Plain (g : TensorGroupIndex) : Prop where
  fileOffset : g.fileOffset < sizeBound
  size : g.size < sizeBound
  tensors : ∀ t ∈ g.tensorIndexes, t.Printable
  noSpace : ∀ t ∈ g.tensorIndexes, ∀ c ∈ t.name.toList, PythonText.isSpace c = false

structure TensorGroupIndex.Readable (g : TensorGroupIndex) : Prop extends g.Plain where
  nonempty : g.fingerprint.toList ≠ []
  word : ∀ c ∈ g.fingerprint.toList, PythonText.isSpace c = false

theorem isSpace_of_python {c : Char} (h : PythonText.isSpace c = false) : Text.isSpace c = false := by
  simp only [Text.isSpace, Bool.or_eq_false_iff, decide_eq_false_iff_not]
  refine ⟨⟨⟨⟨⟨?_, ?_⟩, ?_⟩, ?_⟩, ?_⟩, ?_⟩ <;>
  · rintro rfl
    exact absurd h (by decide)

theorem AdapterGroup.plain (modelId : Int) {a : AdapterGroup} (hoff : a.offset < sizeBound) (hsz : a.size < sizeBound)
    (hspace : ∀ c ∈ a.name.toList, PythonText.isSpace c = false)
    (hmar : ∀ marker ∈ [groupOffsetMarker, groupSizeMarker, fingerprintMarker, tensorNameMarker], ¬marker <:+: a.name.toList) :
    (a.toIndex modelId).Plain where
  fileOffset := hoff
  size := hsz
  tensors t ht := by
    obtain rfl := mem_singleton.1 ht
    exact ⟨(by decide : 0 < sizeBound), hsz, fun c hc => isSpace_of_python (hspace c hc), hmar⟩
  noSpace t ht := by
    obtain rfl := mem_singleton.1 ht
    exact hspace

theorem python_isSpace_of_mem_decimal {z : Int} {c : Char} (hc : c ∈ decimal z) : PythonText.isSpace c = false := by
  rcases mem_decimal hc with hd | rfl
  · exact isSpace_of_isDigit hd
  · decide

theorem python_isSpace_of_isHexDigit {c : Char} (h : isHexDigit c = true) : PythonText.isSpace c = false := by
  simp only [isHexDigit, Bool.or_eq_true, Bool.and_eq_true, decide_eq_true_eq] at h
  rcases h with (hd | ⟨h1, h2⟩) | ⟨h1, h2⟩
  · exact isSpace_of_isDigit hd
  · have h1' : 97 ≤ c.toNat := UInt32.le_iff_toNat_le.1 h1
    have h2' : c.toNat ≤ 102 := UInt32.le_iff_toNat_le.1 h2
    simp only [PythonText.isSpace, Bool.or_eq_false_iff, Bool.and_eq_false_iff, decide_eq_false_iff_not]
    omega
  · have h1' : 65 ≤ c.toNat := UInt32.le_iff_toNat_le.1 h1
    have h2' : c.toNat ≤ 70 := UInt32.le_iff_toNat_le.1 h2
    simp only [PythonText.isSpace, Bool.or_eq_false_iff, Bool.and_eq_false_iff, decide_eq_false_iff_not]
    omega

theorem Written.readable {text : List Char} {gs : List TensorGroupIndex} (hw : Written text gs) (h : ∀ g ∈ gs, g.Plain) :
    text = tensorGroupIndexText (gs.map toDump) ∧ ∀ g ∈ gs, g.Readable := by
  cases hw with
  | saved hne hhex =>
    exact ⟨rfl, fun g hg => ⟨h g hg, hne g hg, fun c hc => python_isSpace_of_isHexDigit (hhex g hg c hc)⟩⟩
  | adapter modelId groups =>
    refine ⟨adapterIndexText_eq modelId groups, fun g hg => ⟨h g hg, ?_, ?_⟩⟩
    · obtain ⟨a, -, rfl⟩ := mem_map.1 hg
      simp [AdapterGroup.toIndex]
    · obtain ⟨a, ha, rfl⟩ := mem_map.1 hg
      have hlit : ∀ c ∈ "safetensors:".toList, PythonText.isSpace c = false := all_iff_forall_prop.1 (by decide)
      have hcolon : ∀ c ∈ ":".toList, PythonText.isSpace c = false := all_iff_forall_prop.1 (by decide)
      intro c hc
      simp only [AdapterGroup.toIndex, String.toList_ofList, mem_append] at hc
      rcases hc with ((hc | hc) | hc) | hc
      · exact hlit c hc
      · exact python_isSpace_of_mem_decimal hc
      · exact hcolon c hc
      · exact (h _ hg).noSpace _ (mem_singleton.2 rfl) c hc

theorem TensorGroupIndex.Readable.legible {g : TensorGroupIndex} (h : g.Readable) : g.Legible :=
  ⟨h.fileOffset, h.size, fun c hc => isSpace_of_python (h.word c hc), h.tensors⟩

theorem isLineBreak_printLines {gs : List TensorGroupIndex} (h : ∀ g ∈ gs, g.Readable) :
    ∀ line ∈ printLines (gs.map toDump), ∀ c ∈ line, isLineBreak c = false := by
  have hbreak : ∀ c, PythonText.isSpace c = false → (!isLineBreak c) = true := by
    intro c hc
    rw [Bool.not_eq_true']
    simp only [PythonText.isSpace, isLineBreak, Bool.or_eq_false_iff, Bool.and_eq_false_iff, decide_eq_false_iff_not] at hc ⊢
    omega
  have hall : ∀ line ∈ printLines (gs.map toDump), ∀ c ∈ line, (!isLineBreak c) = true := by
    refine forall_mem_printLines (by decide) (fun z c hc => hbreak c (python_isSpace_of_mem_decimal hc)) ?_ ?_
    · intro g' hg' c hc
      obtain ⟨g, hg, rfl⟩ := mem_map.1 hg'
      exact hbreak c ((h g hg).word c hc)
    · intro g' hg' e he c hc
      obtain ⟨g, hg, rfl⟩ := mem_map.1 hg'
      obtain ⟨t, ht, rfl⟩ := mem_map.1 he
      exact hbreak c ((h g hg).noSpace t ht c hc)
  exact fun line hline c hc => by simpa using hall line hline c hc

/-! ## `parse_group_index` -/

theorem not_prefix_append {marker literal : List Char} (h : ¬marker.take literal.length <+: literal) (rest : List Char) :
    ¬marker <+: literal ++ rest := by
  intro hp
  refine h ?_
  have htake := hp.take literal.length
  rwa [take_left] at htake

theorem strip_line (before literal : List Char) {rest : List Char} (hbef : before.all PythonText.isSpace = true)
    (hlit : literal.head?.any PythonText.isSpace = false) (hso : literal ≠ []) (hne : rest ≠ [])
    (hrs : ∀ c ∈ rest, PythonText.isSpace c = false) : strip (before ++ (literal ++ rest)) = literal ++ rest := by
  rw [← append_nil (literal ++ rest)]
  refine (strip_append (all_eq_true.1 hbef) (by simp) ?_ ?_).trans (append_nil _).symm
  · intro c hc
    rw [head?_append_of_ne_nil _ hso, Option.mem_def] at hc
    rwa [hc] at hlit
  · intro c hc
    rw [getLast?_append_of_ne_nil _ hne] at hc
    exact hrs c (mem_of_getLast? hc)

theorem isSpace_behind : ∀ c ∈ " ".toList, PythonText.isSpace c = true := all_eq_true.1 (by decide)

theorem decimal_ne_nil (n : Nat) : decimal n ≠ [] := Nat.toDigits_ne_nil

theorem strip_number (before literal : List Char) (n : Nat) (hbef : before.all PythonText.isSpace = true)
    (hlit : literal.head?.any PythonText.isSpace = false) (hso : literal ≠ []) :
    strip (before ++ (literal ++ decimal n)) = literal ++ decimal n :=
  strip_line before literal hbef hlit hso (decimal_ne_nil n) fun _ hc => python_isSpace_of_mem_decimal hc

section ParseGroupIndex

variable {digit : Char → Option Nat} (path : String)

theorem PositionVars.readLine_skip {s : PositionVars} (hs : s.currentName = none) {line : List Char}
    (hgrp : ¬groupOffsetMarker <+: strip line) (hten : ¬tensorNameMarker <+: strip line) :
    s.readLine digit path line = .ok s := by
  unfold readLine
  simp only
  rw [if_neg hgrp, if_neg hten, hs]
  rfl

theorem PositionVars.readLine_other {s : PositionVars} (hs : s.currentName = none) {line literal rest : List Char}
    (hstrip : strip line = literal ++ rest) (hgrp : ¬groupOffsetMarker.take literal.length <+: literal)
    (hten : ¬tensorNameMarker.take literal.length <+: literal) : s.readLine digit path line = .ok s :=
  readLine_skip path hs (hstrip ▸ not_prefix_append hgrp rest) (hstrip ▸ not_prefix_append hten rest)

theorem intBehindColon_eq (hd : AsciiDigits digit) {line : List Char} {n : Nat}
    (hline : behindColon line = " ".toList ++ decimal n) : intBehindColon digit line = .ok (n : Int) := by
  unfold intBehindColon
  rw [hline, toInt?_decimal hd isSpace_behind n]

theorem PositionVars.readLine_groupOffset (hd : AsciiDigits digit) (s : PositionVars) (n : Nat) :
    s.readLine digit path ("Group Offset: ".toList ++ decimal n) = .ok { s with groupOffset := some (n : Int) } := by
  have hstrip : strip ("Group Offset: ".toList ++ decimal n) = "Group Offset: ".toList ++ decimal n :=
    strip_number [] "Group Offset: ".toList n (by simp) (by decide) (by decide)
  unfold readLine
  simp only
  rw [hstrip, if_pos ⟨" ".toList ++ decimal n, rfl⟩, intBehindColon_eq hd rfl]
  rfl

theorem PositionVars.readLine_tensorName (s : PositionVars) {name : List Char}
    (hnm : ∀ c ∈ name, PythonText.isSpace c = false) :
    s.readLine digit path ("  Tensor Name: ".toList ++ name) =
      .ok { s with currentName := some (String.ofList name), currentOffset := none } := by
  obtain ⟨hgrp, hten, hval⟩ : ¬groupOffsetMarker <+: strip ("  Tensor Name: ".toList ++ name) ∧
      tensorNameMarker <+: strip ("  Tensor Name: ".toList ++ name) ∧
      strip (behindColon (strip ("  Tensor Name: ".toList ++ name))) = name := by
    by_cases hne : name = []
    · subst hne
      decide
    · have hstrip : strip ("  Tensor Name: ".toList ++ name) = "Tensor Name: ".toList ++ name :=
        strip_line "  ".toList "Tensor Name: ".toList (by decide) (by decide) (by decide) hne hnm
      have hcolon : behindColon ("Tensor Name: ".toList ++ name) = " ".toList ++ ([] ++ name) := rfl
      rw [hstrip, hcolon]
      refine ⟨not_prefix_append (by decide) name, ⟨" ".toList ++ name, rfl⟩, ?_⟩
      have hword : strip (" ".toList ++ (name ++ [])) = name := strip_append isSpace_behind (by simp)
        (fun c hc => hnm c (mem_of_mem_head? hc)) fun c hc => hnm c (mem_of_getLast? hc)
      rwa [append_nil] at hword
  unfold readLine
  simp only
  rw [if_neg hgrp, if_pos hten, hval]
  rfl

theorem PositionVars.readLine_offset (hd : AsciiDigits digit) {s : PositionVars} {name : String}
    (hs : s.currentName = some name) (n : Nat) :
    s.readLine digit path ("  Offset: ".toList ++ decimal n) = .ok { s with currentOffset := some (n : Int) } := by
  have hstrip : strip ("  Offset: ".toList ++ decimal n) = "Offset: ".toList ++ decimal n :=
    strip_number "  ".toList "Offset: ".toList n (by decide) (by decide) (by decide)
  unfold readLine
  simp only
  rw [hstrip, if_neg (not_prefix_append (by decide) _), if_neg (not_prefix_append (by decide) _), hs]
  simp only
  rw [if_pos ⟨" ".toList ++ decimal n, rfl⟩, intBehindColon_eq hd rfl]
  rfl

theorem PositionVars.readLine_size (hd : AsciiDigits digit) {s : PositionVars} {name : String} {groupOffset currentOffset : Int}
    (hnm : s.currentName = some name) (hgrp : s.groupOffset = some groupOffset)
    (hoff : s.currentOffset = some currentOffset) (hnew : name ∉ s.offsets.keys) (n : Nat) :
    s.readLine digit path ("  Size: ".toList ++ decimal n) =
      .ok { s with
        offsets := s.offsets.set name (groupOffset + currentOffset, (n : Int))
        currentName := none
        currentOffset := none } := by
  have hstrip : strip ("  Size: ".toList ++ decimal n) = "Size: ".toList ++ decimal n :=
    strip_number "  ".toList "Size: ".toList n (by decide) (by decide) (by decide)
  unfold readLine
  simp only
  rw [hstrip, if_neg (not_prefix_append (by decide) _), if_neg (not_prefix_append (by decide) _), hnm]
  simp only
  rw [if_neg (not_prefix_append (by decide) _), if_pos ⟨" ".toList ++ decimal n, rfl⟩, hgrp, hoff]
  simp only
  rw [if_neg hnew, intBehindColon_eq hd rfl]
  rfl

/-- A tensor of a group at `groupOffset`, as `parse_group_index` has it. -/
def TensorIndex.placed (groupOffset : Nat) (t : TensorIndex) : String × Int × Int :=
  (t.name, (groupOffset : Int) + t.offset, (t.size : Int))

/-- The tensors of a group, with their positions and sizes. -/
def TensorGroupIndex.placed (g : TensorGroupIndex) : List (String × Int × Int) :=
    g.tensorIndexes.map (TensorIndex.placed g.fileOffset)

/-- The loop stands outside of a tensor. -/
structure PositionVars.Reads (s : PositionVars) (entries : List (String × Int × Int)) : Prop where
  outside : s.currentName = none
  entries : s.offsets.entries = entries

theorem foldlM_line {ε σ : Type} {f : σ → List Char → Except ε σ} {s s' : σ} {line : List Char} (h : f s line = .ok s')
    {more : List (List Char)} : (line :: more).foldlM f s = more.foldlM f s' := by
  rw [foldlM_cons, h]
  rfl

section

variable (hd : AsciiDigits digit)

include hd

theorem PositionVars.foldlM_tensors {l : List TensorIndex}
    (hnm : ∀ t ∈ l, ∀ c ∈ t.name.toList, PythonText.isSpace c = false) (groupOffset : Nat) {s : PositionVars}
    {entries : List (String × Int × Int)} (hs : s.Reads entries) (hgrp : s.groupOffset = some (groupOffset : Int))
    (hnd : ((entries ++ l.map (TensorIndex.placed groupOffset)).map Prod.fst).Nodup) :
    ∃ s' : PositionVars, s'.Reads (entries ++ l.map (TensorIndex.placed groupOffset)) ∧
      ((l.map fun t => (⟨t.name, t.offset, t.size⟩ : DumpEntry)).flatMap printTensor).foldlM (readLine digit path) s =
        .ok s' := by
  induction l generalizing s entries with
  | nil => exact ⟨s, by simpa using hs, rfl⟩
  | cons t l ih =>
    have hnew : t.name ∉ s.offsets.keys := by
      rw [Dict.keys, hs.entries]
      rw [map_append, nodup_append] at hnd
      exact fun hmem => hnd.2.2 t.name hmem t.name (by simp [TensorIndex.placed]) rfl
    have hset : (s.offsets.set t.name ((groupOffset : Int) + t.offset, (t.size : Int))).entries =
        entries ++ [TensorIndex.placed groupOffset t] := by
      rw [← hs.entries]
      exact if_neg hnew
    obtain ⟨s', hs', hrun⟩ := ih (fun t' ht' => hnm t' (mem_cons_of_mem _ ht'))
      (s := { s with
        offsets := s.offsets.set t.name ((groupOffset : Int) + t.offset, (t.size : Int))
        currentName := none
        currentOffset := none }) ⟨rfl, hset⟩ hgrp (by simpa using hnd)
    refine ⟨s', by simpa using hs', ?_⟩
    rw [map_cons, flatMap_cons, printTensor, cons_append, cons_append, cons_append, nil_append]
    refine (foldlM_line (readLine_tensorName path s (hnm t mem_cons_self))).trans ?_
    rw [String.ofList_toList]
    refine (foldlM_line (readLine_offset path hd rfl t.offset)).trans ?_
    exact (foldlM_line (readLine_size path hd
      (s := { s with currentName := some t.name, currentOffset := some (t.offset : Int) })
      rfl hgrp rfl hnew t.size)).trans hrun

theorem PositionVars.foldlM_group {g : TensorGroupIndex} (hg : g.Readable) {s : PositionVars}
    {entries : List (String × Int × Int)} (hs : s.Reads entries) (hnd : ((entries ++ g.placed).map Prod.fst).Nodup) :
    ∃ s' : PositionVars, s'.Reads (entries ++ g.placed) ∧
      (printGroup g.toDump).foldlM (readLine digit path) s = .ok s' := by
  have hout : { s with groupOffset := some (g.fileOffset : Int) }.currentName = none := hs.outside
  obtain ⟨s', hs', hrun⟩ := foldlM_tensors path hd hg.noSpace g.fileOffset ⟨hout, hs.entries⟩ rfl hnd
  have hsz : strip ("Group Size: ".toList ++ decimal g.size) = "Group Size: ".toList ++ decimal g.size :=
    strip_number [] "Group Size: ".toList g.size (by simp) (by decide) (by decide)
  have hfp : strip ("Fingerprint: ".toList ++ g.fingerprint.toList) = "Fingerprint: ".toList ++ g.fingerprint.toList :=
    strip_line [] "Fingerprint: ".toList (by simp) (by decide) (by decide) hg.nonempty hg.word
  have hla : ([[]] : List (List Char)).foldlM (readLine digit path) s' = .ok s' :=
    foldlM_line (readLine_skip path hs'.outside (by decide) (by decide))
  refine ⟨s', hs', ?_⟩
  rw [printGroup, append_assoc, cons_append, cons_append, cons_append, cons_append, nil_append]
  refine (foldlM_line (readLine_groupOffset path hd s g.fileOffset)).trans ?_
  refine (foldlM_line (readLine_other path hout hsz (by decide) (by decide))).trans ?_
  refine (foldlM_line (readLine_other path hout hfp (by decide) (by decide))).trans ?_
  refine (foldlM_line (readLine_skip path hout (by decide) (by decide))).trans ?_
  rw [foldlM_append, toDump, hrun]
  exact hla

theorem PositionVars.foldlM_groups {gs : List TensorGroupIndex} (h : ∀ g ∈ gs, g.Readable)
    {s : PositionVars} {entries : List (String × Int × Int)} (hs : s.Reads entries)
    (hnd : ((entries ++ gs.flatMap TensorGroupIndex.placed).map Prod.fst).Nodup) :
    ∃ s' : PositionVars, s'.Reads (entries ++ gs.flatMap TensorGroupIndex.placed) ∧
      ((gs.map toDump).flatMap printGroup).foldlM (readLine digit path) s = .ok s' := by
  induction gs generalizing s entries with
  | nil => exact ⟨s, by simpa using hs, rfl⟩
  | cons g gs ih =>
    rw [flatMap_cons, ← append_assoc] at hnd
    have hfst : ((entries ++ g.placed).map Prod.fst).Nodup := by
      rw [map_append] at hnd
      exact hnd.of_append_left
    obtain ⟨s₁, hs₁, hrun₁⟩ := foldlM_group path hd (h g mem_cons_self) hs hfst
    obtain ⟨s', hs', hrun⟩ := ih (fun g' hg' => h g' (mem_cons_of_mem _ hg')) hs₁ hnd
    refine ⟨s', by rwa [flatMap_cons, ← append_assoc], ?_⟩
    rw [map_cons, flatMap_cons, foldlM_append, hrun₁]
    exact hrun

theorem PositionVars.foldlM_text {gs : List TensorGroupIndex} (h : ∀ g ∈ gs, g.Readable)
    (hnd : ((gs.flatMap TensorGroupIndex.placed).map Prod.fst).Nodup) :
    ∃ s' : PositionVars, s'.Reads (gs.flatMap TensorGroupIndex.placed) ∧
      (splitlines (universalNewlines (tensorGroupIndexText (gs.map toDump)))).foldlM
        (readLine digit path) ⟨.empty, none, none, none⟩ = .ok s' := by
  obtain ⟨s', hs', hrun⟩ := foldlM_groups path hd h (s := ⟨.empty, none, none, none⟩) ⟨rfl, rfl⟩ hnd
  have hheader : strip ("Number of tensor groups: ".toList ++ decimal gs.length) =
      "Number of tensor groups: ".toList ++ decimal gs.length :=
    strip_number [] "Number of tensor groups: ".toList gs.length (by simp) (by decide) (by decide)
  refine ⟨s', hs', ?_⟩
  rw [tensorGroupIndexText, splitlines_unlines (isLineBreak_printLines h), printLines, length_map, cons_append,
    cons_append, nil_append, foldlM_line (readLine_other path rfl hheader (by decide) (by decide)),
    foldlM_line (readLine_skip path rfl (by decide) (by decide)), hrun]

theorem parseGroupIndex_text {gs : List TensorGroupIndex} (h : ∀ g ∈ gs, g.Readable)
    (hnd : ((gs.flatMap TensorGroupIndex.placed).map Prod.fst).Nodup) (hne : gs.flatMap TensorGroupIndex.placed ≠ []) :
    ∃ offsets, parseGroupIndex digit path (tensorGroupIndexText (gs.map toDump)) = .ok offsets ∧
      offsets.entries = gs.flatMap TensorGroupIndex.placed := by
  obtain ⟨s', hs', hrun⟩ := foldlM_text path hd h hnd
  have hso : s'.offsets.entries.isEmpty = false := by
    rw [hs'.entries, isEmpty_eq_false_iff]
    exact hne
  refine ⟨s'.offsets, ?_, hs'.entries⟩
  unfold parseGroupIndex
  rw [hrun]
  show (if s'.offsets.entries.isEmpty = true then _ else _) = _
  rw [hso]
  rfl

theorem parseGroupIndex_refused {gs : List TensorGroupIndex} (h : ∀ g ∈ gs, g.Readable)
    (hno : gs.flatMap TensorGroupIndex.placed = []) :
    parseGroupIndex digit path (tensorGroupIndexText (gs.map toDump)) =
      .error (.valueError s!"No tensor entries found in {path}") := by
  obtain ⟨s', hs', hrun⟩ := foldlM_text path hd h (by rw [hno]; exact nodup_nil)
  have hemp : s'.offsets.entries.isEmpty = true := by rw [hs'.entries, hno]; rfl
  unfold parseGroupIndex
  rw [hrun]
  show (if s'.offsets.entries.isEmpty = true then _ else _) = _
  rw [hemp]
  rfl

end

end ParseGroupIndex

/-! ## `read_tensor_groups` and `tensor_group_bytes` -/

theorem infix_feed {marker line : List Char} (hmar : '\n' ∉ marker) (h : ¬marker <:+: line) : ¬marker <:+: line ++ ['\n'] := by
  rw [infix_concat_iff, not_or]
  refine ⟨?_, h⟩
  intro hsuf
  rcases eq_nil_or_concat' marker with rfl | ⟨m, c, rfl⟩
  · exact h nil_infix
  · obtain ⟨t, ht⟩ := hsuf
    rw [← append_assoc] at ht
    obtain ⟨-, hc⟩ := append_inj' ht rfl
    exact hmar (by simp [singleton_inj.1 hc])

def Unmarked (line : List Char) : Prop := ∀ marker ∈ [groupSizeMarker, fingerprintMarker], ¬marker <:+: line

section ReadGroups

variable {digit : Char → Option Nat}

theorem Unmarked.skipped (digit : Char → Option Nat) {line : List Char} (h : Unmarked line) (s : GroupVars) :
    s.readLine digit (line ++ ['\n']) = s ∧ groupSizeOfLine digit (line ++ ['\n']) = none := by
  have hsz : ¬groupSizeMarker <:+: line ++ ['\n'] := infix_feed (by decide) (h _ (by simp))
  have hfp : ¬fingerprintMarker <:+: line ++ ['\n'] := infix_feed (by decide) (h _ (by simp))
  constructor
  · unfold GroupVars.readLine
    rw [search_eq_none hsz, search_eq_none hfp]
  · unfold groupSizeOfLine
    rw [if_neg fun hp => hsz hp.isInfix]

theorem digit_feed (hd : AsciiDigits digit) : ∀ c ∈ ['\n'].head?, digit c = none := by
  intro c hc
  obtain rfl : '\n' = c := by simpa using hc
  rw [hd _ (by decide)]
  rfl

theorem GroupVars.readLine_size (hd : AsciiDigits digit) (n : Nat) (s : GroupVars) :
    s.readLine digit ("Group Size: ".toList ++ decimal n ++ ['\n']) = { s with currentSize := some n } ∧
      groupSizeOfLine digit ("Group Size: ".toList ++ decimal n ++ ['\n']) = some n := by
  have hmatch : matchDigits digit (" ".toList ++ (decimal n ++ ['\n'])) = some (n, ['\n']) :=
    matchDigits_decimal hd isSpace_behind n (digit_feed hd)
  have hline : "Group Size: ".toList ++ decimal n ++ ['\n'] = groupSizeMarker ++ (" ".toList ++ (decimal n ++ ['\n'])) := by
    rw [append_assoc]
    rfl
  rw [hline]
  constructor
  · unfold GroupVars.readLine
    rw [search_append hmatch]
  · unfold groupSizeOfLine
    rw [if_pos (prefix_append _ _), drop_left, hmatch]
    rfl

theorem GroupVars.readLine_fingerprint (digit : Char → Option Nat) {w : List Char} (hne : w ≠ [])
    (hw : ∀ c ∈ w, PythonText.isSpace c = false) {s : GroupVars}
    {size : Nat} (hs : s.currentSize = some size) :
    s.readLine digit ("Fingerprint: ".toList ++ w ++ ['\n']) = ⟨s.groups ++ [⟨String.ofList w, size⟩], none, none⟩ ∧
      groupSizeOfLine digit ("Fingerprint: ".toList ++ w ++ ['\n']) = none := by
  have hsz : ¬groupSizeMarker <:+: "Fingerprint: ".toList ++ w ++ ['\n'] :=
    infix_feed (by decide) (fingerprint_clear (fun c hc => isSpace_of_python (hw c hc)) _ (by simp))
  have hmatch : matchWord (" ".toList ++ (w ++ ['\n'])) = some w := by
    refine matchWord_append isSpace_behind hne hw ?_
    intro c hc
    obtain rfl : '\n' = c := by simpa using hc
    decide
  have hline : "Fingerprint: ".toList ++ w ++ ['\n'] = fingerprintMarker ++ (" ".toList ++ (w ++ ['\n'])) := by
    rw [append_assoc]
    rfl
  constructor
  · unfold GroupVars.readLine
    rw [search_eq_none hsz, hline, search_append hmatch, hs]
  · unfold groupSizeOfLine
    rw [if_neg fun hp => hsz hp.isInfix]

theorem unmarked_printTensor {t : TensorIndex} (ht : t.Printable) : ∀ line ∈ printTensor ⟨t.name, t.offset, t.size⟩,
    Unmarked line := by
  have hoff : Literal [groupSizeMarker, fingerprintMarker] "  Offset: ".toList := by decide
  have hsz : Literal [groupSizeMarker, fingerprintMarker] "  Size: ".toList := by decide
  intro line hline
  simp only [printTensor, mem_cons, not_mem_nil, or_false] at hline
  rcases hline with rfl | rfl | rfl
  · intro marker hm
    have hm' : marker ∈ [groupOffsetMarker, groupSizeMarker, fingerprintMarker] := mem_cons_of_mem _ hm
    rw [(literal_tensorName.clear marker hm').infix_append_iff]
    exact ht.noMarker marker (mem_append_left [tensorNameMarker] hm')
  · exact hoff.not_infix (r_not_mem_decimal _)
  · exact hsz.not_infix (r_not_mem_decimal _)

theorem foldl_unmarked (digit : Char → Option Nat) {ls : List (List Char)} (h : ∀ line ∈ ls, Unmarked line) (s : GroupVars) :
    (ls.map (· ++ ['\n'])).foldl (GroupVars.readLine digit) s = s ∧
      (ls.map (· ++ ['\n'])).filterMap (groupSizeOfLine digit) = [] := by
  induction ls with
  | nil => exact ⟨rfl, rfl⟩
  | cons line ls ih =>
    obtain ⟨h1, h2⟩ := (h line mem_cons_self).skipped digit s
    obtain ⟨ih1, ih2⟩ := ih fun l hl => h l (mem_cons_of_mem _ hl)
    exact ⟨by rw [map_cons, foldl_cons, h1, ih1], by rw [map_cons, filterMap_cons_none h2, ih2]⟩

/-- The group as `read_tensor_groups` has it. -/
def TensorGroupIndex.toTensorGroup (g : TensorGroupIndex) : Simulator.EndToEnd.TensorGroup := ⟨g.fingerprint, g.size⟩

theorem GroupVars.foldl_group (hd : AsciiDigits digit) {g : TensorGroupIndex} (hg : g.Readable) (s : GroupVars) :
    ((printGroup g.toDump).map (· ++ ['\n'])).foldl (GroupVars.readLine digit) s = ⟨s.groups ++ [g.toTensorGroup], none, none⟩ ∧
      ((printGroup g.toDump).map (· ++ ['\n'])).filterMap (groupSizeOfLine digit) = [g.size] := by
  have hoff : Unmarked ("Group Offset: ".toList ++ decimal g.fileOffset) := fun marker hm =>
    literal_groupOffset.not_infix (r_not_mem_decimal _) marker (mem_append_left [tensorNameMarker] hm)
  have htail : ∀ line ∈ "Tensor Group Index:".toList :: (g.toDump.groupIndex.flatMap printTensor ++ [[]]), Unmarked line := by
    intro line hline
    rcases mem_cons.1 hline with rfl | hline
    · intro marker hm
      have hclear := literal_groupIndex.clear marker (mem_cons_of_mem _ (mem_append_left [tensorNameMarker] hm))
      exact hclear.not_infix
    rcases mem_append.1 hline with hline | hline
    · obtain ⟨e, he, hline⟩ := mem_flatMap.1 hline
      obtain ⟨t, ht, rfl⟩ := mem_map.1 he
      exact unmarked_printTensor (hg.tensors t ht) line hline
    · obtain rfl := mem_singleton.1 hline
      intro marker hm
      revert marker
      decide
  obtain ⟨h1, h1'⟩ := hoff.skipped digit s
  obtain ⟨h2, h2'⟩ := readLine_size hd g.size s
  obtain ⟨h3, h3'⟩ := readLine_fingerprint digit hg.nonempty hg.word (s := { s with currentSize := some g.size }) rfl
  obtain ⟨h4, h4'⟩ := foldl_unmarked digit htail ⟨s.groups ++ [g.toTensorGroup], none, none⟩
  have hlines : printGroup g.toDump = ("Group Offset: ".toList ++ decimal g.fileOffset) ::
      ("Group Size: ".toList ++ decimal g.size) :: ("Fingerprint: ".toList ++ g.fingerprint.toList) ::
        "Tensor Group Index:".toList :: (g.toDump.groupIndex.flatMap printTensor ++ [[]]) := rfl
  rw [String.ofList_toList] at h3
  rw [hlines, map_cons, map_cons, map_cons]
  constructor
  · rw [foldl_cons, h1, foldl_cons, h2, foldl_cons, h3]
    exact h4
  · rw [filterMap_cons_none h1', filterMap_cons_some h2', filterMap_cons_none h3', h4']

theorem GroupVars.foldl_groups (hd : AsciiDigits digit) {gs : List TensorGroupIndex}
    (h : ∀ g ∈ gs, g.Readable) (s : GroupVars) :
    (((((gs.map toDump).flatMap printGroup).map (· ++ ['\n'])).foldl (GroupVars.readLine digit) s).groups =
        s.groups ++ gs.map toTensorGroup) ∧
      (((gs.map toDump).flatMap printGroup).map (· ++ ['\n'])).filterMap (groupSizeOfLine digit) =
        gs.map size := by
  induction gs generalizing s with
  | nil => simp
  | cons g gs ih =>
    obtain ⟨h1, h2⟩ := foldl_group hd (h g mem_cons_self) s
    obtain ⟨ih1, ih2⟩ := ih (fun g' hg' => h g' (mem_cons_of_mem _ hg')) ⟨s.groups ++ [g.toTensorGroup], none, none⟩
    rw [map_cons, flatMap_cons, map_append, foldl_append, h1, filterMap_append, h2, ih1, ih2]
    exact ⟨by rw [append_assoc]; rfl, rfl⟩

theorem lines_groups (hd : AsciiDigits digit) {gs : List TensorGroupIndex} (h : ∀ g ∈ gs, g.Readable) :
    ((fileLines (universalNewlines (tensorGroupIndexText (gs.map toDump)))).foldl (GroupVars.readLine digit)
        ⟨[], none, none⟩).groups = gs.map toTensorGroup ∧
      (fileLines (universalNewlines (tensorGroupIndexText (gs.map toDump)))).filterMap (groupSizeOfLine digit) =
        gs.map size := by
  have hheader : ∀ line ∈ ["Number of tensor groups: ".toList ++ decimal (gs.map toDump).length, []], Unmarked line := by
    intro line hline marker hm
    have hm' : marker ∈ [groupOffsetMarker, groupSizeMarker, fingerprintMarker, tensorNameMarker] :=
      mem_cons_of_mem _ (mem_append_left [tensorNameMarker] hm)
    rcases mem_cons.1 hline with rfl | hline
    · exact literal_header.not_infix (r_not_mem_decimal _) marker hm'
    · obtain rfl := mem_singleton.1 hline
      rw [infix_nil]
      rintro rfl
      exact absurd (literal_header.letter _ hm') not_mem_nil
  obtain ⟨h1, h2⟩ := foldl_unmarked digit hheader ⟨[], none, none⟩
  obtain ⟨h3, h4⟩ := GroupVars.foldl_groups hd h ⟨[], none, none⟩
  rw [tensorGroupIndexText, fileLines_unlines (isLineBreak_printLines h), printLines, map_append, foldl_append, h1,
    filterMap_append, h2]
  exact ⟨h3, h4⟩

end ReadGroups

/-! ## All readers -/

/-- For every text that one of the writers makes of an index with a tensor, with numbers that fit in a `size_t` and distinct
names without white space and markers, all four readers succeed. They return the groups that were written, in their order, with
the same sizes and fingerprints, and every tensor at the offset of its group and its own, with its size. -/
theorem readers_agree (digit : Char → Option Nat) (hd : AsciiDigits digit) (uninit : Nat) (path : String) (modelFileSize : Nat)
    {text : List Char} {gs : List TensorGroupIndex} (hw : Written text gs) (h : ∀ g ∈ gs, g.Plain)
    (hnames : (gs.flatMap fun g => g.tensorIndexes.map TensorIndex.name).Nodup) (htensor : ∃ g ∈ gs, g.tensorIndexes ≠ []) :
    parseTensorGroupIndex uninit text = gs ∧
      readTensorGroups digit path modelFileSize (some text) = gs.map (fun g => ⟨g.fingerprint, g.size⟩) ∧
      tensorGroupBytes digit path text = .ok (gs.map size) ∧
      ∃ offsets, parseGroupIndex digit path text = .ok offsets ∧
        offsets.entries = gs.flatMap fun g => g.tensorIndexes.map fun t =>
          (t.name, (g.fileOffset : Int) + t.offset, (t.size : Int)) := by
  obtain ⟨rfl, hgs⟩ := hw.readable h
  obtain ⟨g, hg, hso⟩ := htensor
  have hne : gs ≠ [] := ne_nil_of_mem hg
  obtain ⟨h1, h2⟩ := lines_groups hd hgs
  refine ⟨parse_legible uninit fun g hg => (hgs g hg).legible, ?_, ?_, ?_⟩
  · simp only [readTensorGroups, h1]
    rw [if_neg (by simpa using hne)]
    rfl
  · simp only [tensorGroupBytes, h2]
    rw [if_neg (by simpa using hne)]
    rfl
  · have hks : (gs.flatMap TensorGroupIndex.placed).map Prod.fst = gs.flatMap fun g => g.tensorIndexes.map TensorIndex.name := by
      rw [map_flatMap]
      refine flatMap_congr ?_
      intro g _
      rw [TensorGroupIndex.placed, map_map]
      rfl
    refine parseGroupIndex_text path hd hgs (by rwa [hks]) ?_
    rw [Ne, flatMap_eq_nil_iff]
    exact fun hall => hso (map_eq_nil_iff.1 (hall g hg))

def asciiDigit (c : Char) : Option Nat := if c.isDigit then some (c.toNat - '0'.toNat) else none

/-- Two tensors of a shard, one without bytes. -/
theorem readers_agree_adapter :
    parseTensorGroupIndex 7 (adapterIndexText 3 [⟨16, 24, "embed"⟩, ⟨40, 0, "a:b"⟩]) =
        [⟨16, 24, "safetensors:3:embed", [⟨"embed", 0, 24⟩]⟩, ⟨40, 0, "safetensors:3:a:b", [⟨"a:b", 0, 0⟩]⟩] ∧
      tensorGroupBytes asciiDigit "index" (adapterIndexText 3 [⟨16, 24, "embed"⟩, ⟨40, 0, "a:b"⟩]) = .ok [24, 0] := by
  have hplain : ∀ g ∈ [(⟨16, 24, "embed"⟩ : AdapterGroup), ⟨40, 0, "a:b"⟩].map (AdapterGroup.toIndex 3), g.Plain := by
    intro g hg
    simp only [map_cons, map_nil, mem_cons, not_mem_nil, or_false] at hg
    rcases hg with rfl | rfl
    · exact AdapterGroup.plain 3 (by decide : 16 < sizeBound) (by decide : 24 < sizeBound) (all_iff_forall_prop.1 (by decide))
        (by decide)
    · exact AdapterGroup.plain 3 (by decide : 40 < sizeBound) (by decide : 0 < sizeBound) (all_iff_forall_prop.1 (by decide))
        (by decide)
  obtain ⟨h1, -, h3, -⟩ := readers_agree asciiDigit (fun _ _ => rfl) 7 "index" 0
    (Written.adapter 3 [⟨16, 24, "embed"⟩, ⟨40, 0, "a:b"⟩]) hplain (by decide) ⟨_, mem_cons_self, by decide⟩
  exact ⟨h1, h3⟩

/-- The index of an empty state dict has no groups: the parser returns none, and two of the scripts refuse it. -/
theorem empty_index_refused :
    Written (tensorGroupIndexText (groupTensors (fun _ => "") (fun _ => none) 1 [])) [] ∧
      parseTensorGroupIndex 0 (tensorGroupIndexText (groupTensors (fun _ => "") (fun _ => none) 1 [])) = [] ∧
      tensorGroupBytes asciiDigit "index" (tensorGroupIndexText (groupTensors (fun _ => "") (fun _ => none) 1 [])) =
        .error (.valueError "no tensor groups found in index") ∧
      parseGroupIndex asciiDigit "index" (tensorGroupIndexText (groupTensors (fun _ => "") (fun _ => none) 1 [])) =
        .error (.valueError "No tensor entries found in index") := by
  have hemp : groupTensors (fun _ => "") (fun _ => none) 1 [] = ([] : List TensorGroupIndex).map toDump := rfl
  have hno : ∀ g ∈ ([] : List TensorGroupIndex), g.Readable := by simp
  have hd : AsciiDigits asciiDigit := fun _ _ => rfl
  obtain ⟨-, h2⟩ := lines_groups hd hno
  rw [hemp]
  refine ⟨Written.saved (by simp) (by simp), parse_legible 0 (by simp), ?_, parseGroupIndex_refused "index" hd hno rfl⟩
  unfold tensorGroupBytes
  rw [h2]
  rfl

end ServerlessLLM
