import ServerlessLLM.Checkpoint.Restore
import ServerlessLLM.Checkpoint.Theorems.GroupIndex
import ServerlessLLM.Checkpoint.Theorems.IndexText
import ServerlessLLM.Vram.Manager

/-!
# The offsets reach the names

The response of `LoadModel` has the offsets of the tensors in the order of the text of the index, and `RestorePtrsFromStore`
gives them to the names in the order of the dict.
-/

namespace ServerlessLLM

open Text Words List Dict Function ParseVars DumpEntry

/-! ## The codecs -/

theorem stoi16_byte (byte : UInt8) :
    ∃ c d, (Nat.toDigits 16 byte.toNat).leftpad 2 '0' = [c, d] ∧ stoi16 [c, d] = .ok (byte.toNat : Int) := by
  have hlen : ∀ n < 256, ((Nat.toDigits 16 n).leftpad 2 '0').length = 2 := by decide +kernel
  have hval : ∀ n < 256, stoi16 ((Nat.toDigits 16 n).leftpad 2 '0') = .ok (n : Int) := by decide +kernel
  obtain ⟨c, d, hdig⟩ := length_eq_two.1 (hlen byte.toNat byte.toNat_lt)
  exact ⟨c, d, hdig, hdig ▸ hval byte.toNat byte.toNat_lt⟩

theorem fromHex_toHex (data : List UInt8) : fromHex (toHex data) = .ok data := by
  induction data with
  | nil => rfl
  | cons byte data ih =>
    obtain ⟨c, d, hdig, hval⟩ := stoi16_byte byte
    have hcons : toHex (byte :: data) = c :: d :: toHex data := by
      rw [toHex, flatMap_cons, hdig]
      rfl
    have hbyte : UInt8.ofInt (byte.toNat : Int) = byte := by
      have hlt := byte.toNat_lt
      rw [UInt8.ofInt, Int.emod_eq_of_lt (by omega) (by omega), Int.toNat_natCast, UInt8.ofNat_toNat]
    rw [hcons, fromHex, hval, ih]
    change Except.ok (UInt8.ofInt (byte.toNat : Int) :: data) = _
    rw [hbyte]

theorem restorePtrsFromStore_encode (device ptr : Nat) (response : List Nat) (names : List String)
    (h : response.length = names.length) :
    restorePtrsFromStore device (some ptr) (encodeResponse response) names =
      .done (Dict.empty.set device ptr) (Dict.empty.set device
        ((names.zip (response.map fun n => n % sizeBound)).foldl (fun o e => o.set e.1 e.2) Dict.empty)) := by
  have hwords : words 8 (response.flatMap (leBytes 8)) = response.map fun n => n % sizeBound := words_flatMap (by decide) _
  unfold restorePtrsFromStore encodeResponse
  simp only [fromHex_toHex, hwords, length_map, h, ne_eq, not_true_eq_false, if_false]

/-! ## The offsets in the text -/

def ParseVars.offsets (s : ParseVars) : List (List Nat) := s.groups.map fun g => g.tensorIndexes.map TensorIndex.offset

theorem ParseVars.groups_of_reading {s : ParseVars} (h : s.readingTensorGroup = true) :
    s.groups = s.tensorGroupIndexes ++ [s.currentTensorGroup] := if_pos h

def PlainName (name : String) : Prop := '\n' ∉ name.toList ∧ ¬groupOffsetMarker <:+: name.toList

instance (name : String) : Decidable (PlainName name) := inferInstanceAs (Decidable (_ ∧ _))

/-- A group whose text gives its offsets back. -/
structure DumpGroup.Plain (g : DumpGroup) : Prop where
  fingerprint : ∀ c ∈ g.fingerprint.toList, isHexDigit c = true
  name : ∀ e ∈ g.groupIndex, PlainName e.name
  fits : ∀ e ∈ g.groupIndex, -(sizeBound : Int) < e.offset ∧ e.offset < sizeBound

/-- An offset as a `size_t` has it. -/
def DumpEntry.word (e : DumpEntry) : Nat := (e.offset % sizeBound).toNat

section Offsets

variable (uninit : Nat)

theorem offsets_readTensorLines {l : List DumpEntry} (hnm : ∀ e ∈ l, PlainName e.name)
    (hfit : ∀ e ∈ l, -(sizeBound : Int) < e.offset ∧ e.offset < sizeBound) (s : ParseVars) :
    (l.foldl (fun s e => readTensorLines uninit e s) s).tensorGroupIndexes = s.tensorGroupIndexes ∧
      (l.foldl (fun s e => readTensorLines uninit e s) s).readingTensorGroup = s.readingTensorGroup ∧
      (l.foldl (fun s e => readTensorLines uninit e s) s).currentTensorGroup.tensorIndexes.map TensorIndex.offset =
        s.currentTensorGroup.tensorIndexes.map TensorIndex.offset ++ l.map DumpEntry.word := by
  induction l generalizing s with
  | nil => simp
  | cons e l ih =>
    obtain ⟨h1, h2, h3⟩ := readTensorLines_offset uninit e (hnm e mem_cons_self).2 (hfit e mem_cons_self).1
      (hfit e mem_cons_self).2 s
    obtain ⟨h1', h2', h3'⟩ := ih (fun e' he' => hnm e' (mem_cons_of_mem _ he'))
      (fun e' he' => hfit e' (mem_cons_of_mem _ he')) (readTensorLines uninit e s)
    rw [foldl_cons]
    refine ⟨h1'.trans h1, h2'.trans h2, ?_⟩
    rw [h3', h3, append_assoc]
    rfl

theorem offsets_parseLines (terminated : Bool) {index : List DumpGroup} (h : ∀ g ∈ index, g.Plain) (s : ParseVars) :
    (parseLines uninit terminated (index.flatMap printGroup) s).offsets =
      s.offsets ++ index.map fun g => g.groupIndex.map word := by
  induction index generalizing s with
  | nil => simp [parseLines]
  | cons g index ih =>
    have hg := h g mem_cons_self
    obtain ⟨fileOffset, size, -, -, hparse⟩ := parseLines_group uninit terminated g
      (fun c hc => isSpace_of_isHexDigit (hg.fingerprint c hc))
      (index.flatMap printGroup) s
    obtain ⟨h1, h2, h3⟩ := offsets_readTensorLines uninit hg.name hg.fits
      ⟨s.groups, ⟨fileOffset, size, g.fingerprint, []⟩, true⟩
    rw [flatMap_cons, hparse, ih fun g' hg' => h g' (mem_cons_of_mem _ hg')]
    rw [offsets, groups_of_reading h2, h1, map_append, map_singleton, h3, map_cons, append_assoc]
    rfl

theorem offsets_parseTensorGroupIndex {index : List DumpGroup} (h : ∀ g ∈ index, g.Plain) :
    (parseTensorGroupIndex uninit (tensorGroupIndexText index)).map (fun g => g.tensorIndexes.map TensorIndex.offset) =
      index.map fun g => g.groupIndex.map word := by
  rw [parseTensorGroupIndex, lines_text (fun g hg c hc => isSpace_of_isHexDigit ((h g hg).fingerprint c hc)) fun g hg e he =>
    ((h g hg).name e he).1,
    parseLines_printLines]
  exact offsets_parseLines uninit _ h _

end Offsets

/-! ## What is sent -/

/-- The names and the offsets of the tensors of groups with base offsets. -/
def sentOffsets (l : List (Nat × DumpGroup)) : List (String × Nat) :=
  l.flatMap fun bg => bg.2.groupIndex.map fun e => (e.name, bg.1 + e.word)

theorem buildResponse_eq (base : Nat) {m : RegisteredModel} (addrs : List Nat) {index : List DumpGroup}
    (h : m.tensorGroupIndexes.map (fun g => g.tensorIndexes.map TensorIndex.offset) =
      index.map fun g => g.groupIndex.map DumpEntry.word) :
    buildResponse base m addrs = .ok (addrs.map fun a => a - base)
      ((sentOffsets ((addrs.map fun a => a - base).zip index)).map Prod.snd) := by
  have hgrp : ∀ (b : Nat) (tg : TensorGroupIndex), (tg.tensorIndexes.map fun t => b + t.offset) =
      (tg.tensorIndexes.map TensorIndex.offset).map fun n => b + n := by
    intro b tg
    rw [map_map]
    rfl
  unfold buildResponse
  simp only [hgrp]
  rw [← zipWith_map_right (f := fun g : TensorGroupIndex => g.tensorIndexes.map TensorIndex.offset)
    (g := fun b l => l.map fun n => b + n), h, zipWith_map_right, sentOffsets, map_flatMap,
    ← map_uncurry_zip_eq_zipWith, flatMap_def]
  simp only [map_map]
  rfl

theorem names_sentOffsets {bases : List Nat} {index : List DumpGroup} (h : bases.length = index.length) :
    (sentOffsets (bases.zip index)).map Prod.fst = index.flatMap fun g => g.groupIndex.map DumpEntry.name := by
  have hindex : (bases.zip index).map Prod.snd = index := map_snd_zip h.ge
  rw [sentOffsets, map_flatMap]
  conv => rhs; rw [← hindex, flatMap_map]
  simp [comp_def]

theorem names_groupTensors (fingerprintOf : List Param → String) (tensorOffsets : String → Option Nat) (limit : Int)
    (sd : StateDict) :
    ((groupTensors fingerprintOf tensorOffsets limit sd.params).flatMap fun g => g.groupIndex.map DumpEntry.name) =
      sd.names := by
  have hgrp : ∀ g : List Param, (groupOf fingerprintOf tensorOffsets g).groupIndex.map DumpEntry.name = g.map Param.name := by
    intro g
    simp [groupOf, comp_def]
  have hflat := flatten_splitGroups limit [] sd.params
  rw [nil_append] at hflat
  rw [groupTensors_eq, flatMap_map]
  simp only [hgrp]
  rw [StateDict.names, flatMap_def, ← map_flatten, hflat]

/-! ## The offsets of the client -/

/-- The client has, for the tensors of the dict and no others, the base offset of the group and the offset in the group, as a
`size_t`. -/
structure OffsetsRestored (device ptr : Nat) (names : List String) (index : List DumpGroup) (bases : List Nat)
    (offsets : Dict String Nat) (restored : RestoredPtrs) : Prop where
  done : restored = .done (Dict.empty.set device ptr) (Dict.empty.set device offsets)
  keys : ∀ name, name ∈ offsets.keys ↔ name ∈ names
  listed : (index.flatMap fun g => g.groupIndex.map DumpEntry.name) = names
  based : bases.length = index.length
  offset : ∀ bg ∈ bases.zip index, ∀ e ∈ bg.2.groupIndex,
    ∃ n, offsets.get? e.name = some n ∧ (n : Int) = ((bg.1 : Int) + e.offset) % sizeBound

theorem add_word_mod (b : Nat) (e : DumpEntry) :
    (((b + e.word) % sizeBound : Nat) : Int) = ((b : Int) + e.offset) % sizeBound := by
  have hpos : (0 : Int) ≤ e.offset % (sizeBound : Int) := Int.emod_nonneg _ (by decide)
  rw [word, Int.natCast_mod, Nat.cast_add, Int.toNat_of_nonneg hpos, Int.add_emod_emod]

section

variable (K : WriterSizes) (os : Os) (mem : Nat → UInt8) (fingerprintOf : List Param → String) (sd : StateDict)
  (chunkMegabytes : Int)

def SavedAs (uninit : Nat) (m : RegisteredModel) : Prop :=
  m.tensorGroupIndexes = parseTensorGroupIndex uninit
    (tensorGroupIndexText (saveTensorGroupDict fingerprintOf K os mem sd chunkMegabytes).1)

/-- Fingerprints are hexadecimal, the offsets of `save_tensors` are `uint64_t`. -/
structure SavedIndex : Prop where
  fingerprints : ∀ g, ∀ c ∈ (fingerprintOf g).toList, isHexDigit c = true
  offsets : ∀ name ∈ sd.names, ∀ n ∈ (saveTensors K os mem sd.tensorDataIndex sd.names .empty).1 name, n < sizeBound

variable {K os mem fingerprintOf sd}

theorem savedGroups (hsaved : SavedIndex K os mem fingerprintOf sd) (hplain : ∀ name ∈ sd.names, PlainName name) (limit : Int) :
    ∀ g ∈ groupTensors fingerprintOf (saveTensors K os mem sd.tensorDataIndex sd.names .empty).1 limit sd.params, g.Plain := by
  have hbd : ∀ p ∈ sd.params, ((saveTensors K os mem sd.tensorDataIndex sd.names .empty).1 p.name).getD 0 < sizeBound := by
    intro p hp
    have hoff := hsaved.offsets p.name (mem_map_of_mem hp)
    cases h : (saveTensors K os mem sd.tensorDataIndex sd.names .empty).1 p.name with
    | none => decide
    | some n => exact hoff n h
  intro dumped hdumped
  rw [groupTensors_eq] at hdumped
  obtain ⟨g, hg, rfl⟩ := mem_map.1 hdumped
  have hmem : ∀ p ∈ g, p ∈ sd.params := fun p hp => splitGroups_mem hg hp
  have hfst : ((g.head?.map fun p => ((saveTensors K os mem sd.tensorDataIndex sd.names .empty).1 p.name).getD 0).getD 0)
      < sizeBound := by
    cases h : g.head? with
    | none => exact Nat.pow_pos (by decide)
    | some first => exact hbd first (hmem first (mem_of_mem_head? h))
  refine ⟨hsaved.fingerprints g, ?_, ?_⟩
  · intro e he
    obtain ⟨p, hp, rfl⟩ := mem_map.1 he
    exact hplain _ (mem_map_of_mem (hmem p hp))
  · intro e he
    obtain ⟨p, hp, rfl⟩ := mem_map.1 he
    have hp' := hbd p (hmem p hp)
    dsimp only
    omega

/-- For every dict whose names have no line feed and do not start a group, every tensor name gets the base offset of its group
and its offset in the group; the exit of `RestorePtrsFromStore` is not taken. -/
theorem offsetsRestored_of_plain (hsaved : SavedIndex K os mem fingerprintOf sd) (hplain : ∀ name ∈ sd.names, PlainName name)
    (uninit : Nat) (m : RegisteredModel) (hm : SavedAs K os mem fingerprintOf sd chunkMegabytes uninit m)
    (base : Nat) (addrs : List Nat)
    (haddrs : addrs.length = (saveTensorGroupDict fingerprintOf K os mem sd chunkMegabytes).1.length) (device ptr : Nat) :
    ∃ bases response offsets, bases = addrs.map (fun a => a - base) ∧ buildResponse base m addrs = .ok bases response ∧
      OffsetsRestored device ptr sd.names (saveTensorGroupDict fingerprintOf K os mem sd chunkMegabytes).1 bases offsets
        (restorePtrsFromStore device (some ptr) (encodeResponse response) sd.names) := by
  have hindex : (saveTensorGroupDict fingerprintOf K os mem sd chunkMegabytes).1 =
      groupTensors fingerprintOf (saveTensors K os mem sd.tensorDataIndex sd.names .empty).1 (chunkMegabytes * 1024 * 1024)
        sd.params := rfl
  have hgps := savedGroups hsaved hplain (chunkMegabytes * 1024 * 1024)
  have hnms := names_groupTensors fingerprintOf (saveTensors K os mem sd.tensorDataIndex sd.names .empty).1
    (chunkMegabytes * 1024 * 1024) sd
  rw [SavedAs, hindex] at hm
  rw [hindex] at haddrs ⊢
  generalize groupTensors fingerprintOf (saveTensors K os mem sd.tensorDataIndex sd.names .empty).1
    (chunkMegabytes * 1024 * 1024) sd.params = index at *
  -- the response has the offsets of the tensors in the order of the names
  have hparsed := offsets_parseTensorGroupIndex uninit hgps
  rw [← hm] at hparsed
  have hbased : (addrs.map fun a => a - base).length = index.length := by rw [length_map, haddrs]
  have hsent := names_sentOffsets hbased
  rw [hnms] at hsent
  generalize hbases : (addrs.map fun a => a - base) = bases at *
  have hresponse := buildResponse_eq base addrs hparsed
  rw [hbases] at hresponse
  have hnd : ((sentOffsets (bases.zip index)).map Prod.fst).Nodup := hsent ▸ sd.names_nodup
  have hrestored := restorePtrsFromStore_encode device ptr ((sentOffsets (bases.zip index)).map Prod.snd)
    sd.names (by rw [← hsent, length_map, length_map])
  rw [map_map, ← hsent, zip_map'] at hrestored
  refine ⟨bases, _, _, rfl, hresponse, ⟨hsent ▸ hrestored, ?_, hnms, hbased, ?_⟩⟩
  · intro name
    rw [mem_keys_foldl_set, map_map, ← hsent]
    simp [Dict.keys, Dict.empty, comp_def]
  · intro bg hbg e he
    refine ⟨(bg.1 + e.word) % sizeBound, get?_foldl_set ?_ ?_ _, add_word_mod bg.1 e⟩
    · rw [map_map]
      exact hnd
    · refine mem_map.2 ⟨(e.name, bg.1 + e.word), ?_, rfl⟩
      exact mem_flatMap.2 ⟨bg, hbg, mem_map.2 ⟨e, he, rfl⟩⟩

end

def serverModel (sd : StateDict) (chunkMegabytes : Int) : RegisteredModel :=
  ⟨"model", parseTensorGroupIndex 7
    (tensorGroupIndexText (saveTensorGroupDict (fun _ => "0f") .source .reliable (fun _ => 0) sd chunkMegabytes).1), [], 0⟩

def pairDict : StateDict where
  params := [⟨"model.embed", 100, 8⟩, ⟨"lm head: x", 200, 5⟩]
  names_nodup := by decide
  oneSize := by decide

theorem offsetsRestored_pairDict :
    ∃ bases response offsets, bases = [300, 40].map (fun a => a - 0) ∧
      buildResponse 0 (serverModel pairDict 0) [300, 40] = .ok bases response ∧
      OffsetsRestored 2 1000 pairDict.names
        (saveTensorGroupDict (fun _ => "0f") .source .reliable (fun _ => 0) pairDict 0).1 bases offsets
        (restorePtrsFromStore 2 (some 1000) (encodeResponse response) pairDict.names) := by
  have hsaved : SavedIndex .source .reliable (fun _ => 0) (fun _ => "0f") pairDict :=
    ⟨fun _ => all_iff_forall_prop.1 (by decide), by decide +kernel⟩
  have hm : SavedAs .source .reliable (fun _ => 0) (fun _ => "0f") pairDict 0 7 (serverModel pairDict 0) := by
    rw [SavedAs, serverModel]
  exact offsetsRestored_of_plain 0 hsaved (by decide) 7 (serverModel pairDict 0) hm 0 [300, 40] (by decide +kernel) 2 1000

/-- Two tensors of one group, the second with a name of two lines. -/
def feedDict : StateDict where
  params := [⟨"a", 100, 8⟩, ⟨"b\n  Tensor Name: c", 200, 8⟩]
  names_nodup := by decide
  oneSize := by decide

def feedIndex : List DumpGroup := [⟨0, 16, "0f", [⟨"a", 0, 8⟩, ⟨"b\n  Tensor Name: c", 8, 8⟩]⟩]

/-- Two tensors of one group, the second with a name that starts a group. -/
def markerDict : StateDict where
  params := [⟨"a", 100, 8⟩, ⟨"b Group Offset:", 200, 8⟩]
  names_nodup := by decide
  oneSize := by decide

/-- Its index. -/
def markerIndex : List DumpGroup := [⟨0, 16, "0f", [⟨"a", 0, 8⟩, ⟨"b Group Offset:", 8, 8⟩]⟩]

theorem buildResponse_serverModel {sd : StateDict} {index p : List DumpGroup} (addrs : List Nat)
    (hindex : (saveTensorGroupDict (fun _ => "0f") .source .reliable (fun _ => 0) sd 8).1 = index)
    (hparsed : (parseTensorGroupIndex 7 (tensorGroupIndexText index)).map (fun g => g.tensorIndexes.map TensorIndex.offset) =
      p.map fun g => g.groupIndex.map word) :
    buildResponse 0 (serverModel sd 8) addrs =
      .ok (addrs.map fun a => a - 0) ((sentOffsets ((addrs.map fun a => a - 0).zip p)).map Prod.snd) :=
  buildResponse_eq 0 addrs (by rw [serverModel, hindex, hparsed])

/-- The offset of the second tensor in the group is 8. A line feed in its name makes it 0. A name that starts a group brings its
tensor into a second group, with a base offset of its own. -/
theorem names_move_offsets :
    ((saveTensorGroupDict (fun _ => "0f") .source .reliable (fun _ => 0) feedDict 8).1 = feedIndex ∧
      buildResponse 0 (serverModel feedDict 8) [1000] = .ok [1000] [1000, 1000] ∧
      ∀ offsets, ¬OffsetsRestored 0 0 feedDict.names feedIndex [1000] offsets
        (restorePtrsFromStore 0 (some 0) (encodeResponse [1000, 1000]) feedDict.names)) ∧
    (saveTensorGroupDict (fun _ => "0f") .source .reliable (fun _ => 0) markerDict 8).1 = markerIndex ∧
      buildResponse 0 (serverModel markerDict 8) [1000, 2000] = .ok [1000, 2000] [1000, 2008] := by
  have hfeed : (saveTensorGroupDict (fun _ => "0f") .source .reliable (fun _ => 0) feedDict 8).1 = feedIndex := by
    decide +kernel
  have hmar : (saveTensorGroupDict (fun _ => "0f") .source .reliable (fun _ => 0) markerDict 8).1 = markerIndex := by
    decide +kernel
  have hfeedResponse := buildResponse_serverModel (p := [⟨0, 16, "0f", [⟨"a", 0, 8⟩, ⟨"b", 0, 8⟩]⟩]) [1000] hfeed
    (by decide +kernel)
  have hmarkerResponse := buildResponse_serverModel
    (p := [⟨0, 16, "0f", [⟨"a", 0, 8⟩]⟩, ⟨0, 0, "", [⟨"b", 8, 8⟩]⟩]) [1000, 2000] hmar (by decide +kernel)
  refine ⟨⟨hfeed, by simpa [sentOffsets, word, sizeBound] using hfeedResponse, fun offsets h => ?_⟩, hmar,
    by simpa [sentOffsets, word, sizeBound] using hmarkerResponse⟩
  have hdone := h.done
  rw [restorePtrsFromStore_encode 0 0 _ _ (by decide), RestoredPtrs.done.injEq] at hdone
  have hofs := congrArg (fun d => (d.get? 0).bind fun o => o.get? "b\n  Tensor Name: c") hdone.2
  have hsent : get? (set (set Dict.empty "a" 1000) "b\n  Tensor Name: c" 1000) "b\n  Tensor Name: c" =
      offsets.get? "b\n  Tensor Name: c" := by simpa [StateDict.names, feedDict, sizeBound] using hofs
  obtain ⟨n, hn, hval⟩ := h.offset (1000, ⟨0, 16, "0f", [⟨"a", 0, 8⟩, ⟨"b\n  Tensor Name: c", 8, 8⟩]⟩)
    (by simp [feedIndex]) ⟨"b\n  Tensor Name: c", 8, 8⟩ (by simp)
  rw [hn, get?_set_self, Option.some.injEq] at hsent
  subst hsent
  exact absurd hval (by decide)

end ServerlessLLM
