import ServerlessLLM.Checkpoint.Conversion
import ServerlessLLM.Library.Runs

/-!
# Conversions lose nothing

The planned outputs of a source cover its rows (`itemsOf_spec`), and no key is planned twice.
-/

namespace ServerlessLLM.Checkpoint.Conversion

open List Dict Function Outcome OutputTensor
open Prod (fst snd)

section

variable {source : SourceTensor} {sources : List SourceTensor} {target : Target} {tie : Bool}
  {items outputs : List OutputTensor}
  {generated : List Name}

/-! ## The items of a source -/

/-- The items take rows from `start` on up to `stop`, one after the other. -/
def TakeRows (rest : List Nat) : Nat → List OutputTensor → Nat → Prop
  | start, [], stop => start = stop
  | start, o :: items, stop => ∃ length, o.splitStart = some start ∧ o.splitLength = some length ∧ o.shape = length :: rest ∧
      TakeRows rest (start + length) items stop

/-- The items have each row of the source once: the source as a whole, or its rows one after the other. -/
def CoversRows (source : SourceTensor) (items : List OutputTensor) : Prop :=
  (∃ o, items = [o] ∧ o.splitStart = none ∧ o.splitLength = none ∧ o.shape = source.shape) ∨
    ∃ rows rest, source.shape = rows :: rest ∧ TakeRows rest 0 items rows

structure IsItem (source : SourceTensor) (target : Target) (o : OutputTensor) : Prop where
  sourceName : o.sourceName = source.name
  dtype : o.dtype = source.dtype
  key : ∃ dtype, target.get? o.name = some (o.shape, dtype)

variable {o : OutputTensor} {s s' : List OutputTensor × List Name}

theorem directOutput_spec {name : Name} (h : directOutput source target name = .ok o) :
    CoversRows source [o] ∧ IsItem source target o := by
  unfold directOutput at h
  split at h
  · cases h
  · rename_i shape dtype hget
    split at h
    · cases h
    · rename_i hshp
      cases h
      rw [not_not] at hshp
      exact ⟨.inl ⟨_, rfl, rfl, rfl, hshp⟩, rfl, rfl, dtype, hget⟩

theorem splitFrom_spec {rest : List Nat} {l : List Name} {shapes : List (List Nat)} (hlen : shapes.length = l.length)
    (hshapes : ∀ shape ∈ shapes, shape = shape.headD 0 :: rest) (start : Nat) :
    TakeRows rest start (splitFrom source start (l.zip (shapes.zip (shapes.map fun shape => shape.headD 0))))
      (start + (shapes.map fun shape => shape.headD 0).sum) := by
  induction shapes generalizing l start with
  | nil => cases l <;> simp [splitFrom, TakeRows]
  | cons shape shapes ih =>
    cases l with
    | nil => cases hlen
    | cons name l =>
      rw [map_cons, zip_cons_cons, zip_cons_cons, splitFrom, sum_cons, ← Nat.add_assoc]
      refine ⟨shape.headD 0, rfl, rfl, hshapes shape mem_cons_self, ?_⟩
      exact ih (Nat.succ.inj hlen) (fun s hs => hshapes s (mem_cons_of_mem _ hs)) _

theorem mem_splitFrom {l : List (Name × List Nat × Nat)} {start : Nat} (h : o ∈ splitFrom source start l) :
    o.sourceName = source.name ∧ o.dtype = source.dtype ∧ ∃ length, (o.name, o.shape, length) ∈ l := by
  induction l generalizing start with
  | nil => cases h
  | cons e l ih =>
    obtain ⟨name, shape, length⟩ := e
    rcases mem_cons.1 h with rfl | h
    · exact ⟨rfl, rfl, length, mem_cons_self⟩
    · obtain ⟨hsrc, hdtype, k, hk⟩ := ih h
      exact ⟨hsrc, hdtype, k, mem_cons_of_mem _ hk⟩

theorem mem_zip_map {α β γ : Type} {f : α → β} {g : β → γ} {l : List α} {a : α} {b : β} {c : γ}
    (h : (a, b, c) ∈ l.zip ((l.map f).zip ((l.map f).map g))) : a ∈ l ∧ b = f a := by
  induction l with
  | nil => cases h
  | cons x l ih =>
    rw [map_cons, map_cons, zip_cons_cons, zip_cons_cons] at h
    rcases mem_cons.1 h with h | h
    · cases h
      exact ⟨mem_cons_self, rfl⟩
    · exact ⟨mem_cons_of_mem _ (ih h).1, (ih h).2⟩

theorem splitOutputs_spec {names : List Name} (h : splitOutputs source target names = .ok items) (hne : items ≠ []) :
    CoversRows source items ∧ ∀ o ∈ items, IsItem source target o := by
  unfold splitOutputs at h
  split at h
  · cases h
    exact absurd rfl hne
  · rename_i hks
    push Not at hks
    simp only at h
    split at h
    · cases h
    · rename_i hrank
      split at h
      · cases h
      · rename_i htail
        split at h
        · cases h
        · rename_i rows rest hshp
          push Not at hrank htail
          rw [hshp] at hrank htail
          split at h
          · cases h
          · rename_i hsum
            rw [not_not] at hsum
            cases h
            have hshapes : ∀ shape ∈ names.map fun name => ((target.get? name).map fst).getD [],
              shape = shape.headD 0 :: rest := by
              intro shape hs
              have hlen := hrank shape hs
              have hrs := htail shape hs
              cases shape with
              | nil => cases hlen
              | cons n shape => exact congrArg (cons n) hrs
            refine ⟨.inr ⟨rows, rest, hshp, ?_⟩, fun o ho => ?_⟩
            · have htake := @splitFrom_spec source rest names _ (length_map ..) hshapes 0
              rwa [hsum, Nat.zero_add] at htake
            · obtain ⟨hsrc, hdtype, length, hmem⟩ := mem_splitFrom ho
              refine ⟨hsrc, hdtype, ?_⟩
              obtain ⟨hnm, hshp'⟩ := mem_zip_map hmem
              obtain ⟨⟨shape, dtype⟩, hget⟩ := mem_keys_iff.1 (hks _ hnm)
              rw [hget] at hshp'
              exact ⟨dtype, by rw [hget, hshp']; rfl⟩

theorem itemsOf_spec (h : itemsOf source target tie = .ok items) (hne : items ≠ []) :
    CoversRows source items ∧ ∀ o ∈ items, IsItem source target o := by
  have hone : ∀ {name : Name} {o : OutputTensor}, directOutput source target name = .ok o →
      CoversRows source [o] ∧ ∀ o' ∈ [o], IsItem source target o' := by
    intro name o ho
    obtain ⟨hcov, hitem⟩ := directOutput_spec ho
    exact ⟨hcov, fun o' ho' => mem_singleton.1 ho' ▸ hitem⟩
  unfold itemsOf at h
  split at h
  · rename_i name _
    cases hdirect : directOutput source target name with
    | error e => rw [hdirect] at h; cases h
    | ok o =>
      rw [hdirect] at h
      cases h
      exact hone hdirect
  · split at h
    · -- there is one alias
      obtain ⟨name, hnm⟩ : ∃ name, (if tie = true then ["model.embed_tokens.weight".toList] else [lmHeadWeight]) = [name] := by
        cases tie
        · exact ⟨_, rfl⟩
        · exact ⟨_, rfl⟩
      simp only [hnm] at h
      by_cases hkey : name ∈ target.keys
      · rw [filter_cons_of_pos (by simpa using hkey), filter_nil, mapM_cons, mapM_nil] at h
        obtain ⟨o, ho, h⟩ := bind_eq_ok.1 h
        cases h
        exact hone ho
      · rw [filter_cons_of_neg (by simpa using hkey), filter_nil, mapM_nil] at h
        cases h
        exact absurd rfl hne
    · split at h
      · exact splitOutputs_spec h hne
      · split at h
        · exact splitOutputs_spec h hne
        · cases h
          exact absurd rfl hne

/-! ## The plan -/

theorem addItems_spec (h : addItems items s = .ok s') :
    s'.1 = s.1 ++ items ∧ s'.2 = s.2 ++ items.map name ∧ (s.2.Nodup → s'.2.Nodup) := by
  induction items generalizing s with
  | nil =>
    cases h
    simp
  | cons item items ih =>
    obtain ⟨outputs, generated⟩ := s
    unfold addItems at h
    split at h
    · cases h
    · rename_i hnew
      obtain ⟨hout, hgen, hnd⟩ := ih h
      refine ⟨by rw [hout, append_assoc]; rfl, by rw [hgen, append_assoc]; rfl, fun hn => hnd ?_⟩
      exact nodup_append.2 ⟨hn, nodup_singleton _, fun a ha b hb => by rintro rfl; exact hnew (mem_singleton.1 hb ▸ ha)⟩

theorem planLoop_spec (h : planLoop target tie sources s = .ok s') :
    ∃ itemLists, List.Forall₂ (fun source items => CoversRows source items ∧ ∀ o ∈ items,
      IsItem source target o) sources itemLists ∧
      s'.1 = s.1 ++ itemLists.flatten ∧ s'.2 = s.2 ++ itemLists.flatten.map name ∧ (s.2.Nodup → s'.2.Nodup) := by
  induction sources generalizing s with
  | nil =>
    cases h
    exact ⟨[], .nil, by simp, by simp, id⟩
  | cons source sources ih =>
    unfold planLoop at h
    obtain ⟨items, hits, h⟩ := bind_eq_ok.1 h
    split at h
    · cases h
    · rename_i hne
      obtain ⟨s₁, hadd, h⟩ := bind_eq_ok.1 h
      obtain ⟨hout, hgen, hnd⟩ := addItems_spec hadd
      obtain ⟨itemLists, hall, hout', hgen', hnd'⟩ := ih h
      obtain ⟨hcov, hitem⟩ := itemsOf_spec hits hne
      refine ⟨items :: itemLists, .cons ⟨hcov, hitem⟩ hall, ?_, ?_, fun hn => hnd' (hnd hn)⟩
      · rw [hout', hout, append_assoc]
        rfl
      · rw [hgen', hgen, append_assoc, flatten_cons, map_append]

theorem filter_flatten {itemLists : List (List OutputTensor)}
    (h : List.Forall₂ (fun source items => CoversRows source items ∧ ∀ o ∈ items, IsItem source target o) sources itemLists)
    (hnms : (sources.map SourceTensor.name).Nodup) (before : List OutputTensor)
    (hbef : ∀ o ∈ before, o.sourceName ∉ sources.map SourceTensor.name) :
    List.Forall₂ (fun source items => (before ++ itemLists.flatten).filter
      (fun o => o.sourceName = SourceTensor.name source) = items ∧
      CoversRows source items ∧ ∀ o ∈ items, IsItem source target o) sources itemLists := by
  induction h generalizing before with
  | nil => exact .nil
  | @cons source items sources itemLists hits hrs ih =>
    rw [map_cons, nodup_cons] at hnms
    have hsources : ∀ o ∈ itemLists.flatten, o.sourceName ∈ sources.map SourceTensor.name := by
      clear ih hnms hbef
      induction hrs with
      | nil => simp
      | @cons source' items' sources itemLists hits' _ ih =>
        intro o ho
        rw [flatten_cons, mem_append] at ho
        rcases ho with ho | ho
        · rw [(hits'.2 o ho).sourceName]
          exact mem_cons_self
        · exact mem_cons_of_mem _ (ih o ho)
    refine .cons ⟨?_, hits⟩ ?_
    · have hother : before.filter (fun o => o.sourceName = source.name) = [] :=
        filter_eq_nil_iff.2 fun o ho heq => hbef o ho (of_decide_eq_true heq ▸ mem_cons_self)
      have hlater : itemLists.flatten.filter (fun o => o.sourceName = source.name) = [] :=
        filter_eq_nil_iff.2 fun o ho heq => hnms.1 (of_decide_eq_true heq ▸ hsources o ho)
      rw [flatten_cons, filter_append, filter_append, hother, hlater, nil_append, append_nil]
      exact filter_eq_self.2 fun o ho => decide_eq_true (hits.2 o ho).sourceName
    · rw [flatten_cons, ← append_assoc]
      refine ih hnms.2 _ fun o ho => ?_
      rcases mem_append.1 ho with ho | ho
      · exact fun hmem => hbef o ho (mem_cons_of_mem _ hmem)
      · rw [(hits.2 o ho).sourceName]
        exact hnms.1

end

/-! ## The names of the shards -/

theorem padded_injective : Function.Injective padded := by
  intro n m h
  have hval : ∀ n, Nat.ofDigitChars 10 (padded n) 0 = n := by
    intro n
    rw [padded, Nat.ofDigitChars_append, Nat.ofDigitChars_replicate_zero, Nat.mul_zero, Nat.ofDigitChars_ten_toDigits]
  rw [← hval n, ← hval m, h]

theorem shardName_injective : Function.Injective shardName := fun _ _ h =>
  padded_injective (append_cancel_right (append_cancel_left h))

theorem finalName_injective (count : Nat) : Function.Injective (finalName count) := fun _ _ h =>
  padded_injective (append_cancel_right (append_cancel_left h))

theorem dash_notMem_padded (n : Nat) : '-' ∉ padded n := by
  intro h
  rcases mem_append.1 h with h | h
  · exact absurd (eq_of_mem_replicate h) (by decide)
  · exact absurd (Nat.isDigit_of_mem_toDigits (by decide) (by decide) h) (by decide)

theorem finalName_ne_shardName (count index n : Nat) : finalName count index ≠ shardName n := by
  intro h
  have htail := append_cancel_left h
  have hmem : '-' ∈ padded n ++ ".safetensors".toList := by
    rw [← htail]
    exact mem_append_right _ (mem_append_left _ (by decide +kernel))
  rcases mem_append.1 hmem with hmem | hmem
  · exact dash_notMem_padded n hmem
  · exact absurd hmem (by decide +kernel)

/-! ## Packing -/

def Shard.bytes (shard : Shard) : Nat := (shard.entries.map fun e => e.2.sizeBytes).sum

def indexOf (l : List (Name × Shard)) : List (Name × Name) := l.flatMap fun e => e.2.keys.map fun name => (name, e.1)

def tensorNames (l : List (Name × Shard)) : List Name := l.flatMap fun e => e.2.keys

theorem map_fst_indexOf (l : List (Name × Shard)) : (indexOf l).map fst = tensorNames l := by
  unfold indexOf tensorNames
  rw [map_flatMap]
  refine flatMap_congr fun e _ => ?_
  rw [map_map]
  exact map_id _

/-- The loop wrote `done`: the shards, and then the open one, have these outputs in their order. -/
structure Packed (maxShardBytes : Nat) (done : List OutputTensor) (w : Sharding) : Prop where
  paths : w.shardPaths = (range w.shardPaths.length).map fun k => shardName (k + 1)
  keys : w.directory.keys = w.shardPaths
  outputs : w.directory.entries.flatMap (fun e => e.2.entries) ++ w.shard.entries = done.map fun o => (o.name, o)
  index : w.weightMap.entries = indexOf w.directory.entries
  closed : ∀ e ∈ w.directory.entries, e.2.bytes ≤ maxShardBytes ∨ e.2.entries.length = 1
  small : w.shard.bytes ≤ maxShardBytes ∨ w.shard.entries.length = 1
  shardBytes : w.shardBytes = w.shard.bytes
  convertedBytes : w.convertedBytes = (done.map sizeBytes).sum

section

variable {maxShardBytes : Nat} {done : List OutputTensor} {w : Sharding}

theorem packed_nil : Packed maxShardBytes [] ⟨[], .empty, .empty, 0, 0, .empty⟩ :=
  ⟨rfl, rfl, rfl, rfl, fun _ h => absurd h not_mem_nil, .inl (Nat.zero_le _), rfl, rfl⟩

theorem Packed.names (h : Packed maxShardBytes done w) :
    tensorNames w.directory.entries ++ w.shard.keys = done.map name := by
  have hmap := congrArg (map fst) h.outputs
  rw [map_append, map_flatMap, map_map] at hmap
  exact hmap

theorem Packed.flushShard (h : Packed maxShardBytes done w) (hnd : (done.map OutputTensor.name).Nodup) :
    Packed maxShardBytes done w.flushShard := by
  unfold Sharding.flushShard
  split
  · exact h
  · have hnew : shardName (w.shardPaths.length + 1) ∉ w.directory.keys := by
      intro hmem
      rw [h.keys] at hmem
      obtain ⟨k, hk, heq⟩ := mem_map.1 (h.paths.subst (motive := fun l => shardName (w.shardPaths.length + 1) ∈ l) hmem)
      have hsa := shardName_injective heq
      have hlt := mem_range.1 hk
      omega
    have hent := entries_set_of_not_mem hnew w.shard
    refine ⟨?_, ?_, ?_, ?_, ?_, .inl (Nat.zero_le _), rfl, h.convertedBytes⟩
    · rw [length_append, length_singleton, range_succ, map_append, ← h.paths]
      rfl
    · show (w.directory.set _ w.shard).keys = _
      rw [keys_set, if_neg hnew, h.keys]
    · show (w.directory.set _ w.shard).entries.flatMap _ ++ [] = _
      rw [hent, flatMap_append, append_nil, ← h.outputs]
      simp
    · show (foldl _ w.weightMap _).entries = indexOf (w.directory.set _ w.shard).entries
      rw [entries_foldl_set, hent, h.index]
      · simp [indexOf]
      · rw [Dict.keys, h.index, map_fst_indexOf, map_map]
        have hnms := h.names ▸ hnd
        simpa [comp_def] using hnms
    · intro e he
      rw [hent, mem_append, mem_singleton] at he
      rcases he with he | rfl
      · exact h.closed e he
      · exact h.small

theorem Packed.add {planned : OutputTensor} (h : Packed maxShardBytes done w)
    (hnd : ((done ++ [planned]).map OutputTensor.name).Nodup) :
    Packed maxShardBytes (done ++ [planned]) (w.add maxShardBytes planned) := by
  rw [map_append, map_singleton] at hnd
  have hdone : (done.map name).Nodup := (nodup_append.1 hnd).1
  -- after the flush, the shard is empty or has room
  have hro : ∃ w', Packed maxShardBytes done w' ∧ (w'.shard.entries = [] ∨ w'.shardBytes + planned.sizeBytes ≤ maxShardBytes) ∧
      w.add maxShardBytes planned = { w' with
        shard := w'.shard.set planned.name planned
        shardBytes := w'.shardBytes + planned.sizeBytes
        convertedBytes := w'.convertedBytes + planned.sizeBytes } := by
    by_cases hfull : w.shard.entries ≠ [] ∧ w.shardBytes + planned.sizeBytes > maxShardBytes
    · refine ⟨w.flushShard, h.flushShard hdone, .inl ?_, by unfold Sharding.add; rw [if_pos hfull]⟩
      rw [Sharding.flushShard, if_neg hfull.1]
      rfl
    · refine ⟨w, h, ?_, by unfold Sharding.add; rw [if_neg hfull]⟩
      by_cases hemp : w.shard.entries = []
      · exact .inl hemp
      · exact .inr (Nat.le_of_not_lt fun hlt => hfull ⟨hemp, hlt⟩)
  obtain ⟨w', h', hro, heq⟩ := hro
  rw [heq]
  have hnew : planned.name ∉ w'.shard.keys := by
    intro hmem
    refine (nodup_append.1 hnd).2.2 planned.name ?_ _ (mem_singleton.2 rfl) rfl
    rw [← h'.names]
    exact mem_append_right _ hmem
  have hent := entries_set_of_not_mem hnew planned
  have hbyt : Shard.bytes (w'.shard.set planned.name planned) = w'.shard.bytes + planned.sizeBytes := by
    rw [Shard.bytes, hent, map_append, sum_append, map_singleton, sum_singleton]
    rfl
  refine ⟨h'.paths, h'.keys, ?_, h'.index, h'.closed, ?_, ?_, ?_⟩
  · rw [hent, ← append_assoc, h'.outputs, map_append, map_singleton]
  · rcases hro with hemp | hro
    · refine .inr ?_
      rw [hent, hemp]
      rfl
    · refine .inl ?_
      rwa [hbyt, ← h'.shardBytes]
  · rw [hbyt, ← h'.shardBytes]
  · rw [map_append, sum_append, ← h'.convertedBytes, map_singleton, sum_singleton]

theorem packed_foldl (outputs : List OutputTensor) (h : Packed maxShardBytes done w)
    (hnd : ((done ++ outputs).map name).Nodup) :
    Packed maxShardBytes (done ++ outputs) (outputs.foldl (Sharding.add maxShardBytes) w) := by
  induction outputs generalizing done w with
  | nil => rwa [append_nil]
  | cons planned outputs ih =>
    rw [append_cons] at hnd ⊢
    refine ih (h.add (List.Nodup.sublist (List.Sublist.map _ ?_) hnd)) hnd
    exact sublist_append_left _ _

end

/-! ## Renaming -/

theorem mem_indexOf {l : List (Name × Shard)} {name path : Name} :
    (name, path) ∈ indexOf l ↔ ∃ shard, (path, shard) ∈ l ∧ name ∈ shard.keys := by
  unfold indexOf
  rw [mem_flatMap]
  constructor
  · rintro ⟨⟨path', shard⟩, he, hmem⟩
    obtain ⟨name', hnm, heq⟩ := mem_map.1 hmem
    cases heq
    exact ⟨shard, he, hnm⟩
  · rintro ⟨shard, he, hnm⟩
    exact ⟨(path, shard), he, mem_map.2 ⟨name, hnm, rfl⟩⟩

theorem filter_indexOf {l : List (Name × Shard)} (hnd : (l.map fst).Nodup) {e : Name × Shard} (he : e ∈ l) :
    (indexOf l).filter (fun x => x.2 = e.1) = e.2.keys.map fun name => (name, e.1) := by
  induction l with
  | nil => cases he
  | cons a l ih =>
    rw [map_cons, nodup_cons] at hnd
    have hcons : indexOf (a :: l) = (a.2.keys.map fun name => (name, a.1)) ++ indexOf l := flatMap_cons
    rw [hcons, filter_append]
    rcases mem_cons.1 he with rfl | he
    · rw [filter_eq_self.2, filter_eq_nil_iff.2, append_nil]
      · rintro ⟨name, path⟩ hmem heq
        obtain ⟨shard, hshard, -⟩ := mem_indexOf.1 hmem
        cases of_decide_eq_true heq
        exact hnd.1 (mem_map.2 ⟨_, hshard, rfl⟩)
      · intro x hx
        obtain ⟨name, -, rfl⟩ := mem_map.1 hx
        exact decide_eq_true rfl
    · rw [filter_eq_nil_iff.2, nil_append]
      · exact ih hnd.2 he
      · intro x hx heq
        obtain ⟨name, -, rfl⟩ := mem_map.1 hx
        exact hnd.1 (mem_map.2 ⟨e, he, (of_decide_eq_true heq).symm⟩)

theorem renameLoop_spec {weightMap : Dict Name Name} {count : Nat} {l finished : List (Name × Shard)} {index : Nat}
    {directory : Dict Name Shard} {final : Dict Name Name} (hdir : directory.entries = l ++ finished)
    (hfinal : final.entries = indexOf finished) (hl : ∀ e ∈ l, ∃ n, e.1 = shardName n)
    (hfinished : ∀ e ∈ finished, ∃ k < index, e.1 = finalName count k)
    (hwts : ∀ e ∈ l, weightMap.entries.filter (fun x => x.2 = e.1) = e.2.keys.map fun name => (name, e.1))
    (hnd : (tensorNames (finished ++ l)).Nodup) :
    ∃ l', (renameLoop weightMap count (l.map fst) index (directory, final)).1.entries = finished ++ l' ∧
      l'.map snd = l.map snd ∧
      (renameLoop weightMap count (l.map fst) index (directory, final)).2.entries = indexOf (finished ++ l') := by
  induction l generalizing finished index directory final with
  | nil => exact ⟨[], by rw [append_nil]; exact hdir, rfl, by rw [append_nil]; exact hfinal⟩
  | cons e l ih =>
    obtain ⟨path, shard⟩ := e
    obtain ⟨n, hpa⟩ := hl _ mem_cons_self
    have hnodup := directory.nodup
    rw [hdir, cons_append, map_cons, nodup_cons] at hnodup
    have hget : directory.get? path = some shard := mem_entries_iff.1 (hdir ▸ mem_cons_self)
    have hers : (directory.erase path).entries = l ++ finished := by
      show directory.entries.filter (fun e => e.1 ≠ path) = l ++ finished
      rw [hdir, cons_append, filter_cons_of_neg (by simp)]
      refine filter_eq_self.2 fun e he => decide_eq_true fun heq => hnodup.1 ?_
      exact mem_map.2 ⟨e, he, heq⟩
    have hnew : finalName count index ∉ (directory.erase path).keys := by
      intro hmem
      rw [Dict.keys, hers, map_append, mem_append] at hmem
      rcases hmem with hmem | hmem
      · obtain ⟨e, he, heq⟩ := mem_map.1 hmem
        obtain ⟨m, hm⟩ := hl e (mem_cons_of_mem _ he)
        exact finalName_ne_shardName _ _ _ (heq.symm.trans hm)
      · obtain ⟨e, he, heq⟩ := mem_map.1 hmem
        obtain ⟨k, hk, hnm⟩ := hfinished e he
        have hsa := finalName_injective count (hnm.symm.trans heq)
        omega
    have hrename : (rename directory path (finalName count index)).entries = l ++
      (finished ++ [(finalName count index, shard)]) := by
      unfold rename
      rw [hget]
      show ((directory.erase path).set _ shard).entries = _
      rw [entries_set_of_not_mem hnew, hers, append_assoc]
    have hindex : (((weightMap.entries.filter fun x => x.2 = path).map fun x => (x.1, finalName count index)).foldl
        (fun d e => d.set e.1 e.2) final).entries = indexOf (finished ++ [(finalName count index, shard)]) := by
      rw [hwts _ mem_cons_self, map_map, entries_foldl_set, hfinal]
      · simp [indexOf, comp_def]
      · rw [Dict.keys, hfinal, map_fst_indexOf, map_map]
        simp only [tensorNames, flatMap_append, flatMap_cons] at hnd
        rw [← append_assoc] at hnd
        simpa [tensorNames, comp_def] using (nodup_append.1 hnd).1
    obtain ⟨l', hent, hsnd, hweightMap⟩ := ih hrename hindex (fun e he => hl e (mem_cons_of_mem _ he))
      (fun e he => by
        rcases mem_append.1 he with he | he
        · obtain ⟨k, hk, hnm⟩ := hfinished e he
          exact ⟨k, hk.trans (Nat.lt_succ_self _), hnm⟩
        · rw [mem_singleton.1 he]
          exact ⟨index, Nat.lt_succ_self _, rfl⟩)
      (fun e he => hwts e (mem_cons_of_mem _ he))
      (by simpa [tensorNames, flatMap_append] using hnd)
    refine ⟨(finalName count index, shard) :: l', ?_, ?_, ?_⟩
    · rw [append_cons]
      exact hent
    · rw [map_cons, map_cons, hsnd]
    · rw [append_cons]
      exact hweightMap

theorem Packed.renamed {maxShardBytes : Nat} {done : List OutputTensor} {w : Sharding} (h : Packed maxShardBytes done w)
    (hemp : w.shard.entries = []) (hnd : (done.map name).Nodup) :
    w.directory.entries.map snd =
        (renameLoop w.weightMap w.shardPaths.length w.shardPaths 1 (w.directory, .empty)).1.entries.map snd ∧
      (renameLoop w.weightMap w.shardPaths.length w.shardPaths 1 (w.directory, .empty)).2.entries =
        indexOf (renameLoop w.weightMap w.shardPaths.length w.shardPaths 1 (w.directory, .empty)).1.entries := by
  have hnms := h.names
  rw [Dict.keys, hemp, map_nil, append_nil] at hnms
  have hpaths : w.shardPaths = w.directory.entries.map fst := h.keys.symm
  have hshardNames : ∀ e ∈ w.directory.entries, ∃ n, e.1 = shardName n := by
    intro e he
    have hmem : e.1 ∈ w.shardPaths := hpaths ▸ mem_map_of_mem he
    obtain ⟨k, -, hk⟩ := mem_map.1 (h.paths.subst (motive := fun l => e.1 ∈ l) hmem)
    exact ⟨k + 1, hk.symm⟩
  obtain ⟨shards, hent, hsnd, hindex⟩ :=
    @renameLoop_spec w.weightMap w.shardPaths.length w.directory.entries [] 1 w.directory .empty
    (append_nil _).symm rfl hshardNames (by simp) (fun e he => h.index ▸ filter_indexOf w.directory.nodup he)
    (by rwa [nil_append, hnms])
  rw [← hpaths, nil_append] at hent hindex
  exact ⟨by rw [hent, hsnd], by rw [hindex, hent]⟩

/-! ## The conversion -/

section

variable {sources : List SourceTensor} {target : Target} {tie : Bool} {outputs : List OutputTensor}

variable {outputsOf : SourceTensor → List OutputTensor} {itemLists : List (List OutputTensor)}

theorem foldl_sources {β : Type}
    (h : List.Forall₂ (fun source items => outputsOf source = items) sources itemLists) (f : β → OutputTensor → β) (w : β) :
    sources.foldl (fun w source => (outputsOf source).foldl f w) w = itemLists.flatten.foldl f w := by
  induction h generalizing w with
  | nil => rfl
  | @cons source items sources itemLists hits _ ih =>
    rw [foldl_cons, ih, flatten_cons, foldl_append, hits]

theorem forall_mem_of_forall₂ {P : SourceTensor → List OutputTensor → Prop}
    (h : List.Forall₂ (fun source items => outputsOf source = items ∧ P source items) sources itemLists) :
    ∀ source ∈ sources, P source (outputsOf source) := by
  induction h with
  | nil => simp
  | cons hits _ ih => exact forall_mem_cons.2 ⟨hits.1 ▸ hits.2, ih⟩

theorem planOutputs_spec (h : planOutputs sources target tie = .ok (outputs, [])) :
    (∃ itemLists, List.Forall₂ (fun source items => CoversRows source items ∧ ∀ o ∈ items,
      IsItem source target o) sources itemLists ∧
      outputs = itemLists.flatten) ∧
    (outputs.map name).Nodup ∧
    ∀ key ∈ target.keys, ¬ (tie = true ∧ key = lmHeadWeight) → key ∈ outputs.map name := by
  unfold planOutputs at h
  obtain ⟨s, hloop, h⟩ := bind_eq_ok.1 h
  obtain ⟨itemLists, hall, hout, hgen, hnd⟩ := planLoop_spec hloop
  simp only [Except.ok.injEq, Prod.mk.injEq] at h
  obtain ⟨rfl, hmis⟩ := h
  rw [nil_append] at hout hgen
  have hnms : s.2 = s.1.map name := by rw [hgen, hout]
  refine ⟨⟨itemLists, hall, hout⟩, hnms ▸ hnd nodup_nil, fun key hkey htied => ?_⟩
  rw [← hnms]
  by_contra hnot
  have hrequired : key ∈ if tie = true then target.keys.filter (· ≠ lmHeadWeight) else target.keys := by
    split
    · rename_i htie
      exact mem_filter.2 ⟨hkey, decide_eq_true fun heq => htied ⟨htie, heq⟩⟩
    · exact hkey
  have hlen := congrArg length hmis
  rw [length_insertionSort, length_nil, length_eq_zero_iff] at hlen
  exact filter_eq_nil_iff.1 hlen key hrequired (decide_eq_true hnot)

/-- What is converted is neither lost nor doubled. Every key of the target but a tied head is generated once; the outputs of a
source have its rows in their order; and every output is in the one shard that the index names. A shard has `maxShardBytes` at
most, or one tensor. -/
theorem convert_lossless (hnames : (sources.map SourceTensor.name).Nodup)
    (hplan : planOutputs sources target tie = .ok (outputs, []))
    (maxShardBytes : Nat) :
    (∀ key ∈ target.keys, ¬ (tie = true ∧ key = lmHeadWeight) → (outputs.map name).count key = 1) ∧
    (∀ source ∈ sources, CoversRows source (outputs.filter fun o => o.sourceName = source.name) ∧
      ∀ o ∈ outputs.filter fun o => o.sourceName = source.name, IsItem source target o) ∧
    ∃ c, convert sources target tie maxShardBytes = .ok c ∧
      (∀ o ∈ outputs, ∃ path shard, c.directory.get? path = some shard ∧ shard.get? o.name = some o ∧
        c.weightMap.get? o.name = some path ∧
        ∀ path' shard', c.directory.get? path' = some shard' → o.name ∈ shard'.keys → path' = path) ∧
      (∀ path shard, c.directory.get? path = some shard →
        (∀ e ∈ shard.entries, e.2 ∈ outputs ∧ e.1 = e.2.name) ∧ (shard.bytes ≤ maxShardBytes ∨ shard.entries.length = 1)) ∧
      c.totalSize = (outputs.map sizeBytes).sum := by
  obtain ⟨⟨itemLists, hall, rfl⟩, hnd, hks⟩ := planOutputs_spec hplan
  have hits := filter_flatten hall hnames [] (by simp)
  rw [nil_append] at hits
  refine ⟨fun key hkey htied => count_eq_one_of_mem hnd (hks key hkey htied), forall_mem_of_forall₂ hits, ?_⟩
  obtain ⟨w, hw⟩ : ∃ w, w = (itemLists.flatten.foldl (Sharding.add maxShardBytes)
    ⟨[], .empty, .empty, 0, 0, .empty⟩).flushShard := ⟨_, rfl⟩
  have hpacked : Packed maxShardBytes itemLists.flatten w := hw ▸ (packed_foldl _ packed_nil hnd).flushShard hnd
  have hconvert : convert sources target tie maxShardBytes = .ok
      ⟨(renameLoop w.weightMap w.shardPaths.length w.shardPaths 1 (w.directory, .empty)).1,
        (renameLoop w.weightMap w.shardPaths.length w.shardPaths 1 (w.directory, .empty)).2, w.convertedBytes⟩ := by
    unfold convert
    rw [hplan, hw, ← foldl_sources (hits.imp fun _ _ h => h.1)]
    rfl
  have hemp : w.shard.entries = [] := by
    rw [hw, Sharding.flushShard]
    split
    · assumption
    · rfl
  obtain ⟨hshards, hindex⟩ := hpacked.renamed hemp hnd
  generalize renameLoop w.weightMap w.shardPaths.length w.shardPaths 1 (w.directory, .empty) = r at hconvert hshards hindex
  have hout := hpacked.outputs
  rw [hemp, append_nil] at hout
  refine ⟨_, hconvert, fun o ho => ?_, fun path shard hget => ?_, hpacked.convertedBytes⟩
  · have hmem : (o.name, o) ∈ w.directory.entries.flatMap fun e => e.2.entries := hout ▸ mem_map_of_mem ho
    obtain ⟨e, he, ho⟩ := mem_flatMap.1 hmem
    obtain ⟨⟨path, shard⟩, hpa, rfl⟩ := mem_map.1 (hshards ▸ mem_map_of_mem (f := snd) he)
    have hnm : o.name ∈ e.2.keys := mem_map.2 ⟨_, ho, rfl⟩
    have hpathOf : ∀ path' shard', (path', shard') ∈ r.1.entries → o.name ∈ keys shard' → r.2.get? o.name = some path' :=
      fun path' shard' he' hnm' => mem_entries_iff.1 (hindex ▸ mem_indexOf.2 ⟨shard', he', hnm'⟩)
    refine ⟨path, e.2, mem_entries_iff.1 hpa, mem_entries_iff.1 ho, hpathOf _ _ hpa hnm, fun path' shard' hget hnm' => ?_⟩
    have hsa := (hpathOf _ _ (mem_entries_iff.2 hget) hnm').symm.trans (hpathOf _ _ hpa hnm)
    exact Option.some.inj hsa
  · have hmem : shard ∈ r.1.entries.map snd := mem_map.2 ⟨_, mem_entries_iff.2 hget, rfl⟩
    obtain ⟨e, he, rfl⟩ := mem_map.1 (hshards ▸ hmem)
    refine ⟨fun x hx => ?_, hpacked.closed e he⟩
    obtain ⟨o, ho, rfl⟩ := mem_map.1 (hout ▸ mem_flatMap.2 ⟨e, he, hx⟩)
    exact ⟨ho, rfl⟩

def packedAttention : List SourceTensor :=
  [⟨"language_model.l.qkv_proj.weight".toList, [4, 2], .bfloat16⟩, ⟨"lm_head_weight".toList, [3, 2], .bfloat16⟩]

def attentionTarget : Target where
  entries := [("language_model.model.l.q_proj.weight".toList, [2, 2], .bfloat16),
    ("language_model.model.l.k_proj.weight".toList, [1, 2], .bfloat16),
    ("language_model.model.l.v_proj.weight".toList, [1, 2], .bfloat16), ("model.embed_tokens.weight".toList, [3, 2], .bfloat16),
    (lmHeadWeight, [3, 2], .bfloat16)]
  nodup := by decide +kernel

theorem convert_lossless_packedAttention : ∃ c, convert packedAttention attentionTarget true 13 = .ok c ∧ c.totalSize = 28 := by
  have hpl : ∃ outputs, planOutputs packedAttention attentionTarget true = .ok (outputs, []) ∧
    (outputs.map sizeBytes).sum = 28 :=
    ⟨_, rfl, by decide⟩
  obtain ⟨outputs, hpl, hsum⟩ := hpl
  obtain ⟨c, hc, -, -, htot⟩ := (convert_lossless (by decide +kernel) hpl 13).2.2
  exact ⟨c, hc, htot.trans hsum⟩

end

end ServerlessLLM.Checkpoint.Conversion
