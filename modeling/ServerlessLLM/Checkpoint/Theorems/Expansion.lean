import ServerlessLLM.Checkpoint.Placement

/-!
# The expansion of a device map

An entry gives its device to every name that starts with its key, and the last entry that does so is the one that counts.
-/

namespace ServerlessLLM

open List Except Prod

variable {δ : Type}

/-- A key is the name, or one of the modules on the dotted path of the name. -/
def IsModulePath (key name : String) : Prop := key = name ∨ key.toList ++ ['.'] <+: name.toList

structure IsModuleOf (deviceMap : Dict String δ) (name : String) (entry : String × δ) : Prop where
  mem : entry ∈ deviceMap.entries
  path : IsModulePath entry.1 name
  longest : ∀ other ∈ deviceMap.entries, IsModulePath other.1 name → other.1.toList.length ≤ entry.1.toList.length

/-- The expansion gives each name the device of its innermost module, whatever the order of the entries is. -/
structure FollowsModules (deviceMap : Dict String δ) (tensorNames : List String) : Prop where
  device : ∃ expanded, expandTensorName deviceMap tensorNames = .ok expanded ∧
    ∀ name device, expanded.get? name = some device ↔
      name ∈ tensorNames ∧ ∃ entry, IsModuleOf deviceMap name entry ∧ entry.2 = device
  order : ∀ deviceMap' : Dict String δ, deviceMap'.entries.Perm deviceMap.entries →
    ∃ expanded expanded', expandTensorName deviceMap tensorNames = .ok expanded ∧
      expandTensorName deviceMap' tensorNames = .ok expanded' ∧ ∀ name, expanded'.get? name = expanded.get? name

variable {name : String} {deviceMap : Dict String δ} {e : String × δ} {l : List (String × δ)}
  {tensorNames : List String}

theorem IsModulePath.starts {key : String} (h : IsModulePath key name) : key.toList <+: name.toList := by
  rcases h with rfl | h
  · exact prefix_refl _
  · exact (prefix_append _ _).trans h

theorem IsModulePath.eq_of_length {key key' name : String} (h : IsModulePath key name) (h' : IsModulePath key' name)
    (hlen : key.toList.length = key'.toList.length) : key = key' := by
  have hpre := prefix_of_prefix_length_le h.starts h'.starts hlen.le
  exact String.toList_inj.1 (hpre.eq_of_length hlen)

theorem IsModuleOf.unique {e' : String × δ} (h : IsModuleOf deviceMap name e) (h' : IsModuleOf deviceMap name e') : e = e' := by
  have hlen := le_antisymm (h'.longest e h.mem h.path) (h.longest e' h'.mem h'.path)
  exact inj_on_of_nodup_map deviceMap.nodup h.mem h'.mem (h.path.eq_of_length h'.path hlen)

theorem IsModuleOf.perm {deviceMap' : Dict String δ} (hpm : deviceMap'.entries.Perm deviceMap.entries)
    (h : IsModuleOf deviceMap name e) : IsModuleOf deviceMap' name e where
  mem := hpm.mem_iff.2 h.mem
  path := h.path
  longest := fun other hother => h.longest other (hpm.mem_iff.1 hother)

/-! ## What the loop computes -/

theorem get?_foldl_set_if (names : List String) (p : String → Prop) [DecidablePred p] (v : δ)
    (d : Dict String δ) (name : String) :
    (names.foldl (fun d k => if p k then d.set k v else d) d).get? name =
      if name ∈ names ∧ p name then some v else d.get? name := by
  induction names generalizing d with
  | nil => simp
  | cons k names ih =>
    rw [foldl_cons, ih]
    by_cases hnm : name ∈ names ∧ p name
    · simp [hnm]
    · rw [if_neg hnm]
      by_cases hp : p k
      · rw [if_pos hp, Dict.get?_set]
        by_cases hk : name = k
        · subst hk
          simp [hp]
        · simp [hk, hnm]
      · rw [if_neg hp, if_neg]
        rintro ⟨hmem, hpn⟩
        rcases mem_cons.1 hmem with rfl | hmem
        · exact hp hpn
        · exact hnm ⟨hmem, hpn⟩

def startsOf (l : List (String × δ)) (name : String) : List (String × δ) := l.filter fun e => e.1.toList <+: name.toList

theorem mem_startsOf : e ∈ startsOf l name ↔ e ∈ l ∧ e.1.toList <+: name.toList := by simp [startsOf]

theorem startsOf_cons (e : String × δ) (l : List (String × δ)) (name : String) :
    startsOf (e :: l) name = if e.1.toList <+: name.toList then e :: startsOf l name else startsOf l name := by
  simp [startsOf, filter_cons]

theorem get?_expandLoop (hl : "" ∉ l.map Prod.fst) (d : Dict String δ) (name : String) :
    (expandLoop tensorNames l d).get? name =
      if name ∈ tensorNames then ((startsOf l name).getLast?.map snd).or (d.get? name) else d.get? name := by
  induction l generalizing d with
  | nil => simp [expandLoop, startsOf]
  | cons e l ih =>
    obtain ⟨key, device⟩ := e
    simp only [map_cons, mem_cons, not_or] at hl
    rw [expandLoop, if_neg (Ne.symm hl.1), ih hl.2, expandEntry, get?_foldl_set_if tensorNames fun n => key.toList <+: n.toList]
    by_cases hnm : name ∈ tensorNames
    · rw [startsOf_cons]
      by_cases hkey : key.toList <+: name.toList
      · cases hla : (startsOf l name).getLast? with
        | none => simp [hnm, hkey, getLast?_cons, hla]
        | some last => simp [hnm, hkey, getLast?_cons, hla]
      · simp [hnm, hkey]
    · simp [hnm]

theorem expandTensorName_ok (h : "" ∉ deviceMap.keys) (tensorNames : List String) :
    expandTensorName deviceMap tensorNames = .ok (expandLoop tensorNames deviceMap.entries .empty) :=
      by simp [expandTensorName, h]

theorem get?_expanded (h : "" ∉ deviceMap.keys) (tensorNames : List String) (name : String) :
    (expandLoop tensorNames deviceMap.entries .empty).get? name =
      if name ∈ tensorNames then (startsOf deviceMap.entries name).getLast?.map snd else none := by
  rw [get?_expandLoop h]
  simp

/-! ## When it is the device of the innermost module -/

def StartsAreModules (deviceMap : Dict String δ) (tensorNames : List String) : Prop :=
  ∀ name ∈ tensorNames, ∀ e ∈ deviceMap.entries, e.1.toList <+: name.toList →
    ∃ entry, IsModuleOf deviceMap name entry ∧ entry.2 = e.2

theorem StartsAreModules.perm {deviceMap deviceMap' : Dict String δ} (hpm : deviceMap'.entries.Perm deviceMap.entries)
    {tensorNames : List String} (h : StartsAreModules deviceMap tensorNames) : StartsAreModules deviceMap' tensorNames := by
  intro name hnm e he hsts
  obtain ⟨entry, hentry, hdev⟩ := h name hnm e (hpm.mem_iff.1 he) hsts
  exact ⟨entry, hentry.perm hpm, hdev⟩

theorem StartsAreModules.get?_iff (h : "" ∉ deviceMap.keys)
    (hs : StartsAreModules deviceMap tensorNames) (name : String) (device : δ) :
    (expandLoop tensorNames deviceMap.entries .empty).get? name = some device ↔
      name ∈ tensorNames ∧ ∃ entry, IsModuleOf deviceMap name entry ∧ entry.2 = device := by
  rw [get?_expanded h]
  by_cases hnm : name ∈ tensorNames
  · simp only [hnm, if_true, true_and, Option.map_eq_some_iff]
    constructor
    · rintro ⟨last, hla, rfl⟩
      obtain ⟨hmem, hsts⟩ := mem_startsOf.1 (mem_of_getLast? hla)
      exact hs name hnm last hmem hsts
    · rintro ⟨entry, hentry, rfl⟩
      -- the innermost module is a start, so there is a last one
      have hmem : entry ∈ startsOf deviceMap.entries name := mem_startsOf.2 ⟨hentry.mem, hentry.path.starts⟩
      have hne := ne_nil_of_mem hmem
      refine ⟨_, getLast?_eq_some_getLast hne, ?_⟩
      obtain ⟨hlmem, hsts⟩ := mem_startsOf.1 (getLast_mem hne)
      obtain ⟨entry', hentry', hdev⟩ := hs name hnm _ hlmem hsts
      rw [← hdev, hentry'.unique hentry]
  · simp [hnm]

theorem exists_perm_last (he : e ∈ deviceMap.entries) :
    ∃ deviceMap' : Dict String δ, deviceMap'.entries.Perm deviceMap.entries ∧ ∃ l, deviceMap'.entries = l ++ [e] := by
  obtain ⟨a, b, hab⟩ := append_of_mem he
  have hpm : (a ++ b ++ [e]).Perm deviceMap.entries := by
    rw [hab, append_assoc]
    exact List.Perm.append_left a (perm_append_singleton e b)
  exact ⟨⟨a ++ b ++ [e], (hpm.map _).nodup_iff.2 deviceMap.nodup⟩, hpm, a ++ b, rfl⟩

/-- For every device map without the key `''` and all names: the names get the devices of their innermost modules, in every
order of the entries, exactly when every key that is a plain start of a name leads to the device of its innermost module. -/
theorem expansion_follows_iff (deviceMap : Dict String δ) (tensorNames : List String) (h : "" ∉ deviceMap.keys) :
    FollowsModules deviceMap tensorNames ↔ StartsAreModules deviceMap tensorNames := by
  have hks : ∀ deviceMap' : Dict String δ, deviceMap'.entries.Perm deviceMap.entries → "" ∉ deviceMap'.keys :=
    fun deviceMap' hpm hmem => h ((hpm.map fst).mem_iff.1 hmem)
  constructor
  · intro hf name hnm e he hsts
    obtain ⟨expanded, hok, hdev⟩ := hf.device
    obtain ⟨deviceMap', hpm, l, hla⟩ := exists_perm_last he
    obtain ⟨expanded₁, expanded', hok₁, hok', heq⟩ := hf.order deviceMap' hpm
    obtain rfl : expanded = expanded₁ := ok.inj (hok.symm.trans hok₁)
    rw [expandTensorName_ok (hks deviceMap' hpm)] at hok'
    -- with the entry at the end, its device is the one of the name
    have hget : expanded'.get? name = some e.2 := by
      rw [← ok.inj hok', get?_expanded (hks deviceMap' hpm), if_pos hnm, startsOf, hla, filter_append]
      simp [hsts]
    exact ((hdev name e.2).1 (heq name ▸ hget)).2
  · intro hs
    refine ⟨⟨_, expandTensorName_ok h tensorNames, hs.get?_iff h⟩, ?_⟩
    intro deviceMap' hpm
    refine ⟨_, _, expandTensorName_ok h tensorNames, expandTensorName_ok (hks deviceMap' hpm) tensorNames, ?_⟩
    intro name
    refine Option.ext fun device => ?_
    rw [(hs.perm hpm).get?_iff (hks deviceMap' hpm), hs.get?_iff h]
    exact and_congr_right fun _ => exists_congr fun entry =>
      and_congr_left fun _ => ⟨IsModuleOf.perm hpm.symm, IsModuleOf.perm hpm⟩

def blockMap : Dict String Nat := ⟨[("embed", 0), ("layer.1", 1)], by decide⟩

theorem expansion_follows_blockMap :
    "" ∉ blockMap.keys ∧ FollowsModules blockMap ["embed.weight", "layer.1.bias"] := by
  have hks : "" ∉ blockMap.keys := by decide
  refine ⟨hks, (expansion_follows_iff blockMap _ hks).2 ?_⟩
  intro name hnm e he hsts
  have hlongest : ∀ n ∈ ["embed.weight", "layer.1.bias"], ∀ e ∈ blockMap.entries, e.1.toList <+: n.toList →
      e.1.toList ++ ['.'] <+: n.toList ∧
        ∀ e' ∈ blockMap.entries, e'.1.toList <+: n.toList → e'.1.toList.length ≤ e.1.toList.length := by decide
  obtain ⟨hpa, hlong⟩ := hlongest name hnm e he hsts
  exact ⟨e, ⟨he, .inr hpa, fun e' he' h' => hlong e' he' h'.starts⟩, rfl⟩

/-- The tensors of the tenth block get the device of the first block, which is not on their path. -/
theorem expansion_reaches_tenth_block :
    "" ∉ blockMap.keys ∧ ¬FollowsModules blockMap ["layer.10.bias"] ∧
      ∃ expanded, expandTensorName blockMap ["layer.10.bias"] = .ok expanded ∧ expanded.get? "layer.10.bias" = some 1 ∧
        ∀ e ∈ blockMap.entries, ¬IsModulePath e.1 "layer.10.bias" := by
  have hks : "" ∉ blockMap.keys := by decide
  have hpa : ∀ e ∈ blockMap.entries, ¬IsModulePath e.1 "layer.10.bias" := by
    unfold IsModulePath
    decide
  have hget : (expandLoop ["layer.10.bias"] blockMap.entries .empty).get? "layer.10.bias" = some 1 := by decide
  refine ⟨hks, ?_, _, expandTensorName_ok hks _, hget, hpa⟩
  intro hf
  obtain ⟨expanded, hok, hdev⟩ := hf.device
  rw [expandTensorName_ok hks] at hok
  rw [← ok.inj hok] at hdev
  obtain ⟨-, entry, hentry, -⟩ := (hdev _ _).1 hget
  exact hpa entry hentry.mem hentry.path

end ServerlessLLM
