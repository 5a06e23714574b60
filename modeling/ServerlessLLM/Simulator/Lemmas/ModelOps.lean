import Mathlib.Algebra.Order.BigOperators.Group.List
import Mathlib.Algebra.Order.Group.Nat
import ServerlessLLM.Simulator.Models

/-!
# The groups of a model

What the builder makes of its input is well grouped, and compact when the input is.
-/

namespace ServerlessLLM.Simulator

open List Dict TensorGroup

/-! ## The bytes of the groups of a model -/

def TensorModel.groupBytes (t : TensorModel) (g : Nat) : Nat := (t.groups[g]?.map TensorGroup.logicalBytes).getD 0

variable {t : TensorModel} {tensor : TensorSpec} (groupId : Nat)

theorem TensorModel.sum_groupBytes_le (ht : t.WellGrouped) {gs : List Nat} (hnd : gs.Nodup)
    (hlt : ∀ g ∈ gs, g < t.groups.length) : (gs.map t.groupBytes).sum ≤ t.logicalBytes := by
  have hall : ((range t.groups.length).map t.groupBytes) = t.groups.map TensorGroup.logicalBytes := by
    refine ext_getElem (by simp) ?_
    intro i h1 h2
    have hi : i < t.groups.length := by simpa using h2
    simp [groupBytes, getElem?_eq_getElem hi]
  have hsubset : gs ⊆ range t.groups.length := fun g hg => mem_range.2 (hlt g hg)
  obtain ⟨l, hpm, hsub⟩ := subperm_of_subset hnd hsubset
  calc (gs.map t.groupBytes).sum = (l.map t.groupBytes).sum := ((hpm.map _).sum_eq).symm
    _ ≤ ((range t.groups.length).map t.groupBytes).sum := List.Sublist.sum_le_sum (hsub.map _) (by simp)
    _ = Tiling.total TensorGroup.logicalBytes t.groups := by rw [hall]; rfl
    _ ≤ t.logicalBytes := ht.bytes

theorem TensorModel.group?_lookup (ht : t.WellGrouped) {group : TensorGroup}
    (h : t.group? tensor = some group) : t.tensorToGroup.get? tensor.tensorId = some group.groupId := by
  obtain ⟨g, hlu, hg⟩ := Option.bind_eq_some_iff.1 h
  obtain ⟨hlt, heq⟩ := List.getElem?_eq_some_iff.1 hg
  have hid : group.groupId = g := by
    have hids := congrArg (fun l => l[g]?) ht.groupIds
    simpa [hg, hlt, heq] using hids
  rw [hid]
  exact hlu

theorem TensorModel.group?_spec (ht : t.WellGrouped) {group : TensorGroup} (h : t.group? tensor = some group) :
    group ∈ t.groups ∧ group.groupId < t.groups.length ∧ t.groupBytes group.groupId = group.logicalBytes := by
  have hg : t.groups[group.groupId]? = some group := by
    have hbind := h
    rw [group?, group?_lookup ht h] at hbind
    exact hbind
  obtain ⟨hlt, heq⟩ := List.getElem?_eq_some_iff.1 hg
  refine ⟨heq ▸ getElem_mem hlt, hlt, ?_⟩
  rw [groupBytes, hg]
  rfl

theorem TensorModel.exists_group? (ht : t.WellGrouped) (h : tensor ∈ t.tensors) : ∃ group, t.group? tensor = some group := by
  have hmem : tensor.tensorId ∈ t.groups.flatMap tensorIds := by
    rw [← ht.tensors]
    exact mem_map_of_mem h
  obtain ⟨group, hgrp, hid⟩ := mem_flatMap.1 hmem
  have hlt : group.groupId < t.groups.length := by
    have hids : group.groupId ∈ t.groups.map groupId := mem_map_of_mem hgrp
    rw [ht.groupIds] at hids
    exact mem_range.1 hids
  refine ⟨t.groups.get ⟨group.groupId, hlt⟩, ?_⟩
  rw [group?, ht.lookup group hgrp _ hid, Option.bind_some, get_eq_getElem, getElem?_eq_getElem hlt]

theorem TensorModel.exists_tensor (ht : t.WellGrouped) {g : Nat} (hg : g < t.groups.length) :
    ∃ tensor ∈ t.tensors, ∃ group, t.group? tensor = some group ∧ group.groupId = g := by
  have hmem := getElem_mem hg
  have hid : t.groups[g].groupId = g := by
    have hids := congrArg (fun l => l[g]?) ht.groupIds
    simpa [hg] using hids
  obtain ⟨id, hid'⟩ := exists_mem_of_ne_nil _ (ht.nonempty _ hmem)
  have hten : id ∈ t.tensors.map TensorSpec.tensorId := by
    rw [ht.tensors]
    exact mem_flatMap.2 ⟨_, hmem, hid'⟩
  obtain ⟨tensor, hin, rfl⟩ := mem_map.1 hten
  refine ⟨tensor, hin, t.groups[g], ?_, hid⟩
  rw [group?, ht.lookup _ hmem _ hid', Option.bind_some, hid, getElem?_eq_getElem hg]

theorem TensorModel.pairwise_groups (ht : t.WellGrouped) :
    t.tensors.Pairwise fun a b => ∀ ga gb, t.group? a = some ga → t.group? b = some gb → ga.groupId ≤ gb.groupId := by
  have hgps : t.groups.Pairwise fun a b => a.groupId < b.groupId := by
    rw [← pairwise_map, ht.groupIds]
    exact pairwise_lt_range
  have hids : (t.tensors.map TensorSpec.tensorId).Pairwise fun x y =>
      ∀ p q, t.tensorToGroup.get? x = some p → t.tensorToGroup.get? y = some q → p ≤ q := by
    rw [ht.tensors, pairwise_flatMap]
    constructor
    · intro g hg
      refine pairwise_of_forall_mem_list ?_
      intro x hx y hy p q hp hq
      rw [ht.lookup g hg x hx] at hp
      rw [ht.lookup g hg y hy] at hq
      exact (Option.some.inj (hp.symm.trans hq)).le
    · refine (List.Pairwise.and_mem.1 hgps).imp ?_
      rintro a b ⟨ha, hb, hlt⟩ x hx y hy p q hp hq
      rw [ht.lookup a ha x hx] at hp
      rw [ht.lookup b hb y hy] at hq
      rw [← Option.some.inj hp, ← Option.some.inj hq]
      exact hlt.le
  rw [pairwise_map] at hids
  refine hids.imp ?_
  intro a b hab ga gb hga hgb
  exact hab _ _ (group?_lookup ht hga) (group?_lookup ht hgb)

/-! ## The builders -/

theorem get?_tensorToGroup {groups : List TensorGroup} (hnd : (groups.flatMap TensorGroup.tensorIds).Nodup) {g : TensorGroup}
    (hg : g ∈ groups) {t : Nat} (ht : t ∈ g.tensorIds) : (tensorToGroup groups).get? t = some g.groupId := by
  refine get?_foldl_set ?_ ?_ _
  · rw [map_flatMap]
    simpa [Function.comp_def] using hnd
  · exact mem_flatMap.2 ⟨g, hg, mem_map_of_mem ht⟩

theorem prefixGroups_spec (prefixBytes : List Nat) :
    (prefixGroups groupId prefixBytes).map TensorGroup.groupId = range' groupId (prefixGroups groupId prefixBytes).length ∧
      ∀ g ∈ prefixGroups groupId prefixBytes, g.tensorIds = [g.groupId] := by
  induction prefixBytes generalizing groupId with
  | nil => exact ⟨rfl, by simp [prefixGroups]⟩
  | cons left l ih =>
    cases l with
    | nil => exact ⟨rfl, by simp [prefixGroups]⟩
    | cons right l =>
      obtain ⟨hids, htns⟩ := ih (groupId + 1)
      refine ⟨?_, ?_⟩
      · rw [prefixGroups, map_cons, hids, length_cons, range'_succ]
      · intro g hg
        rw [prefixGroups] at hg
        rcases mem_cons.1 hg with rfl | hg
        · rfl
        · exact htns g hg

theorem adjoins_prefixGroups (left : Nat) (l : List Nat) (hmono : (left :: l).IsChain (· ≤ ·)) :
    Tiling.Adjoins compactOffset logicalBytes left (prefixGroups groupId (left :: l))
      ((left :: l).getLast?.getD 0) := by
  induction l generalizing groupId left with
  | nil => exact rfl
  | cons right l ih =>
    obtain ⟨hle, hrs⟩ := isChain_cons_cons.1 hmono
    refine ⟨rfl, ?_⟩
    have := ih (groupId + 1) right hrs
    rw [show left + (right - left) = right by omega]
    rwa [getLast?_cons_cons]

theorem wellGrouped_modelFromPrefixBytes {prefixBytes : List Nat} (hmono : prefixBytes.IsChain (· ≤ ·)) :
    (modelFromPrefixBytes prefixBytes).WellGrouped := by
  obtain ⟨hids, htns⟩ := prefixGroups_spec 0 prefixBytes
  have hflat : ∀ l : List TensorGroup, (∀ g ∈ l, g.tensorIds = [g.groupId]) →
      l.flatMap tensorIds = l.map groupId := by
    intro l hl
    induction l with
    | nil => rfl
    | cons g l ih =>
      rw [flatMap_cons, hl g mem_cons_self, ih fun x hx => hl x (mem_cons_of_mem _ hx)]
      rfl
  have hnd : ((prefixGroups 0 prefixBytes).map groupId).Nodup := by
    rw [hids]
    exact nodup_range'
  have htens : (modelFromPrefixBytes prefixBytes).tensors.map TensorSpec.tensorId =
      (prefixGroups 0 prefixBytes).map groupId := by
    rw [modelFromPrefixBytes, map_map]
    rfl
  refine ⟨?_, ?_, ?_, ?_, ?_, ?_⟩
  · rw [modelFromPrefixBytes, hids, range_eq_range']
  · rw [htens, modelFromPrefixBytes, hflat _ htns]
  · intro g hg
    rw [htns g hg]
    simp
  · rw [htens]
    exact hnd
  · intro g hg t ht
    refine get?_tensorToGroup ?_ hg ht
    rw [modelFromPrefixBytes, hflat _ htns]
    exact hnd
  · cases prefixBytes with
    | nil => exact Nat.zero_le _
    | cons left l =>
      have hadj := adjoins_prefixGroups 0 left l hmono
      have hend : left + Tiling.total TensorGroup.logicalBytes (prefixGroups 0 (left :: l)) = (left :: l).getLast?.getD 0 :=
        hadj.end_eq.symm
      rw [modelFromPrefixBytes]
      dsimp only
      omega

/-- `models_from_prefix_stall_table`, for the bytes of the prefixes of an accepted table. -/
def modelsFromPrefixBytes (prefixBytes : Dict Nat (List Nat))
    (hmono : ∀ e ∈ prefixBytes.entries, e.2.IsChain (· ≤ ·)) : Models where
  byId := prefixBytes.mapValues fun _ l => modelFromPrefixBytes l
  wellGrouped := by
    intro id m hm
    rw [get?_mapValues] at hm
    obtain ⟨l, hl, rfl⟩ := Option.map_eq_some_iff.1 hm
    exact wellGrouped_modelFromPrefixBytes (hmono (id, l) (mem_entries_iff.2 hl))

end ServerlessLLM.Simulator
