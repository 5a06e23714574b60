import Mathlib.Tactic.Linarith
import ServerlessLLM.Simulator.Lemmas.PlanOps

/-!
# Requests of the unified pool

A request releases the KV blocks of the last one, plans, and uses all tensors of its model in their order.
-/

namespace ServerlessLLM.Simulator

open List Option Dict Outcome Key MemoryBackend TensorModel

namespace MemoryBackend

variable {σ : Type} {b : MemoryBackend σ} {P : σ → Action → σ → Prop} {Q R : σ → Prop}

/-- All actions succeed, with `P` at each step and `Q` at the end. -/
def Goes (b : MemoryBackend σ) (P : σ → Action → σ → Prop) (Q : σ → Prop) : σ → List Action → Prop
  | s, [] => Q s
  | s, a :: as => ∃ cost s', b.step s a = .ok (cost, s') ∧ P s a s' ∧ Goes b P Q s' as

theorem Goes.append {s : σ} {as bs : List Action} (h : b.Goes P R s as) (h' : ∀ s', R s' → b.Goes P Q s' bs) :
    b.Goes P Q s (as ++ bs) := by
  induction as generalizing s with
  | nil => exact h' s h
  | cons a as ih =>
    obtain ⟨cost, s', hst, hP, hrs⟩ := h
    exact ⟨cost, s', hst, hP, ih hrs⟩

theorem Goes.flatMap {β : Type} {f : β → List Action} {l : List β} (h : ∀ x ∈ l, ∀ s, Q s → b.Goes P Q s (f x)) {s : σ}
    (hs : Q s) : b.Goes P Q s (l.flatMap f) := by
  induction l generalizing s with
  | nil => exact hs
  | cons x l ih =>
    rw [flatMap_cons]
    refine (h x mem_cons_self s hs).append ?_
    intro s' hs'
    exact ih (fun y hy => h y (mem_cons_of_mem _ hy)) hs'

theorem Goes.map {β : Type} {f : β → Action} {l : List β}
    (h : ∀ x ∈ l, ∀ s, Q s → ∃ cost s', b.step s (f x) = .ok (cost, s') ∧ P s (f x) s' ∧ Q s') {s : σ} (hs : Q s) :
    b.Goes P Q s (l.map f) := by
  induction l generalizing s with
  | nil => exact hs
  | cons x l ih =>
    obtain ⟨cost, s', hst, hP, hQ⟩ := h x mem_cons_self s hs
    exact ⟨cost, s', hst, hP, ih (fun y hy => h y (mem_cons_of_mem _ hy)) hQ⟩

theorem Goes.at {s : σ} {done rest : List Action} {a : Action} (h : b.Goes P Q s (done ++ a :: rest)) :
    ∃ total s' cost s'', b.run s done = .ok (total, s') ∧ b.step s' a = .ok (cost, s'') ∧ P s' a s'' := by
  induction done generalizing s with
  | nil =>
    obtain ⟨cost, s', hst, hP, -⟩ := h
    exact ⟨{}, s, cost, s', rfl, hst, hP⟩
  | cons x done ih =>
    obtain ⟨cost, s₁, hst, -, hrs⟩ := h
    obtain ⟨total, s', cost', s'', hrun, hst', hP⟩ := ih hrs
    refine ⟨cost.add total, s', cost', s'', ?_, hst', hP⟩
    rw [run, hst]
    change (b.run s₁ done >>= _) = _
    rw [hrun]
    rfl

/-! ## Runs that may fail -/

variable {E : Fault → Prop}

theorem outcome_run_cons {s : σ} {a : Action} {as : List Action} (h : Outcome E (fun r => R r.2) (b.step s a))
    (h' : ∀ s', R s' → Outcome E (fun r => Q r.2) (b.run s' as)) : Outcome E (fun r => Q r.2) (b.run s (a :: as)) := by
  rw [run]
  refine bind h ?_
  rintro ⟨cost, s'⟩ hR
  exact bind (h' s' hR) fun r hQ => hQ

theorem outcome_run_append {s : σ} {as bs : List Action} (h : Outcome E (fun r => R r.2) (b.run s as))
    (h' : ∀ s', R s' → Outcome E (fun r => Q r.2) (b.run s' bs)) : Outcome E (fun r => Q r.2) (b.run s (as ++ bs)) := by
  induction as generalizing s with
  | nil => exact h' s h
  | cons a as ih =>
    rw [cons_append, run]
    rw [run] at h
    cases hst : b.step s a with
    | error e =>
      rw [hst] at h
      exact h
    | ok r =>
      obtain ⟨cost, s'⟩ := r
      rw [hst] at h
      change Outcome E _ (b.run s' as >>= _) at h
      change Outcome E _ (b.run s' (as ++ bs) >>= _)
      refine bind (P := fun r => Q r.2) (ih ?_) ?_
      · cases hrun : b.run s' as with
        | error e =>
          rw [hrun] at h
          exact h
        | ok r =>
          rw [hrun] at h
          exact h
      · rintro ⟨total, s''⟩ hQ
        exact hQ

end MemoryBackend

namespace Accesses

variable {models : Models} {a : Accesses}

def Counted (models : Models) (a : Accesses) : Prop :=
  ∀ id t, models.byId.get? id = some t → ∃ n, a.modelAccesses.get? id = some n

theorem Counted.finishRequest (h : a.Counted models) {id : Nat} {t : TensorModel} (ht : models.byId.get? id = some t) :
    ∃ a', a.finishRequest id = .ok a' ∧ a'.Counted models := by
  obtain ⟨n, hn⟩ := h id t ht
  refine ⟨{ a with modelAccesses := a.modelAccesses.set id (n + 1) }, ?_, ?_⟩
  · rw [Accesses.finishRequest, hn]
  · intro id' t' ht'
    dsimp only
    rw [get?_set]
    split
    · exact ⟨n + 1, rfl⟩
    · exact h id' t' ht'

end Accesses

namespace Accesses

variable {a : Accesses} {key : Key}

def Timed (a : Accesses) : Prop := ∀ key n, a.lastAccess.get? key = some n → n ≤ a.clock

theorem lastAccessOf_touch (a : Accesses) (key k : Key) :
    (a.touch key).lastAccessOf k = if k = key then (a.clock : ℚ) + 1 else a.lastAccessOf k := by
  unfold lastAccessOf touch
  rw [get?_set]
  by_cases hk : k = key
  · rw [if_pos hk, if_pos hk]
    exact Nat.cast_succ a.clock
  · rw [if_neg hk, if_neg hk]

theorem Timed.lastAccessOf_le (h : a.Timed) (key : Key) : a.lastAccessOf key ≤ a.clock := by
  unfold lastAccessOf
  cases hget : a.lastAccess.get? key with
  | none =>
    have : (0 : ℚ) ≤ a.clock := Nat.cast_nonneg _
    dsimp only
    linarith
  | some n => exact Nat.cast_le.2 (h key n hget)

theorem Timed.touch (h : a.Timed) (key : Key) : (a.touch key).Timed := by
  intro k n hget
  rw [Accesses.touch, get?_set] at hget
  split at hget
  · exact (some.inj hget).symm.le
  · exact Nat.le_succ_of_le (h k n hget)

/-- The accesses after keys were used one after the other. -/
def touchAll (a : Accesses) (keys : List Key) : Accesses := keys.foldl touch a

theorem Timed.touchAll (h : a.Timed) (keys : List Key) : (a.touchAll keys).Timed := by
  induction keys generalizing a with
  | nil => exact h
  | cons k keys ih => exact ih (h.touch k)

theorem lastAccessOf_touchAll_of_not_mem {keys : List Key} (h : key ∉ keys) :
    (a.touchAll keys).lastAccessOf key = a.lastAccessOf key := by
  induction keys generalizing a with
  | nil => rfl
  | cons k keys ih =>
    rw [mem_cons, not_or] at h
    rw [touchAll, foldl_cons]
    refine (ih h.2).trans ?_
    rw [lastAccessOf_touch, if_neg h.1]

theorem lastAccessOf_touchAll_lt (h : a.Timed) {keys : List Key} {index : Key → Nat}
    (hsrt : keys.Pairwise fun x y => index x ≤ index y) {k k' : Key} (hk : k ∈ keys) (hk' : k' ∈ keys)
    (hlt : index k < index k') : (a.touchAll keys).lastAccessOf k < (a.touchAll keys).lastAccessOf k' := by
  induction keys using List.reverseRecOn with
  | nil => cases hk
  | append_singleton keys last ih =>
    rw [pairwise_append] at hsrt
    have hle : ∀ x ∈ keys, index x ≤ index last := fun x hx => hsrt.2.2 x hx last (by simp)
    have hla : ∀ x, (a.touchAll (keys ++ [last])).lastAccessOf x =
        if x = last then ((a.touchAll keys).clock : ℚ) + 1 else (a.touchAll keys).lastAccessOf x := by
      intro x
      rw [touchAll, foldl_append]
      exact lastAccessOf_touch _ last x
    have hmem : ∀ x ∈ keys ++ [last], x ≠ last → x ∈ keys := by
      intro x hx hne
      simpa [hne] using hx
    -- The key of the smaller number is not the last one.
    have hne : k ≠ last := by
      rintro rfl
      by_cases heq : k' = k
      · exact absurd hlt (heq ▸ Nat.lt_irrefl _)
      · exact absurd hlt (Nat.not_lt.2 (hle k' (hmem k' hk' heq)))
    rw [hla, hla, if_neg hne]
    by_cases heq : k' = last
    · rw [if_pos heq]
      have := (h.touchAll keys).lastAccessOf_le k
      linarith
    · rw [if_neg heq]
      exact ih hsrt.1 (hmem k hk hne) (hmem k' hk' heq)

end Accesses

namespace MockSegmentMemory

open Extent SegmentMemory

variable {models : Models} {args : Args} {calm : Nat → Prop} {table : Option PrefixStallTable} {active : Nat}
  {m m' : MockSegmentMemory} {t : TensorModel}

/-! ## The actions of a request -/

theorem without_foldl_free {pool : SegmentMemory} (h : pool.Laid) (keys : List Key) :
    Without (fun k => decide (k ∈ keys)) pool (keys.foldl (fun pool key => (pool.free key true).2) pool) := by
  induction keys generalizing pool with
  | nil => exact .refl h fun _ _ => by simp
  | cons key keys ih =>
    have hfe := (h.free key true).1
    have htrans := hfe.trans (ih hfe.laid)
    have hgone : (fun k => decide (k = key) || decide (k ∈ keys)) = fun k => decide (k ∈ key :: keys) := by
      funext k
      rw [← Bool.decide_or]
      exact decide_eq_decide.2 mem_cons.symm
    rw [hgone] at htrans
    exact htrans

theorem Kept.beginRequest (h : m.Kept models args calm) (kvBytes : Nat) :
    (m.beginRequest kvBytes).2.Kept models args calm ∧ SameFrame m.pool (m.beginRequest kvBytes).2.pool ∧
      held (m.beginRequest kvBytes).2.pool.extents = (held m.pool.extents).filter (fun x => x.1.isWeight) := by
  have hw := without_foldl_free h.laid m.kvKeys
  have hweight : ∀ model g, ((m.beginRequest kvBytes).2.pool.Resident (.weight model g) ↔
    m.pool.Resident (.weight model g)) := by
    intro model g
    have hnot : weight model g ∉ m.kvKeys := fun hmem => Bool.noConfusion (h.kvKeys _ hmem)
    have hiff : (m.beginRequest kvBytes).2.pool.Resident (.weight model g) ↔
        m.pool.Resident (.weight model g) ∧ decide (weight model g ∈ m.kvKeys) = false := hw.resident_iff
    rw [decide_eq_false hnot] at hiff
    exact hiff.trans (and_iff_left rfl)
  have hhe : held (m.beginRequest kvBytes).2.pool.extents = (held m.pool.extents).filter fun x => x.1.isWeight := by
    refine hw.held_eq.trans (filter_congr ?_)
    rintro ⟨key, n⟩ hx
    cases key with
    | weight model g =>
      have hnot : weight model g ∉ m.kvKeys := fun hmem => Bool.noConfusion (h.kvKeys _ hmem)
      simp [hnot, isWeight]
    | kv id =>
      have hmem := (h.kvNamed id (resident_iff_held.2 ⟨n, hx⟩)).2
      simp [hmem, isWeight]
  refine ⟨⟨⟨hw.laid.layout, hw.laid.indexed, rfl⟩, ?_, ?_, ?_, ?_, ?_⟩, ⟨hw.frame.capacity_eq, hw.frame.accesses_eq⟩, hhe⟩
  · intro model g n hmem
    rw [hhe] at hmem
    exact h.known model g n (mem_filter.1 hmem).1
  · intro k k' hneeds hr
    cases k with
    | kv _ => exact hneeds.elim
    | weight model g =>
      cases k' with
      | kv _ => exact hneeds.elim
      | weight model' g' => exact (hweight _ _).2 (h.shaped _ _ hneeds ((hweight _ _).1 hr))
  · intro hp model g g' hc hlt hr hr'
    have hacc : (m.beginRequest kvBytes).2.pool.accesses = m.pool.accesses := hw.frame.accesses_eq
    rw [hacc]
    exact h.inOrder hp model g g' hc hlt ((hweight _ _).1 hr) ((hweight _ _).1 hr')
  · intro id hid
    obtain ⟨n, hn⟩ := resident_iff_held.1 hid
    rw [hhe] at hn
    cases (mem_filter.1 hn).2
  · intro key hkey
    cases hkey

def groupKey (t : TensorModel) (model : Nat) (tensor : TensorSpec) : Key :=
  .weight model (((t.group? tensor).map TensorGroup.groupId).getD 0)

/-- The pool after keys were used, with the loads that are still planned. -/
def touched (m : MockSegmentMemory) (planned : Dict Key LoadCost) (keys : List Key) : MockSegmentMemory :=
  { m with plannedLoads := planned, pool := { m.pool with accesses := m.pool.accesses.touchAll keys } }

theorem prepareTensor_eq (args : Args) (hidx : m.pool.Indexed) (ht : models.byId.get? active = some t)
    (hwhole : Whole models active m.pool)
    {tensor : TensorSpec} (hten : tensor ∈ t.tensors) :
    ∃ cost planned, m.prepareTensor models args active tensor = .ok (cost, m.touched planned [groupKey t active tensor]) := by
  have hwell := models.wellGrouped active t ht
  obtain ⟨group, hgrp⟩ := exists_group? hwell hten
  obtain ⟨-, hlt, -⟩ := group?_spec hwell hgrp
  have hbind : ((models.byId.get? active).bind fun t => t.group? tensor) = some group := by
    rw [ht, bind_some, hgrp]
  have hkey : groupKey t active tensor = .weight active group.groupId := by
    rw [groupKey, hgrp]
    rfl
  rw [hkey]
  unfold MockSegmentMemory.prepareTensor
  rw [hbind]
  dsimp only
  cases hpl : m.plannedLoads.get? (.weight active group.groupId) with
  | some planned => exact ⟨planned, _, rfl⟩
  | none =>
    obtain ⟨e, he⟩ := isSome_iff_exists.1 ((get?_isSome_iff hidx).2 (hwhole t ht group.groupId hlt))
    refine ⟨{}, m.plannedLoads, ?_⟩
    have hpo : m.pool.prepareTensor models args (evictable active) active tensor =
        .ok ({}, { m.pool with accesses := m.pool.accesses.touch (.weight active group.groupId) }) := by
      unfold SegmentMemory.prepareTensor
      rw [hbind]
      dsimp only
      rw [allocatedExtent_eq hidx, he]
    dsimp only
    rw [hpo]
    rfl

theorem run_prepareTensors (hidx : m.pool.Indexed) (ht : models.byId.get? active = some t)
    (hwhole : Whole models active m.pool) {tensors : List TensorSpec} (htns : tensors ⊆ t.tensors) :
    ∃ total planned, (mockSegmentMemory models args table).run m (tensors.map (.prepareTensor active)) =
      .ok (total, m.touched planned (tensors.map (groupKey t active))) := by
  induction tensors generalizing m with
  | nil => exact ⟨{}, m.plannedLoads, rfl⟩
  | cons tensor tensors ih =>
    obtain ⟨hin, hrs⟩ := cons_subset.1 htns
    obtain ⟨cost, planned, hst⟩ := prepareTensor_eq args hidx ht hwhole hin
    obtain ⟨total, planned', hrun⟩ := ih (m := m.touched planned [groupKey t active tensor]) hidx hwhole hrs
    refine ⟨cost.add total, planned', ?_⟩
    rw [map_cons, run]
    change (m.prepareTensor models args active tensor >>= _) = _
    rw [hst]
    change ((mockSegmentMemory models args table).run _ _ >>= _) = _
    rw [hrun]
    rfl

/-! ## A request -/

/-- Between requests: the pool is kept, with the groups of all models in order. -/
structure Steady (models : Models) (args : Args) (m : MockSegmentMemory) : Prop where
  kept : m.Kept models args fun _ => True
  timed : m.pool.accesses.Timed

theorem steady_touched (h : m.Kept models args (· ≠ active)) (htimed : m.pool.accesses.Timed)
    (ht : models.byId.get? active = some t) (planned : Dict Key LoadCost) :
    (m.touched planned (t.tensors.map (groupKey t active))).Steady models args := by
  have hwell := models.wellGrouped active t ht
  have hsrt : (t.tensors.map (groupKey t active)).Pairwise fun x y => x.index ≤ y.index := by
    rw [pairwise_map]
    refine (List.Pairwise.and_mem.1 (pairwise_groups hwell)).imp ?_
    rintro a b ⟨ha, hb, hab⟩
    obtain ⟨ga, hga⟩ := exists_group? hwell ha
    obtain ⟨gb, hgb⟩ := exists_group? hwell hb
    rw [groupKey, groupKey, hga, hgb]
    exact hab ga gb hga hgb
  have hmem : ∀ g < t.groups.length, weight active g ∈ t.tensors.map (groupKey t active) := by
    intro g hg
    obtain ⟨tensor, hin, group, hgrp, rfl⟩ := exists_tensor hwell hg
    refine mem_map.2 ⟨tensor, hin, ?_⟩
    rw [groupKey, hgrp]
    rfl
  refine ⟨⟨⟨h.laid.layout, h.laid.indexed, h.laid.limit⟩, h.known, h.shaped, ?_, h.kvNamed, h.kvKeys⟩, htimed.touchAll _⟩
  intro hp model g g' _ hlt hr hr'
  by_cases hne : model = active
  · subst hne
    have hbd : ∀ g, m.pool.Resident (.weight model g) → g < t.groups.length := by
      intro g hr
      obtain ⟨t', ht', hg⟩ := h.known_of_resident hr
      rw [ht] at ht'
      rwa [some.inj ht']
    exact Accesses.lastAccessOf_touchAll_lt htimed hsrt (hmem g (hbd g hr)) (hmem g' (hbd g' hr')) hlt
  · have hnot : ∀ g, weight model g ∉ t.tensors.map (groupKey t active) := by
      intro g hmem
      obtain ⟨tensor, -, heq⟩ := mem_map.1 hmem
      exact hne (weight.inj heq).1.symm
    show (m.pool.accesses.touchAll _).lastAccessOf _ < (m.pool.accesses.touchAll _).lastAccessOf _
    rw [Accesses.lastAccessOf_touchAll_of_not_mem (hnot g), Accesses.lastAccessOf_touchAll_of_not_mem (hnot g')]
    exact h.inOrder hp model g g' hne hlt hr hr'

theorem Kept.of_unknown (h : m.Kept models args (· ≠ active)) (hno : models.byId.get? active = none) :
    m.Kept models args fun _ => True := by
  refine ⟨h.laid, h.known, h.shaped, ?_, h.kvNamed, h.kvKeys⟩
  intro hp model g g' _ hlt hr hr'
  refine h.inOrder hp model g g' ?_ hlt hr hr'
  rintro rfl
  obtain ⟨t, ht, -⟩ := h.known_of_resident hr
  rw [hno] at ht
  cases ht

theorem Kept.mono (h : m.Kept models args fun _ => True) (calm : Nat → Prop) : m.Kept models args calm :=
  ⟨h.laid, h.known, h.shaped, fun hp model g g' _ => h.inOrder hp model g g' trivial, h.kvNamed, h.kvKeys⟩

theorem run_requestActions (h : m.Steady models args) (hpol : args.Profiled) (x : Outlook × Request) :
    Outcome (fun f => f.isInvariant = false) (fun r => r.2.Steady models args)
      ((mockSegmentMemory models args table).run m (requestActions models args x)) := by
  obtain ⟨o, request⟩ := x
  -- What the simulator expects changes nothing of this.
  refine outcome_run_cons (R := fun m => m.Steady models args) ?_ ?_
  · exact ⟨⟨⟨h.kept.laid.layout, h.kept.laid.indexed, h.kept.laid.limit⟩, h.kept.known, h.kept.shaped, h.kept.inOrder,
      h.kept.kvNamed, h.kept.kvKeys⟩, h.timed⟩
  intro m₁ h₁
  refine outcome_run_cons (R := fun m => m.Steady models args) ?_ ?_
  · obtain ⟨hkept, hfrm, -⟩ := h₁.kept.beginRequest (kvBytes request args)
    refine ⟨hkept, ?_⟩
    rw [hfrm.accesses_eq]
    exact h₁.timed
  intro m₂ h₂
  refine outcome_run_cons (R := fun m => m.Kept models args (· ≠ request.modelId) ∧ m.pool.accesses.Timed ∧
    Whole models request.modelId m.pool) ?_ ?_
  · refine imp (planRequest_spec (h₂.kept.mono _) hpol) ?_
    rintro r ⟨hon, hwhole⟩
    refine ⟨hon.kept, ?_, hwhole⟩
    rw [hon.frame.accesses_eq]
    exact h₂.timed
  rintro m₃ ⟨hkept, htimed, hwhole⟩
  refine outcome_run_append (R := fun m => m.Steady models args) ?_ ?_
  · dsimp only
    cases ht : models.byId.get? request.modelId with
    | none => exact ⟨hkept.of_unknown ht, htimed⟩
    | some t =>
      obtain ⟨total, planned, hrun⟩ := run_prepareTensors hkept.laid.indexed ht hwhole (List.Subset.refl t.tensors)
      change Outcome _ _ ((mockSegmentMemory models args table).run m₃ (t.tensors.map _))
      rw [hrun]
      exact steady_touched hkept htimed ht planned
  intro m₄ h₄
  refine outcome_run_cons (R := fun m => m.Steady models args) ?_ fun m₅ h₅ => h₅
  change Outcome _ _ (((m₄.pool.accesses.finishRequest request.modelId).bind _).bind _)
  unfold Accesses.finishRequest
  split
  · exact rfl
  · exact ⟨⟨⟨h₄.kept.laid.layout, h₄.kept.laid.indexed, h₄.kept.laid.limit⟩, h₄.kept.known, h₄.kept.shaped, h₄.kept.inOrder,
      h₄.kept.kvNamed, h₄.kept.kvKeys⟩, h₄.timed⟩

end MockSegmentMemory

end ServerlessLLM.Simulator
