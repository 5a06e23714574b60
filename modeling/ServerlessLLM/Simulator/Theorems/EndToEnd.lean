import Mathlib.Algebra.Order.BigOperators.Group.List
import Mathlib.Algebra.Order.Group.Nat
import ServerlessLLM.Library.Runs
import ServerlessLLM.Simulator.EndToEnd

/-!
# What the caches of the end-to-end simulator hold

The counter of a cache is the sum of its sizes, as long as no model is committed that lacks a group twice: such a group is one
entry, and is counted each time.
-/

namespace ServerlessLLM.Simulator.EndToEnd

open Runs List Dict EndToEnd.TensorGroup Backend

variable {b : Backend} {s s' : Caches} {cache : Dict String Nat} {groups : List TensorGroup}

def cacheBytes (cache : Dict String Nat) : Nat := (cache.entries.map Prod.snd).sum

def absentBytes (cache : Dict String Nat) (groups : List TensorGroup) : Nat :=
  ((missingGroups cache groups).dedup.map size).sum

/-! ## The steps of a commit -/

variable {cache' : Dict String Nat} {model : ModelInfo} {modelId : Nat} {call : Call}

theorem mem_keys_of_perm (h : cache'.entries.Perm cache.entries) (fingerprint : String) :
    fingerprint ∈ cache'.keys ↔ fingerprint ∈ cache.keys := (h.map Prod.fst).mem_iff

theorem cacheBytes_of_perm (h : cache'.entries.Perm cache.entries) : cacheBytes cache' = cacheBytes cache :=
  (h.map Prod.snd).sum_eq

theorem touch_perm (cache : Dict String Nat) (groups : List TensorGroup) : (touch cache groups).entries.Perm cache.entries := by
  induction groups generalizing cache with
  | nil => exact .refl _
  | cons group groups ih =>
    unfold touch
    split
    · exact ih cache
    · rename_i size hsz
      refine (ih _).trans ?_
      have hnot : group.fingerprint ∉ (cache.erase group.fingerprint).keys := by
        rw [← get?_eq_none_iff, get?_erase, if_pos rfl]
      rw [entries_set_of_not_mem hnot]
      exact perm_append_singleton _ _ |>.trans (entries_perm_erase hsz).symm

theorem missingGroups_of_perm (h : cache'.entries.Perm cache.entries) (groups : List TensorGroup) :
    missingGroups cache' groups = missingGroups cache groups :=
  filter_congr fun group _ => by simp only [mem_keys_of_perm h]

theorem cacheBytes_erase {e : String × Nat} (he : e ∈ cache.entries) : cacheBytes (cache.erase e.1) + e.2 =
    cacheBytes cache := by
  have hpm := (entries_perm_erase (mem_entries_iff.1 he)).map Prod.snd
  unfold cacheBytes
  rw [hpm.sum_eq, map_cons, sum_cons, Nat.add_comm]

theorem makeRoom_spec (capacityBytes missingBytes : Nat) (protectedFingerprints : List String) {rounds : Nat} (usedBytes : ℤ)
    (cache : Dict String Nat) (hrnd : cache.entries.length ≤ rounds) (hused : usedBytes = cacheBytes cache) :
    let r := makeRoom capacityBytes missingBytes protectedFingerprints rounds cache usedBytes
    r.2.1.entries.Sublist cache.entries ∧ r.2.2 = cacheBytes r.2.1 ∧
      (∀ e ∈ cache.entries, e.1 ∈ protectedFingerprints → e ∈ r.2.1.entries) ∧
      (r.1 = true → r.2.2 + missingBytes ≤ capacityBytes) ∧
      (r.1 = false → capacityBytes < r.2.2 + missingBytes ∧ ∀ e ∈ r.2.1.entries, e.1 ∈ protectedFingerprints) := by
  induction rounds generalizing cache usedBytes with
  | zero =>
    unfold makeRoom
    split
    · rename_i hro
      exact ⟨.refl _, hused, fun e he _ => he, fun _ => hro, nofun⟩
    · rename_i hro
      have hnil : cache.entries = [] := length_eq_zero_iff.1 (Nat.le_zero.1 hrnd)
      have hfind : (cache.entries.find? fun e => e.1 ∉ protectedFingerprints) = none := by
        rw [hnil]
        rfl
      rw [hfind]
      refine ⟨.refl _, hused, fun e he _ => he, nofun, fun _ => ⟨lt_of_not_ge hro, ?_⟩⟩
      intro e he
      rw [hnil] at he
      cases he
  | succ rounds ih =>
    unfold makeRoom
    split
    · rename_i hro
      exact ⟨.refl _, hused, fun e he _ => he, fun _ => hro, nofun⟩
    · rename_i hro
      cases hfind : cache.entries.find? fun e => e.1 ∉ protectedFingerprints with
      | none =>
        refine ⟨.refl _, hused, fun e he _ => he, nofun, fun _ => ⟨lt_of_not_ge hro, ?_⟩⟩
        intro e he
        simpa using find?_eq_none.1 hfind e he
      | some e =>
        have hmem := mem_of_find?_eq_some hfind
        have hfe : e.1 ∉ protectedFingerprints := by simpa using find?_some hfind
        have hbyt := cacheBytes_erase hmem
        obtain ⟨hsub, hcnt, hkeep, hend⟩ := ih (usedBytes - e.2) (cache.erase e.1)
          (by have := length_erase_lt (mem_entries_iff.1 hmem); omega) (by omega)
        refine ⟨hsub.trans filter_sublist, hcnt, fun e' he' hprt => hkeep e' ?_ hprt, hend⟩
        refine mem_filter.2 ⟨he', decide_eq_true fun heq => hfe (heq ▸ hprt)⟩

theorem insertGroups_spec (cache : Dict String Nat) (usedBytes : ℤ) (hnd : (groups.map TensorGroup.fingerprint).Nodup)
    (hnew : ∀ group ∈ groups, group.fingerprint ∉ cache.keys) (hused : usedBytes = cacheBytes cache) :
    (insertGroups cache usedBytes groups).1.entries = cache.entries ++
      groups.map (fun group => (group.fingerprint, group.size)) ∧
      (insertGroups cache usedBytes groups).2 = cacheBytes (insertGroups cache usedBytes groups).1 := by
  induction groups generalizing cache usedBytes with
  | nil => exact ⟨(append_nil _).symm, hused⟩
  | cons group groups ih =>
    rw [map_cons, nodup_cons] at hnd
    have hent := entries_set_of_not_mem (hnew group mem_cons_self) group.size
    have hrs : ∀ group' ∈ groups, group'.fingerprint ∉ (cache.set group.fingerprint group.size).keys := by
      intro group' hgrp' hmem
      obtain heq | hmem := mem_keys_set.1 hmem
      · exact hnd.1 (heq ▸ mem_map_of_mem hgrp')
      · exact hnew group' (mem_cons_of_mem _ hgrp') hmem
    obtain ⟨hall, hcnt⟩ := ih (cache.set group.fingerprint group.size) (usedBytes + group.size) hnd.2 hrs (by
      unfold cacheBytes at hused ⊢
      rw [hent, hused]
      simp)
    refine ⟨?_, hcnt⟩
    rw [insertGroups, hall, hent, map_cons, append_assoc]
    rfl

/-! ## The invariant -/

/-- The counters are the bytes of the caches, within the capacity, and what is cached are groups of the models. -/
structure Accounted (b : Backend) (s : Caches) : Prop where
  used : ∀ gpuId, s.gpuUsedBytes gpuId = cacheBytes (s.gpuCaches gpuId)
  fits : ∀ gpuId, s.gpuUsedBytes gpuId ≤ b.gpuCapacityBytes
  groups : ∀ gpuId, ∀ e ∈ (s.gpuCaches gpuId).entries, ∃ model ∈ b.models.entries, ⟨e.1, e.2⟩ ∈ model.2.tensorGroups

theorem accounted_init (b : Backend) : Accounted b .init := by
  refine ⟨fun _ => rfl, fun _ => Int.natCast_nonneg _, ?_⟩
  rintro gpuId e ⟨⟩

@[simp] theorem Caches.gpuCaches_put (gpuId : Nat) (cache : Dict String Nat) (usedBytes : ℤ) :
    (s.put gpuId cache usedBytes).gpuCaches gpuId = cache := Function.update_self ..

theorem Accounted.put (h : Accounted b s) {gpuId : Nat} {cache : Dict String Nat} {usedBytes : ℤ}
    (hused : usedBytes = cacheBytes cache)
    (hft : usedBytes ≤ b.gpuCapacityBytes)
    (hgps : ∀ e ∈ cache.entries, ∃ model ∈ b.models.entries, ⟨e.1, e.2⟩ ∈ model.2.tensorGroups) :
      Accounted b (s.put gpuId cache usedBytes) := by
  constructor
  case used =>
    intro gpuId'
    by_cases hgpu : gpuId' = gpuId
    · subst hgpu
      simpa [Caches.put] using hused
    · simpa [Caches.put, hgpu] using h.used gpuId'
  case fits =>
    intro gpuId'
    by_cases hgpu : gpuId' = gpuId
    · subst hgpu
      simpa [Caches.put] using hft
    · simpa [Caches.put, hgpu] using h.fits gpuId'
  case groups =>
    intro gpuId' e he
    by_cases hgpu : gpuId' = gpuId
    · subst hgpu
      exact hgps e (by simpa [Caches.put] using he)
    · exact h.groups gpuId' e (by simpa [Caches.put, hgpu] using he)

theorem Accounted.expireFrom (h : Accounted b s) (keepAliveMs nowMs : ℚ) (l : List ((Nat × Nat) × ℚ)) :
    Accounted b (b.expireFrom keepAliveMs nowMs l s).2 := by
  induction l generalizing s with
  | nil => exact h
  | cons e l ih =>
    unfold expireFrom
    split
    · exact ih h
    · split
      · exact h
      · split
        · exact h
        · rename_i group _ _
          split
          · exact h
          · refine ih ?_
            cases hsz : (s.gpuCaches e.1.1).get? group.fingerprint with
            | none => exact ⟨h.used, h.fits, h.groups⟩
            | some size =>
              have hbyt := cacheBytes_erase (mem_entries_iff.2 hsz)
              have hput : Accounted b (s.put e.1.1 ((s.gpuCaches e.1.1).erase group.fingerprint)
                (s.gpuUsedBytes e.1.1 - size)) := by
                have hused := h.used e.1.1
                have hft := h.fits e.1.1
                refine h.put (by simp only at hbyt; omega) (by omega) fun e' he' => h.groups e.1.1 e' (mem_of_mem_filter he')
              exact ⟨hput.used, hput.fits, hput.groups⟩

/-! ## What a commit does -/

/-- The groups of a model, each once, fit into a GPU. -/
def FitsCapacity (b : Backend) (groups : List TensorGroup) : Prop :=
    (groups.dedup.map TensorGroup.size).sum ≤ b.gpuCapacityBytes

/-- What a commit that caches leaves behind: no group of the model is evicted; when it returns, all of them are cached and the
estimate is what was absent; and it returns when they fit. -/
structure Commits (b : Backend) (s : Caches) (gpuId : Nat) (groups : List TensorGroup)
    (r : Except BackendError LoadEstimate × Caches) :
    Prop where
  kept : ∀ group ∈ groups, group.fingerprint ∈ (s.gpuCaches gpuId).keys → group.fingerprint ∈ (r.2.gpuCaches gpuId).keys
  cached : ∀ estimate, r.1 = .ok estimate → ∀ group ∈ groups, group.fingerprint ∈ (r.2.gpuCaches gpuId).keys
  absent : ∀ estimate, r.1 = .ok estimate → estimate.toLoadBytes = absentBytes (s.gpuCaches gpuId) groups
  returns : FitsCapacity b groups → ∃ estimate, r.1 = .ok estimate

theorem missing_nodup (hnd : ((missingGroups cache groups).map TensorGroup.fingerprint).Nodup) :
    ((missingGroups cache groups).map size).sum = absentBytes cache groups := by
  unfold absentBytes
  rw [hnd.of_map.dedup]

theorem cached_add_missing (cache : Dict String Nat) (groups : List TensorGroup) :
    ((groups.filter fun group => group.fingerprint ∈ cache.keys).map size).sum +
      ((missingGroups cache groups).map size).sum = (groups.map size).sum := by
  induction groups with
  | nil => rfl
  | cons group groups ih =>
    unfold missingGroups at ih ⊢
    by_cases hmem : group.fingerprint ∈ cache.keys
    · rw [filter_cons_of_pos (by simpa using hmem), filter_cons_of_neg (by simpa using hmem), map_cons, map_cons,
        sum_cons, sum_cons, ← ih, Nat.add_assoc]
    · rw [filter_cons_of_neg (by simpa using hmem), filter_cons_of_pos (by simpa using hmem), map_cons, map_cons,
        sum_cons, sum_cons, ← ih]
      omega

theorem cacheBytes_add_missing_le (cache : Dict String Nat) (hgps : ∀ e ∈ cache.entries, ∃ model ∈ b.models.entries,
    ⟨e.1, e.2⟩ ∈ model.2.tensorGroups)
    (hmod : b.models.get? modelId = some model)
    (hleft : ∀ e ∈ cache.entries, e.1 ∈ model.tensorGroups.map fingerprint) {missing : List TensorGroup}
    (hsub : ∀ group ∈ missing, group ∈ model.tensorGroups) (hnd : (missing.map fingerprint).Nodup)
    (hnew : ∀ group ∈ missing, group.fingerprint ∉ cache.keys) :
    cacheBytes cache + (missing.map size).sum ≤ (model.tensorGroups.dedup.map size).sum := by
  set held := cache.entries.map fun e => (⟨e.1, e.2⟩ : TensorGroup) with hhe
  have hfst : held.map fingerprint = cache.keys := by
    rw [hhe, map_map]
    rfl
  have hbyt : (held.map size).sum = cacheBytes cache := by
    rw [hhe, map_map]
    rfl
  have hall : (held ++ missing).Nodup := by
    refine List.Nodup.of_map fingerprint ?_
    rw [map_append, hfst]
    refine nodup_append.2 ⟨cache.nodup, hnd, ?_⟩
    intro a ha c hc heq
    obtain ⟨group, hgrp, rfl⟩ := mem_map.1 hc
    exact hnew group hgrp (heq ▸ ha)
  have hmem : ∀ group ∈ held ++ missing, group ∈ model.tensorGroups.dedup := by
    intro group hgrp
    rw [mem_dedup]
    obtain hgrp | hgrp := mem_append.1 hgrp
    · obtain ⟨e, he, rfl⟩ := mem_map.1 hgrp
      obtain ⟨other, hother, hin⟩ := hgps e he
      obtain ⟨own, hown, hfingerprint⟩ := mem_map.1 (hleft e he)
      have hsz := b.size_eq _ (mem_entries_iff.2 hmod) _ hother own hown _ hin hfingerprint
      have heq : own = ⟨e.1, e.2⟩ := by
        cases own
        cases hfingerprint
        cases hsz
        rfl
      exact heq ▸ hown
    · exact hsub group hgrp
  obtain ⟨l, hpm, hsublist⟩ := subperm_of_subset hall hmem
  calc cacheBytes cache + (missing.map size).sum
      = ((held ++ missing).map size).sum := by rw [map_append, sum_append, hbyt]
    _ = (l.map size).sum := (hpm.map _).sum_eq.symm
    _ ≤ (model.tensorGroups.dedup.map size).sum := (hsublist.map _).sum_le_sum fun _ _ => Nat.zero_le _

theorem commit_spec (h : Accounted b s) (hchs : ¬b.KeepsNothing) {gpuId : Nat}
    (hmod : b.models.get? modelId = some model) (hgpu : gpuId < b.numGpus)
    (hnd : ((missingGroups (s.gpuCaches gpuId) model.tensorGroups).map fingerprint).Nodup) :
    Accounted b (b.commit s modelId gpuId).2 ∧ Commits b s gpuId model.tensorGroups (b.commit s modelId gpuId) := by
  have htouch := touch_perm (s.gpuCaches gpuId) model.tensorGroups
  have hmis := missingGroups_of_perm htouch model.tensorGroups
  have hused : s.gpuUsedBytes gpuId = cacheBytes (touch (s.gpuCaches gpuId) model.tensorGroups) := by
    rw [cacheBytes_of_perm htouch]
    exact h.used gpuId
  have hgps : ∀ e ∈ (touch (s.gpuCaches gpuId) model.tensorGroups).entries, ∃ m ∈ b.models.entries,
    ⟨e.1, e.2⟩ ∈ m.2.tensorGroups :=
    fun e he => h.groups gpuId e (htouch.mem_iff.1 he)
  have hestimate := cached_add_missing (s.gpuCaches gpuId) model.tensorGroups
  rw [missing_nodup hnd] at hestimate
  unfold commit estimate
  simp only [hmod, if_neg hchs, if_neg (Nat.not_le.2 hgpu), hmis]
  set cache := touch (s.gpuCaches gpuId) model.tensorGroups with hcache
  set missing := missingGroups (s.gpuCaches gpuId) model.tensorGroups with hmissingGroups
  have hsub : ∀ group ∈ missing, group ∈ model.tensorGroups := fun group hgrp => mem_of_mem_filter hgrp
  have hin : ∀ group ∈ model.tensorGroups, group ∉ missing → group.fingerprint ∈ cache.keys := by
    intro group hgrp hnot
    rw [mem_keys_of_perm htouch]
    by_contra habsent
    exact hnot (mem_filter.2 ⟨hgrp, decide_eq_true habsent⟩)
  have hnew : ∀ group ∈ missing, group.fingerprint ∉ cache.keys := by
    intro group hgrp
    rw [mem_keys_of_perm htouch]
    simpa using (mem_filter.1 hgrp).2
  split
  · rename_i hlrg
    refine ⟨h.put hused (h.fits gpuId) hgps, ?_, nofun, nofun, ?_⟩
    · intro group hgrp hkey
      rw [Caches.gpuCaches_put]
      exact (mem_keys_of_perm htouch _).2 hkey
    · intro hft
      have hle := cacheBytes_add_missing_le .empty (by rintro e ⟨⟩) hmod (by rintro e ⟨⟩) hsub hnd fun _ _ => not_mem_nil
      exact absurd (((Nat.le_add_left _ _).trans hle).trans hft) (Nat.not_le.2 hlrg)
  · rename_i hlrg
    obtain ⟨hsublist, hcnt, hkeep, htrue, hfal⟩ := makeRoom_spec b.gpuCapacityBytes
      (missing.map size).sum (model.tensorGroups.map fingerprint) (s.gpuUsedBytes gpuId) cache le_rfl hused
    have hhe : ∀ group ∈ model.tensorGroups, group ∉ missing → group.fingerprint ∈ (makeRoom b.gpuCapacityBytes
        (missing.map size).sum (model.tensorGroups.map fingerprint) cache.entries.length cache
        (s.gpuUsedBytes gpuId)).2.1.keys := by
      intro group hgrp hnot
      obtain ⟨e, he, hfst⟩ := mem_map.1 (hin group hgrp hnot)
      exact hfst ▸ mem_map_of_mem (hkeep e he (hfst ▸ mem_map_of_mem hgrp))
    have hnewer : ∀ group ∈ missing, group.fingerprint ∉ (makeRoom b.gpuCapacityBytes (missing.map size).sum
        (model.tensorGroups.map fingerprint) cache.entries.length cache (s.gpuUsedBytes gpuId)).2.1.keys :=
      fun group hgrp hmem => hnew group hgrp ((hsublist.map Prod.fst).subset hmem)
    set r := makeRoom b.gpuCapacityBytes (missing.map size).sum (model.tensorGroups.map fingerprint)
      cache.entries.length cache (s.gpuUsedBytes gpuId) with hr
    split
    · rename_i hro
      obtain ⟨hent, hcounted⟩ := insertGroups_spec _ _ hnd hnewer hcnt
      have hbyt : cacheBytes (insertGroups r.2.1 r.2.2 missing).1 = cacheBytes r.2.1 + (missing.map size).sum := by
        unfold cacheBytes
        rw [hent, map_append, sum_append, map_map]
        rfl
      have hall : ∀ group ∈ model.tensorGroups, group.fingerprint ∈ (insertGroups r.2.1 r.2.2 missing).1.keys := by
        intro group hgrp
        unfold Dict.keys
        rw [hent, map_append, mem_append]
        by_cases hmem : group ∈ missing
        · exact .inr (mem_map.2 ⟨_, mem_map_of_mem hmem, rfl⟩)
        · exact .inl (hhe group hgrp hmem)
      have hft := htrue hro
      refine ⟨h.put hcounted (by rw [hcounted, hbyt, Nat.cast_add, ← hcnt]; exact hft) ?_, ?_, ?_, ?_, fun _ => ⟨_, rfl⟩⟩
      · intro e he
        rw [hent] at he
        obtain he | he := mem_append.1 he
        · exact hgps e (hsublist.subset he)
        · obtain ⟨group, hgrp, rfl⟩ := mem_map.1 he
          exact ⟨_, mem_entries_iff.2 hmod, hsub group hgrp⟩
      · intro group hgrp _
        rw [Caches.gpuCaches_put]
        exact hall group hgrp
      · intro _ _ group hgrp
        rw [Caches.gpuCaches_put]
        exact hall group hgrp
      · rintro estimate ⟨⟩
        simp only [ModelInfo.totalBytes]
        omega
    · rename_i hro
      obtain ⟨hlarger, hleft⟩ := hfal (by simpa using hro)
      have hsmaller : r.2.2 ≤ b.gpuCapacityBytes := by
        have hle := (hsublist.map Prod.snd).sum_le_sum fun _ _ => Nat.zero_le _
        have hft := h.fits gpuId
        unfold cacheBytes at hcnt hused
        omega
      refine ⟨h.put hcnt hsmaller fun e he => hgps e (hsublist.subset he), ?_, nofun, nofun, ?_⟩
      · intro group hgrp hkey
        rw [Caches.gpuCaches_put]
        exact hhe group hgrp fun hmem => hnew group hmem ((mem_keys_of_perm htouch _).2 hkey)
      · intro hft
        have hle := cacheBytes_add_missing_le _ (fun e he => hgps e (hsublist.subset he)) hmod hleft hsub hnd hnewer
        unfold FitsCapacity at hft
        omega

/-! ## Runs -/

def MissingDistinct (b : Backend) (s : Caches) : Call → Prop
  | .commit modelId gpuId => ∀ model, b.models.get? modelId = some model → ¬b.KeepsNothing →
    ((missingGroups (s.gpuCaches gpuId) model.tensorGroups).map fingerprint).Nodup
  | _ => True

/-- A commit of a model on a GPU does what it should; a backend that keeps nothing returns all bytes and caches none. -/
def CommitsRight (b : Backend) (s : Caches) : Call → Prop
  | .commit modelId gpuId => ∀ model, b.models.get? modelId = some model →
    (¬b.KeepsNothing → gpuId < b.numGpus → Commits b s gpuId model.tensorGroups (b.commit s modelId gpuId)) ∧
    (b.KeepsNothing → b.commit s modelId gpuId =
      (.ok ⟨gpuId, 0, model.totalBytes, model.totalBytes, false, b.loadMs model.totalBytes⟩, s))
  | _ => True

theorem Accounted.step (h : Accounted b s) (hdistinct : MissingDistinct b s call) (hst : b.step s call = some s') :
    Accounted b s' := by
  cases call with
  | expire nowMs =>
    cases hst
    unfold expire
    split
    · exact h
    · split
      · exact h
      · exact h.expireFrom _ _ _
  | estimate modelId gpuId =>
    cases hst
    exact h
  | commit modelId gpuId =>
    cases hst
    cases hmod : b.models.get? modelId with
    | none =>
      unfold commit estimate
      rw [hmod]
      exact h
    | some model =>
      by_cases hchs : b.KeepsNothing
      · unfold commit estimate
        simp only [hmod, if_pos hchs]
        exact h
      · by_cases hgpu : gpuId < b.numGpus
        · exact (commit_spec h hchs hmod hgpu (hdistinct model hmod hchs)).1
        · unfold commit estimate
          simp only [hmod, if_neg hchs, if_pos (Nat.not_lt.1 hgpu)]
          exact h
  | markFinish modelId gpuId finishMs =>
    cases hst
    unfold markFinish
    split
    · exact h
    · exact ⟨h.used, h.fits, h.groups⟩

theorem commitsRight (h : Accounted b s) (hdistinct : MissingDistinct b s call) : CommitsRight b s call := by
  cases call with
  | commit modelId gpuId =>
    refine fun model hmod => ⟨fun hchs hgpu => (commit_spec h hchs hmod hgpu (hdistinct model hmod hchs)).2, ?_⟩
    intro hnothing
    unfold commit estimate
    simp only [hmod, if_pos hnothing]
  | expire nowMs => trivial
  | estimate modelId gpuId => trivial
  | markFinish modelId gpuId finishMs => trivial

/-- In a run in which no commit finds a group missing twice, the counters are exact and every commit does what it should. -/
theorem caches_accounted (b : Backend) {calls : List Call} (hcalls : EachStep b.step (MissingDistinct b) .init calls) :
    Throughout b.step (Accounted b) .init calls ∧ EachStep b.step (CommitsRight b) .init calls := by
  have hrun : ∀ s, Accounted b s → ∀ calls, EachStep b.step (MissingDistinct b) s calls →
      Throughout b.step (Accounted b) s calls ∧ EachStep b.step (CommitsRight b) s calls := by
    intro s h calls hcalls
    induction calls generalizing s with
    | nil => exact ⟨h, trivial⟩
    | cons call calls ih =>
      refine ⟨⟨h, ?_⟩, commitsRight h hcalls.1, ?_⟩
      · intro s' hs'
        exact (ih s' (h.step hcalls.1 hs') (hcalls.2 s' hs')).1
      · intro s' hs'
        exact (ih s' (h.step hcalls.1 hs') (hcalls.2 s' hs')).2
  exact hrun .init (accounted_init b) calls hcalls

/-- Two models that share a group, on a GPU that holds five bytes. -/
def sharing (keepAliveMs : Option ℚ) : Backend where
  models := (Dict.empty.set 0 ⟨[⟨"a", 2⟩, ⟨"b", 3⟩]⟩).set 1 ⟨[⟨"b", 3⟩, ⟨"c", 1⟩]⟩
  numGpus := 1
  gpuCapacityBytes := 5
  loadBandwidthGbps := 1
  loadOverheadMs := 0
  keepAliveMs := keepAliveMs
  size_eq := by decide

theorem caches_accounted_sharing :
    Throughout (sharing (some 10)).step (Accounted (sharing (some 10))) .init
      [.commit 0 0, .markFinish 0 0 1, .commit 1 0, .expire 20] ∧
      EachStep (sharing (some 10)).step (CommitsRight (sharing (some 10))) .init
        [.commit 0 0, .markFinish 0 0 1, .commit 1 0, .expire 20] := by
  refine caches_accounted _ ⟨?_, ?_⟩
  · rintro model ⟨⟩ -
    decide
  · rintro s ⟨⟩
    refine ⟨trivial, ?_⟩
    rintro s ⟨⟩
    refine ⟨?_, ?_⟩
    · rintro model ⟨⟩ -
      decide
    · rintro s ⟨⟩
      exact ⟨trivial, fun _ _ => trivial⟩

def repeating : Backend where
  models := Dict.empty.set 0 ⟨[⟨"a", 2⟩, ⟨"a", 2⟩]⟩
  numGpus := 1
  gpuCapacityBytes := 5
  loadBandwidthGbps := 1
  loadOverheadMs := 0
  keepAliveMs := none
  size_eq := by decide

/-- With a negative `keep_alive_ms` a committed model is not cached, and a group that a model has twice is counted twice. -/
theorem not_cached_and_counted_twice : (((sharing (some (-1))).commit .init 0 0).1.isOk = true ∧
    (((sharing (some (-1))).commit .init 0 0).2.gpuCaches 0).keys = []) ∧
    (repeating.commit .init 0 0).1.isOk = true ∧ (repeating.commit .init 0 0).2.gpuUsedBytes 0 = 4 ∧
      cacheBytes ((repeating.commit .init 0 0).2.gpuCaches 0) = 2 := by
  decide +kernel

end ServerlessLLM.Simulator.EndToEnd
