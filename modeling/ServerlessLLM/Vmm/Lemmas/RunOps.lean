import ServerlessLLM.Vmm.Lemmas.LegacyOps
import ServerlessLLM.Library.Runs

/-!
# Runs of a pool

The invariants hold of a pool that is created, and every call keeps them.
-/

namespace ServerlessLLM.Vmm.Pool

open List Dict Prod Sound

variable {S : Surroundings} {p p' : Pool} {a : Allocation} {inflight : List (PageAddr × Nat)} {lost : List Nat}
  {protectedFps : List String}

/-! ## `MapWeight` -/

theorem like_touchWeight {fp : String} (h : p.weights.get? fp = some a) (clock n : Nat) :
    Like p { p with clock := clock, weights := p.weights.set fp { a with accessCount := n } } := by
  have hset : p.weights.set fp { a with accessCount := n } = p.weights.modify fp fun a => { a with accessCount := n } :=
    (modify_of_get? h fun a => { a with accessCount := n }).symm
  have hhe : (p.weights.set fp { a with accessCount := n }).entries.flatMap (fun e => e.2.held) =
      p.weights.entries.flatMap fun e => e.2.held := by
    rw [hset, flatMap, flatMap]
    exact congrArg flatten (map_entries_modify p.weights fp _ (fun e => e.2.held) fun _ => rfl)
  have hrgs : ((p.weights.set fp { a with accessCount := n }).entries.map fun e => e.2.va.range) =
      p.weights.entries.map fun e => e.2.va.range := by
    rw [hset]
    exact map_entries_modify p.weights fp _ (fun e => e.2.va.range) fun _ => rfl
  refine ⟨⟨rfl, rfl, rfl, ?_, Nat.le_refl _, rfl, rfl⟩, rfl, rfl, rfl, ?_, rfl⟩
  · exact congrArg (fun l => p.kvVaBase :: (p.arenas.map snd ++ (l ++ p.legacyKv.map fun a => a.va.range))) hrgs
  · exact congrArg (fun l => p.stableHeld ++
      (l ++ ((p.kvBlocks.entries.flatMap fun e => e.2.held) ++ p.legacyKv.flatMap Allocation.held))) hhe

theorem mapWeight_spec (S : Surroundings) (fp : String) (bytes : Nat) (sensitivity : ℚ) (protectedFps : List String)
    (h : Sound p [] lost) :
    ∃ r p', p.mapWeight S fp bytes sensitivity protectedFps = (r, p') ∧ SameKV p p' ∧
      (∃ lost', Sound p' [] lost' ∧ (S.MapsExtents → lost' = lost)) ∧
        (lost = [] → ∀ f ∈ p'.log, f ∈ p.log ∨ ∃ c, f = .cuda c) := by
  unfold mapWeight
  cases ha : p.weights.get? fp with
  | some a =>
    refine ⟨true, _, rfl, ⟨rfl, rfl, rfl, rfl, rfl, rfl, rfl, rfl, Nat.le_refl _, rfl⟩, ⟨lost, ?_, fun _ => rfl⟩,
      fun _ f hf => .inl hf⟩
    exact h.like (like_touchWeight ha _ _)
  | none =>
    obtain ⟨b, p₁, heq, h₁, hev, hen, hfe⟩ := ensurePages_spec S (p.pagesFor bytes) protectedFps h
    have hfor : p₁.pagesFor bytes = p.pagesFor bytes := by
      unfold pagesFor
      rw [hev.granularity]
    simp only [heq]
    cases b with
    | false => exact ⟨false, p₁, rfl, hev.toSameKV, ⟨lost, h₁, fun _ => rfl⟩, fun _ f hf => .inl (by rwa [hev.log] at hf)⟩
    | true =>
      obtain ⟨r, p₂, hmap, htab, ⟨lost', hstd, hrel, hlost⟩, hshp, hlogs, -⟩ :=
        map_spec S (a := ⟨⟨0, 0⟩, bytes, p₁.pagesFor bytes * p₁.granularity, [], sensitivity, 0⟩) h₁ rfl
      have hlog : lost = [] → ∀ f ∈ p₂.log, f ∈ p.log ∨ ∃ c, f = .cuda c := by
        intro hnil f hf
        subst hnil
        rw [← hev.log]
        refine hlogs ?_ f hf
        change p₁.pagesFor bytes * p₁.granularity / p₁.granularity ≤ _
        rw [Nat.mul_div_cancel _ p₁.granularity_pos, hfor, ← h₁.freePages]
        exact hfe rfl
      simp only [hmap]
      cases r with
      | none => exact ⟨false, p₂, rfl, hev.toSameKV.trans htab.sameKV, ⟨lost', hrel rfl, hlost⟩, hlog⟩
      | some a' =>
        obtain ⟨hva, hlt, -, -, -⟩ := hshp a' rfl
        have hrng : a'.va.range = p₁.driver.ranges + 1 := by rw [hva]
        have hfp : fp ∉ p₂.weights.keys := by
          rw [htab.weights]
          intro hmem
          obtain ⟨b, hb⟩ := mem_keys_iff.1 hmem
          have hold := hev.weights (fp, b) (mem_entries_iff.2 hb)
          rw [mem_entries_iff, ha] at hold
          cases hold
        refine ⟨true, _, rfl, ?_, ⟨lost', ?_, hlost⟩, hlog⟩
        · refine (hev.toSameKV.trans htab.sameKV).trans ?_
          exact ⟨rfl, rfl, rfl, rfl, rfl, rfl, rfl, rfl, Nat.le_refl _, rfl⟩
        · refine storeWeights _ _ h₁ ?_ htab (by omega) (by omega) hfp
          rw [append_nil]
          exact hstd a' rfl

/-! ## `CleanKV` -/

theorem Sound.releaseAll {l : List Allocation} (h : Sound p (l.flatMap Allocation.held ++ inflight) lost)
    (hl : ∀ a ∈ l, a.va.range ≠ 0) :
    Sound (l.foldl Pool.release p) inflight lost := by
  induction l generalizing p with
  | nil => exact h
  | cons a l ih =>
    rw [flatMap_cons, append_assoc] at h
    exact ih (h.release (hl a mem_cons_self)) fun b hb => hl b (mem_cons_of_mem _ hb)

theorem sameTables_releaseAll (p : Pool) (l : List Allocation) : SameTables p (l.foldl release p) := by
  induction l generalizing p with
  | nil => exact SameTables.refl p
  | cons a l ih => exact (sameTables_release p a).trans (ih _)

theorem log_releaseAll (p : Pool) (l : List Allocation) : (l.foldl release p).log = p.log := by
  induction l generalizing p with
  | nil => rfl
  | cons a l ih => exact (ih _).trans (log_release p a)

theorem releaseAll_update (f : Pool → Pool) (hf : ∀ va q m, releaseMapping va (f q) m = f (releaseMapping va q m)) (p : Pool)
    (l : List Allocation) : l.foldl release (f p) = f (l.foldl release p) := by
  induction l generalizing p with
  | nil => rfl
  | cons a l ih =>
    rw [foldl_cons, foldl_cons, release_update f hf]
    exact ih _

theorem cleanKV_spec (S : Surroundings) (h : Sound p inflight lost) (hk : KVArena p) (protectedFps : List String) :
    Sound (p.cleanKV S) inflight lost ∧ KVArena (p.cleanKV S) ∧ Shrunk protectedFps p (p.cleanKV S) ∧
      (p.cleanKV S).log = p.log ∧
      (p.cleanKV S).kvBlocks.entries = [] ∧ (p.cleanKV S).legacyKv = [] ∧ (p.cleanKV S).stableWeights = p.stableWeights := by
  obtain ⟨h₁, hk₁, hshr, hlog, hleg, hstb, hent⟩ := releaseKVBlocks_spec h hk protectedFps (S.visit p.kvBlocks.keys)
  let p₁ := p.releaseKVBlocks (S.visit p.kvBlocks.keys)
  have hcln : p.cleanKV S = p₁.legacyKv.foldl release { p₁ with legacyKv := [] } :=
    (releaseAll_update (fun q => { q with legacyKv := [] }) (fun _ _ _ => rfl) p₁ p₁.legacyKv).symm
  have htab := sameTables_releaseAll { p₁ with legacyKv := [] } p₁.legacyKv
  have hemp : p₁.kvBlocks.entries = [] := by
    rw [hent, filter_eq_nil_iff]
    intro e he hkeep
    refine of_decide_eq_true hkeep ((S.visit_perm _).mem_iff.2 ?_)
    exact mem_map_of_mem (f := fst) he
  have hsub : List.Sublist (Pool.ranges { p₁ with legacyKv := [] }) p₁.ranges := by
    unfold ranges arenas
    refine (List.Sublist.append_left (List.Sublist.append_left ?_ _) _).cons_cons _
    exact nil_sublist _
  have htaken : Sound { p₁ with legacyKv := [] } (p₁.legacyKv.flatMap Allocation.held ++ inflight) lost := by
    refine retable h₁ rfl rfl rfl rfl rfl ?_ rfl (h₁.ranges_nodup.sublist hsub) (fun r hr => h₁.ranges_le r (hsub.subset hr))
      h₁.kvRange h₁.bound
    change p₁.held ++ inflight |>.Perm _
    unfold held allocationHeld stableHeld
    simp only [flatMap_nil, append_nil, append_assoc]
    exact List.Perm.refl _
  have hrgs : ∀ a ∈ p₁.legacyKv, a.va.range ≠ 0 := by
    intro a ha
    refine Nat.pos_iff_ne_zero.1 (h₁.ranges_le a.va.range ?_).1
    refine mem_cons_of_mem _ (mem_append_right _ (mem_append_right _ ?_))
    exact mem_map_of_mem (f := fun a : Allocation => a.va.range) ha
  rw [hcln]
  refine ⟨htaken.releaseAll hrgs, ?_, ?_, ?_, ?_, htab.legacyKv, ?_⟩
  · refine KVArena.sameKV ?_ htab.sameKV
    exact hk₁.congr rfl rfl rfl rfl
  · refine hshr.trans (Shrunk.trans ?_ htab.shrunk)
    exact ⟨rfl, rfl, rfl, rfl, rfl, rfl, fun _ _ _ hid => hid, fun _ _ _ => rfl, fun _ he => he⟩
  · exact (log_releaseAll _ _).trans hlog
  · rw [htab.kvBlocks]
    exact hemp
  · rw [htab.stableWeights]
    exact hstb

/-! ## `Clear` -/

theorem endStableBinding_tables (p : Pool) (model : String) :
    SameKV { p with bindingAliases := (p.endStableBinding model).2.bindingAliases } (p.endStableBinding model).2 ∧
      (p.endStableBinding model).2.log = p.log ∧ (p.endStableBinding model).2.weights = p.weights ∧
      (p.endStableBinding model).2.stableWeights = p.stableWeights ∧
      (∀ m ∈ (p.endStableBinding model).2.bindingAliases.keys, m ∈ p.bindingAliases.keys ∧
        (model ∈ p.stableWeights.keys → m ≠ model)) := by
  have hsa : model ∉ p.stableWeights.keys ∨ model ∉ p.bindingAliases.keys →
      ∀ m ∈ p.bindingAliases.keys, m ∈ p.bindingAliases.keys ∧ (model ∈ p.stableWeights.keys → m ≠ model) := by
    rintro hor m hm
    refine ⟨hm, ?_⟩
    intro hmod heq
    subst heq
    rcases hor with h | h
    · exact h hmod
    · exact h hm
  unfold endStableBinding
  split
  · rename_i hm
    exact ⟨SameKV.refl p, rfl, rfl, rfl, hsa (.inl hm)⟩
  · cases ha : p.bindingAliases.get? model with
    | none => exact ⟨SameKV.refl p, rfl, rfl, rfl, hsa (.inr (get?_eq_none_iff.1 ha))⟩
    | some aliases =>
      obtain ⟨d, heq, hrgs, hmry, -⟩ := unmapPages_spec p model aliases.pages
      simp only
      rw [heq]
      refine ⟨⟨rfl, rfl, rfl, rfl, rfl, rfl, rfl, rfl, Nat.le_of_eq hrgs.symm, hmry⟩, rfl, rfl, rfl, ?_⟩
      intro m hm
      obtain ⟨aliases', hget⟩ := mem_keys_iff.1 hm
      change (p.bindingAliases.erase model).get? m = some aliases' at hget
      rw [get?_erase] at hget
      split at hget
      · cases hget
      · rename_i hne
        exact ⟨mem_keys_iff.2 ⟨aliases', hget⟩, fun _ => hne⟩

theorem endStableBindings_spec (h : Sound p inflight lost) (l : List String) (hl : ∀ m ∈ l, m ∈ p.stableWeights.keys) :
    let p' := l.foldl (fun p model => (p.endStableBinding model).2) p
    Sound p' inflight lost ∧ SameKV { p with bindingAliases := p'.bindingAliases } p' ∧ p'.log = p.log ∧
      p'.weights = p.weights ∧
      p'.stableWeights = p.stableWeights ∧ ∀ m ∈ p'.bindingAliases.keys, m ∈ p.bindingAliases.keys ∧ m ∉ l := by
  induction l generalizing p with
  | nil => exact ⟨h, SameKV.refl p, rfl, rfl, rfl, fun m hm => ⟨hm, not_mem_nil⟩⟩
  | cons model l ih =>
    obtain ⟨hkv, hlog, hwts, hstb, hks⟩ := endStableBinding_tables p model
    have hnx := ih (h.endStableBinding model) fun m hm => by
      rw [hstb]
      exact hl m (mem_cons_of_mem _ hm)
    simp only [foldl_cons] at hnx ⊢
    obtain ⟨h', hkv', hlog', hwts', hstb', hks'⟩ := hnx
    refine ⟨h', ?_, hlog'.trans hlog, hwts'.trans hwts, hstb'.trans hstb, ?_⟩
    · refine SameKV.trans ?_ hkv'
      exact ⟨hkv.granularity, hkv.capacity, hkv.kvVaBase, hkv.kvVaSlots, hkv.kvBlocks, hkv.legacyKv, rfl,
        hkv.shapes, hkv.driverRanges,
        hkv.memory⟩
    · intro m hm
      obtain ⟨hm', hnot⟩ := hks' m hm
      obtain ⟨hmem, hne⟩ := hks m hm'
      refine ⟨hmem, ?_⟩
      intro hin
      rcases mem_cons.1 hin with rfl | hin
      · exact hne (hl m mem_cons_self) rfl
      · exact hnot hin

theorem stableHeld_eq_nil (hno : ∀ m ∈ p.stableWeights.keys, ∀ page, p.extentOf m page = none) : p.stableHeld = [] := by
  unfold stableHeld
  rw [flatMap_eq_nil_iff]
  rintro ⟨m, arena⟩ he
  unfold StableWeightArena.held
  rw [filterMap_eq_nil_iff]
  rintro ⟨x, page⟩ hx
  rw [mk_mem_zipIdx_iff_getElem?] at hx
  cases x with
  | none => rfl
  | some id =>
    have hso := extentOf_eq_some_iff.2 ⟨arena, mem_entries_iff.1 he, hx⟩
    rw [hno m (mem_map_of_mem (f := fst) he)] at hso
    cases hso

theorem releaseArenas_spec (h : Sound p inflight lost) (l : List (String × StableWeightArena))
    (hl : ∀ e ∈ l, p.arenaPages e.1 = e.2.physicalExtentIds.length) :
    let p' := l.foldl (fun p e => p.releaseStablePages e.1 (range e.2.physicalExtentIds.length)) p
    Sound p' inflight lost ∧ SameKV p p' ∧ p'.weights = p.weights ∧ p'.log = p.log ∧
      (∀ e ∈ l, ∀ page, p'.extentOf e.1 page = none) ∧ ∀ m page id, p'.extentOf m page = some id →
        p.extentOf m page = some id := by
  induction l generalizing p with
  | nil => exact ⟨h, SameKV.refl p, rfl, rfl, by simp, fun _ _ _ hid => hid⟩
  | cons e l ih =>
    have hrel := released_arena p e.1
    rw [hl e mem_cons_self] at hrel
    have hnx := ih (hrel.sound _ _ h) fun e' he' => by
      rw [arenaPages_congr hrel.shapes]
      exact hl e' (mem_cons_of_mem _ he')
    simp only [foldl_cons] at hnx ⊢
    obtain ⟨h', hkv', hwts', hlog', hno', hshrinks'⟩ := hnx
    refine ⟨h', hrel.toSameKV.trans hkv', hwts'.trans hrel.weights, hlog'.trans hrel.log, ?_,
      fun m page id hid => hrel.shrinks (hshrinks' m page id hid)⟩
    intro e' he' page
    rcases mem_cons.1 he' with rfl | he'
    · by_contra hso
      obtain ⟨id, hid⟩ := Option.ne_none_iff_exists'.1 hso
      have hold := hshrinks' _ _ _ hid
      rw [hrel.free page trivial] at hold
      cases hold
    · exact hno' e' he' page

theorem clear_spec (S : Surroundings) (h : Sound p [] lost) (hk : KVArena p) :
    Sound (p.clear S) [] lost ∧ KVArena (p.clear S) ∧ (p.clear S).log = p.log ∧ (p.clear S).kvBlocks.entries = [] ∧
      (p.clear S).granularity = p.granularity ∧ (p.clear S).stableWeights = .empty ∧ (p.clear S).bindingAliases.keys = [] := by
  obtain ⟨h₁, hkv₁, hlog₁, hwts₁, hstb₁, hks₁⟩ := endStableBindings_spec h (S.visit p.bindingAliases.keys) fun m hm =>
    h.bound m ((S.visit_perm _).mem_iff.1 hm)
  generalize hp₁ : (S.visit p.bindingAliases.keys).foldl (fun p model => (p.endStableBinding model).2) p = p₁ at *
  have hnoBindings : p₁.bindingAliases.keys = [] := by
    refine eq_nil_iff_forall_not_mem.2 ?_
    intro m hm
    obtain ⟨hmem, hnot⟩ := hks₁ m hm
    exact hnot ((S.visit_perm _).mem_iff.2 hmem)
  have hk₁ : KVArena p₁ := by
    have hba : KVArena { p with bindingAliases := p₁.bindingAliases } := hk.congr rfl rfl rfl rfl
    exact hba.sameKV hkv₁
  obtain ⟨h₂, hk₂, hshr₂, hlog₂, hbks₂, hleg₂, hstb₂⟩ := cleanKV_spec S h₁ hk₁ []
  generalize hp₂ : p₁.cleanKV S = p₂ at *
  -- the weights are released
  let q := ({ p₂ with weights := .empty } : Pool)
  have hwts : { (S.visit p₂.weights.entries).foldl (fun p e => p.release e.2) p₂ with weights := .empty } =
      ((S.visit p₂.weights.entries).map snd).foldl release q := by
    rw [← foldl_map (f := snd) (g := release)]
    exact (releaseAll_update (fun q => { q with weights := .empty }) (fun _ _ _ => rfl) p₂ _).symm
  have hsub : List.Sublist q.ranges p₂.ranges := by
    unfold ranges arenas
    refine (List.Sublist.append_left (List.Sublist.append_right ?_ _) _).cons_cons _
    exact nil_sublist _
  have hpm : ((S.visit p₂.weights.entries).map snd).flatMap Allocation.held |>.Perm
    (p₂.weights.entries.flatMap fun e => e.2.held) := by
    rw [flatMap_map]
    exact (S.visit_perm _).flatMap_right _
  have hq : Sound q (((S.visit p₂.weights.entries).map snd).flatMap Allocation.held ++ []) lost := by
    refine Sound.retable h₂ rfl rfl rfl rfl rfl ?_ rfl (h₂.ranges_nodup.sublist hsub)
      (fun r hr => h₂.ranges_le r (hsub.subset hr))
      h₂.kvRange h₂.bound
    unfold held allocationHeld stableHeld
    simp only [q, entries_empty, flatMap_nil, nil_append, append_nil, append_assoc]
    refine (List.Perm.append_left _ ?_)
    exact (perm_append_comm.trans (hpm.symm.append_left _)).trans (List.Perm.of_eq (by rw [append_assoc]))
  have h₃ := hq.releaseAll fun a ha => by
    obtain ⟨e, he, rfl⟩ := mem_map.1 ha
    refine Nat.pos_iff_ne_zero.1 (h₂.ranges_le e.2.va.range ?_).1
    refine mem_cons_of_mem _ (mem_append_right _ (mem_append_left _ ?_))
    exact mem_map_of_mem (f := fun e : String × Allocation => e.2.va.range) ((S.visit_perm _).mem_iff.1 he)
  have htab := sameTables_releaseAll q ((S.visit p₂.weights.entries).map snd)
  have hlog₃ := log_releaseAll q ((S.visit p₂.weights.entries).map snd)
  generalize hp₃ : ((S.visit p₂.weights.entries).map snd).foldl release q = p₃ at *
  -- and the arenas
  obtain ⟨h₄, hkv₄, hwts₄, hlog₄, hno₄, -⟩ := releaseArenas_spec h₃ (S.visit p₃.stableWeights.entries) fun e he =>
    arenaPages_eq (mem_entries_iff.1 ((S.visit_perm _).mem_iff.1 he))
  generalize hp₄ : (S.visit p₃.stableWeights.entries).foldl
    (fun p e => p.releaseStablePages e.1 (range e.2.physicalExtentIds.length)) p₃ = p₄ at *
  have hclear : p.clear S = { p₄ with stableWeights := .empty } := by
    rw [← hp₄, ← hwts, ← hp₂, ← hp₁]
    rfl
  have hbindings₄ : p₄.bindingAliases.keys = [] := by
    rw [hkv₄.bindings, htab.bindings]
    change p₂.bindingAliases.keys = []
    rw [hshr₂.bindings, hnoBindings]
  have hstb₄ : p₄.stableHeld = [] := by
    refine stableHeld_eq_nil ?_
    intro m hm page
    rw [keys_congr (arenas_congr hkv₄.shapes)] at hm
    obtain ⟨arena, ha⟩ := mem_keys_iff.1 hm
    exact hno₄ (m, arena) ((S.visit_perm _).mem_iff.2 (mem_entries_iff.2 ha)) page
  have hk₄ : KVArena p₄ := by
    have hkq : KVArena q := hk₂.congr rfl rfl rfl rfl
    exact (hkq.sameKV htab.sameKV).sameKV hkv₄
  have hsub₄ : List.Sublist (Pool.ranges { p₄ with stableWeights := .empty }) p₄.ranges := by
    unfold ranges arenas
    refine (List.Sublist.append_right ?_ _).cons_cons _
    exact nil_sublist _
  have hald : p₄.bindingAliases.entries = [] := map_eq_nil_iff.1 hbindings₄
  rw [hclear]
  refine ⟨?_, hk₄.congr rfl rfl rfl rfl, ?_, ?_, ?_, rfl, hbindings₄⟩
  · refine Sound.retable h₄ rfl rfl rfl rfl rfl ?_ ?_ (h₄.ranges_nodup.sublist hsub₄)
      (fun r hr => h₄.ranges_le r (hsub₄.subset hr))
      h₄.kvRange ?_
    · unfold held
      rw [hstb₄]
      exact List.Perm.refl _
    · unfold aliased
      simp only [hald, flatMap_nil]
    · intro m hm
      change m ∈ p₄.bindingAliases.keys at hm
      rw [hbindings₄] at hm
      cases hm
  · exact hlog₄.trans (hlog₃.trans (hlog₂.trans hlog₁))
  · change p₄.kvBlocks.entries = []
    rw [hkv₄.kvBlocks, htab.kvBlocks]
    exact hbks₂
  · change p₄.granularity = _
    rw [hkv₄.granularity, htab.granularity]
    exact hshr₂.granularity.trans hkv₁.granularity

end ServerlessLLM.Vmm.Pool

/-! ## Runs -/

namespace ServerlessLLM.Vmm

open List

/-- How `VmmVRAMManager` maps pages of a model: it protects the model. -/
def Op.Protects : Op → Prop
  | .mapStableWeight model protectedModels => model ∈ protectedModels
  | .mapStablePages model _ protectedModels => model ∈ protectedModels
  | _ => True

def Op.releases : Op → Nat → Bool
  | .releaseKVBlocks logicalIds, logicalId => logicalId ∈ logicalIds
  | .cleanKV, _ => true
  | .clear, _ => true
  | _, _ => false

namespace Pool

variable {S : Surroundings} {p p' : Pool} {lost : List Nat}

theorem create_spec {native requested capacity : Nat} {memory : Handle → Nat → UInt8}
    (h : create native requested capacity memory = some p) :
    Sound p [] [] ∧ KVArena p ∧ p.log = [] ∧ p.stableWeights = .empty ∧ p.weights = .empty ∧ p.kvBlocks.entries = [] := by
  unfold create at h
  simp only [Option.dite_none_right_eq_some, Option.ite_none_left_eq_some, Option.some.injEq] at h
  obtain ⟨hgran, -, rfl⟩ := h
  refine ⟨⟨?_, rfl, ?_, ?_, ?_, ?_, ?_⟩, ⟨?_, ?_, ?_⟩, rfl, rfl, rfl, rfl⟩
  · exact FreeList.Accounts.init _
  · exact List.Perm.refl _
  · exact nodup_singleton 1
  · intro r hr
    obtain rfl := mem_singleton.1 hr
    exact ⟨Nat.one_pos, Nat.le_refl 1⟩
  · simp
  · exact fun m hm => hm
  · exact length_replicate
  · exact Slots.Covers.nil _
  · simp

/-- What a call does to the invariants and to the log. -/
structure Stepped (c : Surroundings × Op) (lost : List Nat) (p p' : Pool) : Prop where
  arena : KVArena p'
  sound : ∃ lost', Sound p' [] lost' ∧ (c.1.MapsExtents → lost' = lost)
  log : c.1.MapsExtents → lost = [] → c.2.Protects → ∀ f ∈ p'.log, f ∈ p.log ∨ ∃ c, f = .cuda c

variable {c : Surroundings × Op}

theorem Stepped.of_sound (hs : Sound p' [] lost) (hk : KVArena p')
    (hlog : ∀ f ∈ p'.log, f ∈ p.log ∨ ∃ c, f = .cuda c) : Stepped c lost p p' :=
  ⟨hk, ⟨lost, hs, fun _ => rfl⟩, fun _ _ _ => hlog⟩

theorem beginStableBinding_tables (S : Surroundings) (p : Pool) (model : String) :
    SameKV { p with bindingAliases := (p.beginStableBinding S model).2.bindingAliases } (p.beginStableBinding S model).2 ∧
      (p.beginStableBinding S model).2.stableWeights = p.stableWeights ∧ (p.beginStableBinding S model).2.weights = p.weights ∧
      ∀ f ∈ (p.beginStableBinding S model).2.log, f ∈ p.log ∨ ∃ c, f = .cuda c := by
  have hflt : ∀ (c : Call), ∀ f ∈ p.log ++ [Fault.cuda c], f ∈ p.log ∨ ∃ c, f = .cuda c := by
    intro c f hf
    rcases mem_append.1 hf with hf | hf
    · exact .inl hf
    · exact .inr ⟨_, mem_singleton.1 hf⟩
  unfold beginStableBinding Driver.cuMemCreate
  split
  · exact ⟨SameKV.refl p, rfl, rfl, fun f hf => .inl hf⟩
  · by_cases hok : S.succeeds .createAlias p.driver.calls = true
    · simp only [hok, if_true]
      obtain ⟨fault, added, d, heq, -, hrgs, hmry, -, -, hfaults⟩ := aliasPages_spec S model (.alias p.driver.aliases)
        (range (p.arenaPages model)) [] (p := p.withDriver { p.driver.called with aliases := p.driver.aliases + 1 })
      rw [heq]
      cases fault with
      | none =>
        exact ⟨⟨rfl, rfl, rfl, rfl, rfl, rfl, rfl, rfl, Nat.le_of_eq hrgs.symm, hmry⟩, rfl, rfl, fun f hf => .inl hf⟩
      | some fault =>
        simp only
        obtain ⟨d', heq', hrgs', hmry', -⟩ := unmapPages_spec
          (((p.withDriver { p.driver.called with aliases := p.driver.aliases + 1 }).withDriver d).logged fault) model added
        obtain ⟨c, rfl⟩ := hfaults fault rfl
        rw [nil_append, heq']
        exact ⟨⟨rfl, rfl, rfl, rfl, rfl, rfl, rfl, rfl, Nat.le_of_eq (hrgs'.trans hrgs).symm, hmry'.trans hmry⟩, rfl,
          rfl, hflt c⟩
    · simp only [if_neg hok]
      exact ⟨⟨rfl, rfl, rfl, rfl, rfl, rfl, rfl, rfl, Nat.le_refl _, rfl⟩, rfl, rfl, hflt _⟩

theorem reserveStableWeight_tables (S : Surroundings) (p : Pool) (model : String) (bytes : Nat) (sensitivity : ℚ) :
    (p.reserveStableWeight S model bytes sensitivity).2.granularity = p.granularity ∧
      (p.reserveStableWeight S model bytes sensitivity).2.pageCapacity = p.pageCapacity ∧
      (p.reserveStableWeight S model bytes sensitivity).2.kvVaSlots = p.kvVaSlots ∧
      (p.reserveStableWeight S model bytes sensitivity).2.kvBlocks = p.kvBlocks ∧
      ∀ f ∈ (p.reserveStableWeight S model bytes sensitivity).2.log, f ∈ p.log ∨ ∃ c, f = .cuda c := by
  unfold reserveStableWeight Driver.cuMemAddressReserve
  split
  · exact ⟨rfl, rfl, rfl, rfl, fun f hf => .inl hf⟩
  · by_cases hok : S.succeeds .reserveArena p.driver.calls = true
    · simp only [hok, if_true]
      exact ⟨rfl, rfl, rfl, rfl, fun f hf => .inl hf⟩
    · simp only [if_neg hok]
      refine ⟨rfl, rfl, rfl, rfl, ?_⟩
      intro f hf
      rcases mem_append.1 hf with hf | hf
      · exact .inl hf
      · exact .inr ⟨_, mem_singleton.1 hf⟩

theorem stepped_mapStablePages (c : Surroundings × Op) (model : String) (requested : List Nat) (protectedModels : List String)
    (hprotects : c.2.Protects → model ∈ protectedModels) (h : Sound p [] lost) (hk : KVArena p) :
    Stepped c lost p (p.mapStablePages c.1 model requested protectedModels).2 := by
  obtain ⟨r, p', heq, hsnd, hkv, hlog, -⟩ := mapStablePages_spec c.1 model requested protectedModels h
  rw [heq]
  exact ⟨hk.sameKV hkv, ⟨lost, hsnd, fun _ => rfl⟩, fun _ hlost hp => hlog hlost (hprotects hp)⟩

theorem step_spec (h : Sound p [] lost) (hk : KVArena p) (hst : p.step c = some p') : Stepped c lost p p' := by
  obtain ⟨S, op⟩ := c
  have hsa : ∀ f ∈ p.log, f ∈ p.log ∨ ∃ c, f = .cuda c := fun f hf => .inl hf
  cases op with
  | setModelAccessCount model count =>
    cases hst
    exact .of_sound (h.like ⟨⟨rfl, rfl, rfl, rfl, Nat.le_refl _, rfl, rfl⟩, rfl, rfl, rfl, rfl, rfl⟩)
      (hk.congr rfl rfl rfl rfl) hsa
  | reserveStableWeight model bytes sensitivity =>
    cases hst
    obtain ⟨hg, hc, hs, hb, hlog⟩ := reserveStableWeight_tables S p model bytes sensitivity
    exact .of_sound (h.reserveStableWeight S model bytes sensitivity) (hk.congr hg hc hs hb) hlog
  | dropStableWeight model releaseVa =>
    unfold step at hst
    simp only [Option.ite_none_left_eq_some, Option.some.injEq] at hst
    obtain ⟨hb, rfl⟩ := hst
    have hrel := released_arena p model
    have hk' := hk.sameKV hrel.toSameKV
    have hlog : (p.dropStableWeight model releaseVa).log = p.log ∧ KVArena (p.dropStableWeight model releaseVa) := by
      rw [dropStableWeight_eq]
      split
      · exact ⟨hrel.log, hk'.congr rfl rfl rfl rfl⟩
      · exact ⟨hrel.log, hk'⟩
    exact .of_sound (h.dropStableWeight model releaseVa hb) hlog.2 (by rw [hlog.1]; exact hsa)
  | retainStablePages model retainedPages =>
    cases hst
    have hrel := released_retainStablePages S p model retainedPages
    exact .of_sound (hrel.sound _ _ h) (hk.sameKV hrel.toSameKV) (by rw [hrel.log]; exact hsa)
  | beginStableBinding model =>
    cases hst
    obtain ⟨hkv, -, -, hlog⟩ := beginStableBinding_tables S p model
    have hba : KVArena { p with bindingAliases := (p.beginStableBinding S model).2.bindingAliases } := hk.congr rfl rfl rfl rfl
    exact .of_sound (h.beginStableBinding S model) (hba.sameKV hkv) hlog
  | endStableBinding model =>
    cases hst
    obtain ⟨hkv, hlog, -⟩ := endStableBinding_tables p model
    have hba : KVArena { p with bindingAliases := (p.endStableBinding model).2.bindingAliases } := hk.congr rfl rfl rfl rfl
    exact .of_sound (h.endStableBinding model) (hba.sameKV hkv) (by rw [hlog]; exact hsa)
  | rollbackStablePages model pages =>
    cases hst
    have hrel := released_releaseStablePages p model pages
    exact .of_sound (hrel.sound _ _ h) (hk.sameKV hrel.toSameKV) (by rw [rollbackStablePages, hrel.log]; exact hsa)
  | mapStableWeight model protectedModels =>
    cases hst
    exact stepped_mapStablePages (S, _) model _ protectedModels id h hk
  | mapStablePages model requestedPages protectedModels =>
    cases hst
    exact stepped_mapStablePages (S, _) model requestedPages protectedModels id h hk
  | mapWeight fp bytes sensitivity protectedFps =>
    cases hst
    obtain ⟨r, p', heq, hkv, hsnd, hlog⟩ := mapWeight_spec S fp bytes sensitivity protectedFps h
    rw [heq]
    exact ⟨hk.sameKV hkv, hsnd, fun _ hlost _ => hlog hlost⟩
  | allocateKVBlocks blockSize logicalIds protectedFps =>
    cases hst
    obtain ⟨r, p', heq, hkv, -⟩ := allocateKVBlocks_spec S blockSize logicalIds protectedFps h hk
    rw [heq]
    exact ⟨hkv.arena, hkv.sound, fun hmaps hlost _ => hkv.log hmaps hlost⟩
  | releaseKVBlocks logicalIds =>
    cases hst
    obtain ⟨hs, hk', -, hlog, -⟩ := releaseKVBlocks_spec h hk [] logicalIds
    exact .of_sound hs hk' (by rw [hlog]; exact hsa)
  | mapKV blockSize blockCount protectedFps =>
    cases hst
    obtain ⟨r, p', heq, hk', -, -, hsnd, hlog, -⟩ := mapKV_spec S blockSize blockCount protectedFps h hk
    rw [heq]
    exact ⟨hk', hsnd, fun _ hlost _ => hlog hlost⟩
  | cleanKV =>
    cases hst
    obtain ⟨hs, hk', -, hlog, -⟩ := cleanKV_spec S h hk []
    exact .of_sound hs hk' (by rw [hlog]; exact hsa)
  | clear =>
    cases hst
    obtain ⟨hs, hk', hlog, -⟩ := clear_spec S h hk
    exact .of_sound hs hk' (by rw [hlog]; exact hsa)

/-- The invariants of a pool, with some extents lost. -/
def Reached (p : Pool) : Prop := (∃ lost, Sound p [] lost) ∧ KVArena p

theorem Reached.step (h : Reached p) (hst : p.step c = some p') : Reached p' := by
  obtain ⟨⟨lost, hs⟩, hk⟩ := h
  have hsp := step_spec hs hk hst
  obtain ⟨lost', hs', -⟩ := hsp.sound
  exact ⟨⟨lost', hs'⟩, hsp.arena⟩

theorem throughout_reached (h : Reached p) (cs : List (Surroundings × Op)) : Runs.Throughout Pool.step Reached p cs :=
  Runs.throughout_of_eachStep (P := fun _ _ => True) (fun _ _ _ hq _ hst => hq.step hst) h
    (Runs.eachStep_of_forall fun _ _ => trivial)

/-- One pool comes to another by calls, and by writes to its memory. -/
inductive Goes (S : Surroundings) : Pool → Pool → Prop where
  | refl (p : Pool) : Goes S p p
  | call {p p' p'' : Pool} (op : Op) : Goes S p p' → p'.step (S, op) = some p'' → Goes S p p''
  | write {p p' : Pool} (d : Driver) : Goes S p p' → d.mapped = p'.driver.mapped → d.ranges = p'.driver.ranges →
      Goes S p (p'.withDriver d)

theorem Goes.reached (h : Goes S p p') (hr : Reached p) : Reached p' := by
  induction h with
  | refl => exact hr
  | call op _ hst ih => exact ih.step hst
  | write d _ hmpd hrgs ih =>
    obtain ⟨⟨lost, hs⟩, hk⟩ := ih
    exact ⟨⟨lost, hs.like (like_withDriver _ (Nat.le_of_eq hrgs.symm) hmpd)⟩, hk.congr rfl rfl rfl rfl⟩

theorem Goes.sound (h : Goes S p p') (hS : S.MapsExtents) (hs : Sound p [] []) (hk : KVArena p) :
    Sound p' [] [] ∧ KVArena p' := by
  induction h with
  | refl => exact ⟨hs, hk⟩
  | call op _ hst ih =>
    have hsp := step_spec ih.1 ih.2 hst
    obtain ⟨lost', hs', hlost⟩ := hsp.sound
    obtain rfl := hlost hS
    exact ⟨hs', hsp.arena⟩
  | write d _ hmpd hrgs ih =>
    exact ⟨ih.1.like (like_withDriver _ (Nat.le_of_eq hrgs.symm) hmpd), ih.2.congr rfl rfl rfl rfl⟩

theorem step_blocks (h : Sound p [] lost) (hk : KVArena p) (hst : p.step c = some p') :
    p'.granularity = p.granularity ∧ ((∃ size ids protectedFps, c.2 = .allocateKVBlocks size ids protectedFps) ∨
      p'.kvBlocks.entries = p.kvBlocks.entries.filter fun e => !c.2.releases e.1) := by
  obtain ⟨S, op⟩ := c
  have hkeep : ∀ {q : Pool}, q.kvBlocks = p.kvBlocks → q.kvBlocks.entries = p.kvBlocks.entries.filter fun _ => !false := by
    rintro q h
    simp [h]
  cases op with
  | setModelAccessCount model count =>
    cases hst
    exact ⟨rfl, .inr (hkeep rfl)⟩
  | reserveStableWeight model bytes sensitivity =>
    cases hst
    obtain ⟨hg, -, -, hb, -⟩ := reserveStableWeight_tables S p model bytes sensitivity
    exact ⟨hg, .inr (hkeep hb)⟩
  | dropStableWeight model releaseVa =>
    unfold step at hst
    simp only [Option.ite_none_left_eq_some, Option.some.injEq] at hst
    obtain ⟨-, rfl⟩ := hst
    have hrel := released_arena p model
    rw [dropStableWeight_eq]
    split
    · exact ⟨hrel.granularity, .inr (hkeep hrel.kvBlocks)⟩
    · exact ⟨hrel.granularity, .inr (hkeep hrel.kvBlocks)⟩
  | retainStablePages model retainedPages =>
    cases hst
    have hrel := released_retainStablePages S p model retainedPages
    exact ⟨hrel.granularity, .inr (hkeep hrel.kvBlocks)⟩
  | beginStableBinding model =>
    cases hst
    have hkv := (beginStableBinding_tables S p model).1
    exact ⟨hkv.granularity, .inr (hkeep hkv.kvBlocks)⟩
  | endStableBinding model =>
    cases hst
    have hkv := (endStableBinding_tables p model).1
    exact ⟨hkv.granularity, .inr (hkeep hkv.kvBlocks)⟩
  | rollbackStablePages model pages =>
    cases hst
    have hrel := released_releaseStablePages p model pages
    exact ⟨hrel.granularity, .inr (hkeep hrel.kvBlocks)⟩
  | mapStableWeight model protectedModels =>
    cases hst
    obtain ⟨r, p', heq, -, hkv, -⟩ := mapStablePages_spec S model (range (p.arenaPages model)) protectedModels h
    unfold mapStableWeight
    rw [heq]
    exact ⟨hkv.granularity, .inr (hkeep hkv.kvBlocks)⟩
  | mapStablePages model requestedPages protectedModels =>
    cases hst
    obtain ⟨r, p', heq, -, hkv, -⟩ := mapStablePages_spec S model requestedPages protectedModels h
    rw [heq]
    exact ⟨hkv.granularity, .inr (hkeep hkv.kvBlocks)⟩
  | mapWeight fp bytes sensitivity protectedFps =>
    cases hst
    obtain ⟨r, p', heq, hkv, -⟩ := mapWeight_spec S fp bytes sensitivity protectedFps h
    rw [heq]
    exact ⟨hkv.granularity, .inr (hkeep hkv.kvBlocks)⟩
  | allocateKVBlocks blockSize logicalIds protectedFps =>
    cases hst
    obtain ⟨r, p', heq, hkv, -⟩ := allocateKVBlocks_spec S blockSize logicalIds protectedFps h hk
    rw [heq]
    exact ⟨hkv.shrunk.granularity, .inl ⟨_, _, _, rfl⟩⟩
  | releaseKVBlocks logicalIds =>
    cases hst
    obtain ⟨-, -, hshr, -, -, -, hbks⟩ := releaseKVBlocks_spec h hk [] logicalIds
    exact ⟨hshr.granularity, .inr (hbks.trans (by simp [Op.releases]))⟩
  | mapKV blockSize blockCount protectedFps =>
    cases hst
    obtain ⟨r, p', heq, -, hshr, hbks, -⟩ := mapKV_spec S blockSize blockCount protectedFps h hk
    rw [heq]
    exact ⟨hshr.granularity, .inr (hkeep hbks)⟩
  | cleanKV =>
    cases hst
    obtain ⟨-, -, hshr, -, hbks, -⟩ := cleanKV_spec S h hk []
    exact ⟨hshr.granularity, .inr (hbks.trans (by simp [Op.releases]))⟩
  | clear =>
    cases hst
    obtain ⟨-, -, -, hbks, hg, -⟩ := clear_spec S h hk
    exact ⟨hg, .inr (hbks.trans (by simp [Op.releases]))⟩

end Pool

end ServerlessLLM.Vmm
