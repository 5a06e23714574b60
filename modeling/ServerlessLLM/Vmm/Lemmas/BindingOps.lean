import ServerlessLLM.Vmm.Lemmas.EvictionOps

/-!
# Arenas that come and go, and bindings

A new arena has no page yet, and an arena that is given up has none any more.
-/

namespace ServerlessLLM.Vmm.Pool

open List Dict Pool

section

variable {S : Surroundings} {p p' p'' : Pool} {model : String} {page id : Nat}
  {inflight : List (PageAddr × Nat)} {lost : List Nat}
  {gone gone' : Nat → Prop}

/-- Some pages of a model lose their extents. -/
structure Released (model : String) (gone : Nat → Prop) (p p' : Pool) : Prop extends SameKV p p' where
  weights : p'.weights = p.weights
  log : p'.log = p.log
  free : ∀ page, gone page → p'.extentOf model page = none
  others : ∀ m page, ¬(m = model ∧ gone page) → p'.extentOf m page = p.extentOf m page
  sound : ∀ inflight lost, Sound p inflight lost → Sound p' inflight lost

namespace Released

theorem refl (model : String) (p : Pool) : Released model (fun _ => False) p p :=
  ⟨SameKV.refl p, rfl, rfl, fun _ h => h.elim, fun _ _ _ => rfl, fun _ _ h => h⟩

theorem trans (h : Released model gone p p') (h' : Released model gone' p' p'') :
    Released model (fun page => gone page ∨ gone' page) p p'' where
  toSameKV := h.toSameKV.trans h'.toSameKV
  weights := h'.weights.trans h.weights
  log := h'.log.trans h.log
  free := by
    intro page hp
    by_cases hg : gone' page
    · exact h'.free page hg
    · rw [h'.others model page fun hb => hg hb.2]
      exact h.free page (hp.resolve_right hg)
  others := by
    intro m page hb
    rw [h'.others m page fun hb' => hb ⟨hb'.1, .inr hb'.2⟩]
    exact h.others m page fun hb' => hb ⟨hb'.1, .inl hb'.2⟩
  sound inflight lost hs := h'.sound inflight lost (h.sound inflight lost hs)

theorem mono (h : Released model gone p p') (hgone : ∀ page, gone page → gone' page)
    (hno : ∀ page, gone' page → ¬gone page → p.extentOf model page = none) : Released model gone' p p' where
  toSameKV := h.toSameKV
  weights := h.weights
  log := h.log
  free := by
    intro page hp
    by_cases hg : gone page
    · exact h.free page hg
    · rw [h.others model page fun hb => hg hb.2]
      exact hno page hp hg
  others m page hb := h.others m page fun hb' => hb ⟨hb'.1, hgone page hb'.2⟩
  sound := h.sound

theorem shrinks (h : Released model gone p p') {m : String} (hid : p'.extentOf m page = some id) :
    p.extentOf m page = some id := by
  by_cases hb : m = model ∧ gone page
  · rw [hb.1, h.free page hb.2] at hid
    cases hid
  · rwa [h.others m page hb] at hid

end Released

theorem released_releaseStablePages (p : Pool) (model : String) (l : List Nat) :
    Released model (· ∈ l) p (p.releaseStablePages model l) where
  toSameKV := sameKV_releaseStablePages p model l
  weights := weights_releaseStablePages p model l
  log := log_releaseStablePages p model l
  free page hp := by rw [extentOf_releaseStablePages, if_pos ⟨rfl, hp⟩]
  others m page hb := by rw [extentOf_releaseStablePages, if_neg hb]
  sound _ _ h := h.releaseStablePages model l

theorem released_called (p : Pool) (model : String) {d : Driver} (hd : d = p.driver.called) :
    Released model (fun _ => False) p (p.withDriver d) := by
  subst hd
  have htab : SameTables p (p.withDriver p.driver.called) := sameTables_withDriver p (Nat.le_refl _) rfl
  exact ⟨htab.sameKV, rfl, rfl, fun _ h => h.elim, fun _ _ _ => rfl,
    fun _ _ h => h.like (like_withDriver p (Nat.le_refl _) rfl)⟩

/-! ## `RetainStablePages` -/

theorem releaseStablePageMetadata_withDriver (p : Pool) (model : String) (page : Nat) (d : Driver) :
    (p.withDriver d).releaseStablePageMetadata model page = (p.releaseStablePageMetadata model page).withDriver d := by
  have hext : (p.withDriver d).extentOf model page = p.extentOf model page := rfl
  unfold releaseStablePageMetadata
  rw [hext]
  cases p.extentOf model page <;> rfl

theorem metadata_after_unmap (model : String) {l : List Nat} (hnd : l.Nodup) (hres : ∀ page ∈ l, p.extentOf model page ≠ none)
    {va : Nat} (hva : ∀ page, p.pageAddr model page = ⟨va, page⟩) :
    l.foldl (fun p page => p.releaseStablePageMetadata model page)
      (p.withDriver ((l.map fun page => (⟨va, page⟩ : PageAddr)).foldl Driver.cuMemUnmap p.driver)) =
        p.releaseStablePages model l := by
  unfold releaseStablePages
  induction l generalizing p with
  | nil => rfl
  | cons page l ih =>
    obtain ⟨hnot, hnd⟩ := nodup_cons.1 hnd
    rw [map_cons, foldl_cons, foldl_cons, foldl_cons, releaseStablePageMetadata_withDriver]
    have hrls : p.releaseStablePage model page =
        (p.releaseStablePageMetadata model page).withDriver (p.driver.cuMemUnmap ⟨va, page⟩) := by
      obtain ⟨id, hid⟩ := Option.ne_none_iff_exists'.1 (hres page mem_cons_self)
      unfold releaseStablePage
      rw [hid]
      simp only
      rw [releaseStablePageMetadata_withDriver, hva]
    have hshapes := (sameKV_releaseStablePage p model page).shapes
    have hnx := ih (p := p.releaseStablePage model page) hnd (fun page' hp => ?_) fun page' => ?_
    · rw [← hnx, hrls]
      rfl
    · rw [extentOf_releaseStablePage, if_neg (by rintro ⟨-, rfl⟩; exact hnot hp)]
      exact hres page' (mem_cons_of_mem _ hp)
    · rw [pageAddr_congr (arenas_congr hshapes)]
      exact hva page'

theorem flushRun_eq (S : Surroundings) {first n : Nat} (hn : n ≠ 0)
    (hres : ∀ page ∈ range' first n, p.extentOf model page ≠ none) :
    p.flushRun S model (range' first n) = (p.withDriver p.driver.called).releaseStablePages model (range' first n) := by
  obtain ⟨k, rfl⟩ := Nat.exists_eq_succ_of_ne_zero hn
  have hcons : range' first (k + 1) = first :: range' (first + 1) k := range'_succ
  unfold flushRun
  rw [hcons]
  simp only
  rw [← hcons, length_range']
  have haddr : ∀ page, p.pageAddr model page = ⟨(p.pageAddr model first).range, page⟩ := fun page => rfl
  have hrun : ((range (k + 1)).map fun i => (⟨(p.pageAddr model first).range, (p.pageAddr model first).page + i⟩ : PageAddr)) =
      (range' first (k + 1)).map fun page => ⟨(p.pageAddr model first).range, page⟩ := by
    rw [range'_eq_map_range, map_map]
    rfl
  by_cases hok : (p.driver.cuMemUnmapRun S (p.pageAddr model first) (k + 1)).1 = true
  · have hdrv : (p.driver.cuMemUnmapRun S (p.pageAddr model first) (k + 1)).2 =
        ((range' first (k + 1)).map fun page => (⟨(p.pageAddr model first).range, page⟩ : PageAddr)).foldl Driver.cuMemUnmap
          p.driver.called := by
      unfold Driver.cuMemUnmapRun at hok ⊢
      rw [hrun] at hok ⊢
      by_cases hif : S.succeeds .unmapRun p.driver.calls = true ∧
          ∀ b ∈ (range' first (k + 1)).map fun page => (⟨(p.pageAddr model first).range, page⟩ : PageAddr),
            p.driver.mapped.get? b ≠ none
      · simp only [if_pos hif]
      · simp only [if_neg hif] at hok
        cases hok
    rw [if_pos hok, hdrv]
    exact metadata_after_unmap (p := p.withDriver p.driver.called) model nodup_range' hres haddr
  · have hdrv : (p.driver.cuMemUnmapRun S (p.pageAddr model first) (k + 1)).2 = p.driver.called := by
      unfold Driver.cuMemUnmapRun at hok ⊢
      simp only at hok ⊢
      split
      · rename_i hif
        rw [if_pos hif] at hok
        exact absurd rfl hok
      · rfl
    rw [if_neg hok, hdrv]

theorem released_flushRun (S : Surroundings) {first n : Nat} (hres : ∀ page ∈ range' first n, p.extentOf model page ≠ none) :
    Released model (· ∈ range' first n) p (p.flushRun S model (range' first n)) := by
  rcases Nat.eq_zero_or_pos n with rfl | hn
  · exact (Released.refl model p).mono (fun _ h => h.elim) fun _ h => by simp at h
  · rw [flushRun_eq S (by omega) hres]
    refine ((released_called p model rfl).trans (released_releaseStablePages _ model _)).mono ?_ ?_
    · intro page hp
      exact hp.resolve_left id
    · intro page hp hnot
      exact absurd (Or.inr hp) hnot

theorem released_retainBatch (S : Surroundings) (model : String) (retainedPages : List Nat) (k first n : Nat)
    (hrun : ∀ page ∈ range' first n, p.extentOf model page ≠ none ∧ page ∉ retainedPages) :
    Released model (fun page => page ∈ range' first (n + k) ∧ page ∉ retainedPages) p
      (retainBatch S model retainedPages (range' (first + n) k) (range' first n) p) := by
  induction k generalizing p first n with
  | zero =>
    refine (released_flushRun S fun page hp => (hrun page hp).1).mono (fun page hp => ⟨hp, (hrun page hp).2⟩) ?_
    exact fun page hp hnot => absurd hp.1 hnot
  | succ k ih =>
    rw [range'_succ]
    unfold retainBatch
    split
    · rename_i hpg
      have hsnoc : range' first n ++ [first + n] = range' first (n + 1) := by
        rw [range'_concat, Nat.one_mul]
      have hnx := ih first (n + 1) (p := p) (by
        intro page hp
        rw [← hsnoc, mem_append, mem_singleton] at hp
        rcases hp with hp | rfl
        · exact hrun page hp
        · exact hpg)
      rw [hsnoc]
      rw [Nat.add_right_comm] at hnx
      exact hnx
    · rename_i hpg
      have hflush := released_flushRun S (p := p) fun page hp => (hrun page hp).1
      have hnx := ih (first + n + 1) 0 (p := p.flushRun S model (range' first n)) (by simp)
      rw [range'_zero, Nat.add_zero, Nat.zero_add] at hnx
      refine (hflush.trans hnx).mono ?_ ?_
      · intro page hp
        rcases hp with hp | ⟨hp, hkeep⟩
        · refine ⟨?_, (hrun page hp).2⟩
          rw [mem_range'_1] at hp ⊢
          omega
        · refine ⟨?_, hkeep⟩
          rw [mem_range'_1] at hp ⊢
          omega
      · intro page hp hnot
        -- the page between the run and the rest
        have heq : page = first + n := by
          by_contra hne
          refine hnot ?_
          have hmem := hp.1
          rw [mem_range'_1] at hmem
          rcases Nat.lt_or_ge page (first + n) with hlt | hge
          · exact .inl (mem_range'_1.2 ⟨hmem.1, hlt⟩)
          · exact .inr ⟨mem_range'_1.2 ⟨by omega, by omega⟩, hp.2⟩
        by_contra hso
        exact hpg ⟨heq ▸ hso, heq ▸ hp.2⟩

theorem released_retainStablePages (S : Surroundings) (p : Pool) (model : String) (retainedPages : List Nat) :
    Released model (· ∉ retainedPages) p (p.retainStablePages S model retainedPages).2 := by
  have hno : ∀ page, ¬page < p.arenaPages model → p.extentOf model page = none := by
    intro page hge
    by_contra hso
    obtain ⟨id, hid⟩ := Option.ne_none_iff_exists'.1 hso
    exact hge (lt_arenaPages_of_extentOf hid)
  unfold retainStablePages
  split
  · rename_i hm
    refine (Released.refl model p).mono (fun _ h => h.elim) fun page _ _ => hno page ?_
    unfold arenaPages
    rw [get?_eq_none_iff.2 hm]
    exact Nat.not_lt_zero _
  · simp only
    split
    · have hbat := released_retainBatch (p := p) S model retainedPages (p.arenaPages model) 0 0 (by simp)
      rw [range'_zero, Nat.zero_add, Nat.zero_add, ← range_eq_range'] at hbat
      refine hbat.mono (fun page hp => hp.2) fun page hp hnot => hno page fun hlt => hnot ⟨mem_range.2 hlt, hp⟩
    · refine (released_releaseStablePages p model _).mono (fun page hp => of_decide_eq_true (mem_filter.1 hp).2) ?_
      intro page hp hnot
      exact hno page fun hlt => hnot (mem_filter.2 ⟨mem_range.2 hlt, decide_eq_true hp⟩)

end

section

variable {S : Surroundings} {p p' : Pool} {model : String} {page id : Nat} {inflight : List (PageAddr × Nat)} {lost : List Nat}
  {handle : Handle}

/-! ## Arenas -/

theorem held_replicate_none (va bytes : Nat) (sensitivity : ℚ) (n : Nat) (l : List Nat) :
    (⟨va, bytes, sensitivity, replicate n none, l⟩ : StableWeightArena).held = [] := by
  unfold StableWeightArena.held
  rw [filterMap_eq_nil_iff]
  rintro ⟨x, page⟩ hx
  rw [mk_mem_zipIdx_iff_getElem?] at hx
  obtain ⟨hlt, heq⟩ := List.getElem?_eq_some_iff.1 hx
  rw [getElem_replicate] at heq
  subst heq
  rfl

theorem pageAddr_of_get? (h : p'.stableWeights.get? model = p.stableWeights.get? model) (page : Nat) :
    p'.pageAddr model page = p.pageAddr model page := by
  unfold pageAddr
  rw [h]

theorem aliased_of_get? (hb : p'.bindingAliases = p.bindingAliases)
    (h : ∀ m ∈ p.bindingAliases.keys, p'.stableWeights.get? m = p.stableWeights.get? m) : p'.aliased = p.aliased := by
  unfold aliased
  rw [hb]
  refine flatMap_congr fun e he => map_congr_left ?_
  intro page _
  rw [pageAddr_of_get? (h e.1 (mem_map_of_mem (f := Prod.fst) he))]

theorem Sound.reserveStableWeight (h : Sound p inflight lost) (S : Surroundings) (model : String) (bytes : Nat)
    (sensitivity : ℚ) :
    Sound (p.reserveStableWeight S model bytes sensitivity).2 inflight lost := by
  unfold Pool.reserveStableWeight
  split
  · exact h
  · rename_i hm
    unfold Driver.cuMemAddressReserve
    by_cases hok : S.succeeds .reserveArena p.driver.calls = true
    · simp only [hok, if_true]
      have hent := fun arena => entries_set_of_not_mem hm (v := arena)
      have hfr : p.driver.ranges + 1 ∉ p.ranges := fun hr => by
        have := (h.ranges_le _ hr).2
        omega
      refine h.retable rfl rfl rfl rfl rfl ?_ ?_ ?_ ?_ h.kvRange ?_
      · unfold held stableHeld
        simp only [hent, flatMap_append, flatMap_cons, flatMap_nil, held_replicate_none, append_nil]
        exact List.Perm.refl _
      · refine aliased_of_get? rfl fun m hmem => get?_set_of_ne _ _ ?_
        rintro rfl
        exact hm (h.bound m hmem)
      · -- the new range comes behind those of the other arenas
        unfold ranges arenas at hfr ⊢
        simp only [hent, map_append, map_cons, map_nil, append_assoc]
        rw [singleton_append]
        refine (List.Perm.cons _ perm_middle).nodup_iff.2 ?_
        refine (List.Perm.swap _ _ _).nodup_iff.2 (nodup_cons.2 ⟨hfr, h.ranges_nodup⟩)
      · intro r hr
        have hcases : r = p.driver.ranges + 1 ∨ r ∈ p.ranges := by
          unfold ranges arenas at hr ⊢
          simp only [hent, map_append, map_cons, map_nil, append_assoc, mem_cons, mem_append, not_mem_nil, or_false] at hr ⊢
          tauto
        change 0 < r ∧ r ≤ p.driver.ranges + 1
        rcases hcases with rfl | hmem
        · omega
        · have := h.ranges_le r hmem
          omega
      · intro m hmem
        rw [mem_keys_set]
        exact .inr (h.bound m hmem)
    · simp only [if_neg hok]
      exact (h.like (like_called p)).like (like_logged _ _)

theorem extentOf_reserveStableWeight (S : Surroundings) (p : Pool) (model : String) (bytes : Nat) (sensitivity : ℚ)
    (m : String) (page : Nat) :
    (p.reserveStableWeight S model bytes sensitivity).2.extentOf m page = p.extentOf m page := by
  unfold reserveStableWeight
  split
  · rfl
  · rename_i hm
    split
    · rfl
    · unfold extentOf
      simp only
      rw [get?_set]
      split
      · rename_i heq
        subst heq
        rw [get?_eq_none_iff.2 hm, Option.bind_some, getD_eq_getElem?_getD, getElem?_replicate]
        split <;> rfl
      · rfl

def withoutArena (p : Pool) (model : String) : Pool := { p with stableWeights := p.stableWeights.erase model }

theorem Sound.withoutArena (h : Sound p inflight lost) (hno : ∀ page, p.extentOf model page = none)
    (hb : model ∉ p.bindingAliases.keys) : Sound (p.withoutArena model) inflight lost := by
  have hne : ∀ m ∈ p.bindingAliases.keys, m ≠ model := fun m hm heq => hb (heq ▸ hm)
  have hsub : List.Sublist (p.withoutArena model).ranges p.ranges := by
    unfold ranges arenas Pool.withoutArena erase
    refine (List.Sublist.append_right ?_ _).cons_cons _
    exact List.Sublist.map _ (List.Sublist.map _ filter_sublist)
  have hstb : (p.withoutArena model).stableHeld = p.stableHeld := by
    have hemp : ∀ e ∈ p.stableWeights.entries, e.1 = model → e.2.held = [] := by
      rintro ⟨m, arena⟩ he rfl
      unfold StableWeightArena.held
      rw [filterMap_eq_nil_iff]
      rintro ⟨x, page⟩ hx
      rw [mk_mem_zipIdx_iff_getElem?] at hx
      cases x with
      | none => rfl
      | some id =>
        have hso := extentOf_eq_some_iff.2 ⟨arena, mem_entries_iff.1 he, hx⟩
        rw [hno] at hso
        cases hso
    have hflr : ∀ l : List (String × StableWeightArena), (∀ e ∈ l, e.1 = model → e.2.held = []) →
        (l.filter fun e => e.1 ≠ model).flatMap (fun e => e.2.held) = l.flatMap fun e => e.2.held := by
      intro l hl
      induction l with
      | nil => rfl
      | cons e l ih =>
        rw [flatMap_cons, ← ih fun e' he' => hl e' (mem_cons_of_mem _ he')]
        by_cases he : e.1 = model
        · rw [filter_cons_of_neg (by simp [he]), hl e mem_cons_self he, nil_append]
        · rw [filter_cons_of_pos (by simp [he]), flatMap_cons]
    exact hflr _ hemp
  refine h.retable rfl rfl rfl rfl rfl ?_ ?_ (h.ranges_nodup.sublist hsub)
    (fun r hr => h.ranges_le r (hsub.subset hr)) h.kvRange
    ?_
  · exact ((List.Perm.of_eq hstb.symm).append_right _).append_right _
  · refine aliased_of_get? rfl ?_
    intro m hm
    exact (get?_erase _ _ _).trans (if_neg (hne m hm))
  · intro m hm
    obtain ⟨arena, ha⟩ := mem_keys_iff.1 (h.bound m hm)
    exact mem_keys_iff.2 ⟨arena, (get?_erase _ _ _).trans ((if_neg (hne m hm)).trans ha)⟩

theorem dropStableWeight_eq (p : Pool) (model : String) (releaseVa : Bool) : p.dropStableWeight model releaseVa =
    if releaseVa then (p.releaseStablePages model (range (p.arenaPages model))).withoutArena model
    else p.releaseStablePages model (range (p.arenaPages model)) := rfl

theorem released_arena (p : Pool) (model : String) :
    Released model (fun _ => True) p (p.releaseStablePages model (range (p.arenaPages model))) := by
  refine (released_releaseStablePages p model _).mono (fun _ _ => trivial) ?_
  intro page _ hnot
  by_contra hso
  obtain ⟨id, hid⟩ := Option.ne_none_iff_exists'.1 hso
  exact hnot (mem_range.2 (lt_arenaPages_of_extentOf hid))

theorem Sound.dropStableWeight (h : Sound p inflight lost) (model : String) (releaseVa : Bool)
    (hb : ¬(releaseVa = true ∧ model ∈ p.bindingAliases.keys)) : Sound (p.dropStableWeight model releaseVa) inflight lost := by
  have hrel := released_arena p model
  rw [dropStableWeight_eq]
  split
  · rename_i hva
    refine (hrel.sound _ _ h).withoutArena (fun page => hrel.free page trivial) ?_
    rw [hrel.bindings]
    exact fun hm => hb ⟨hva, hm⟩
  · exact hrel.sound _ _ h

/-! ## Bindings -/

theorem Sound.remap {d : Driver} (h : Sound p inflight lost) (hr : p.driver.ranges ≤ d.ranges)
    (hpm : d.mapped.entries.Perm p.driver.mapped.entries) : Sound (p.withDriver d) inflight lost :=
  h.of_layout ⟨rfl, rfl, rfl, rfl, hr, rfl, rfl⟩ h.accounts h.used (hpm.trans h.mapped)

/-- The alias pages of a binding, as the driver has them. -/
def aliasesOf (p : Pool) (model : String) (handle : Handle) (pages : List Nat) : List (PageAddr × Handle) :=
  pages.map fun page => (p.pageAddr model page, handle)

theorem aliasPages_spec (S : Surroundings) (model : String) (handle : Handle) (l aliased : List Nat) :
    ∃ fault added d, aliasPages S model handle l aliased p = (fault, aliased ++ added, p.withDriver d) ∧
      d.mapped.entries.Perm (p.aliasesOf model handle added ++ p.driver.mapped.entries) ∧ d.ranges = p.driver.ranges ∧
      d.memory = p.driver.memory ∧ (∀ page ∈ added, page ∈ l ∧ p.extentOf model page = none) ∧
      (fault = none → ∀ page ∈ l, p.extentOf model page = none → page ∈ added) ∧ ∀ f ∈ fault, ∃ c, f = .cuda c := by
  induction l generalizing p aliased with
  | nil => exact ⟨none, [], p.driver, by rw [append_nil]; rfl, List.Perm.refl _, rfl, rfl, by simp, by simp, by simp⟩
  | cons page l ih =>
    unfold aliasPages
    cases hext : p.extentOf model page with
    | some id =>
      obtain ⟨fault, added, d, heq, hpm, hrgs, hmry, hadded, hall, hflt⟩ := ih (p := p) aliased
      refine ⟨fault, added, d, heq, hpm, hrgs, hmry, ?_, ?_, hflt⟩
      · intro page' hp
        exact ⟨mem_cons_of_mem _ (hadded page' hp).1, (hadded page' hp).2⟩
      · intro hf page' hp hno
        rcases mem_cons.1 hp with rfl | hp
        · rw [hext] at hno
          cases hno
        · exact hall hf page' hp hno
    | none =>
      simp only
      rcases Driver.cuMemMap_cases S p.driver .mapAlias (p.pageAddr model page) handle with ⟨hmap, -⟩ | ⟨hunm, hmap⟩
      · rw [hmap]
        exact ⟨_, [], p.driver.called, by rw [append_nil]; rfl, List.Perm.refl _, rfl, rfl, by simp, by simp, by simp⟩
      · rw [hmap]
        let d₁ : Driver := { p.driver.called with mapped := p.driver.mapped.set (p.pageAddr model page) handle }
        have hmpd : d₁.mapped.entries.Perm ((p.pageAddr model page, handle) :: p.driver.mapped.entries) := by
          change (p.driver.mapped.set (p.pageAddr model page) handle).entries.Perm _
          rw [entries_set_of_not_mem (get?_eq_none_iff.1 hunm)]
          exact perm_append_comm
        by_cases hac : (d₁.cuMemSetAccess S .accessAlias).1 = true
        · obtain ⟨fault, added, d, heq, hpm, hrgs, hmry, hadded, hall, hflt⟩ :=
            ih (p := p.withDriver (d₁.cuMemSetAccess S .accessAlias).2) (aliased ++ [page])
          refine ⟨fault, page :: added, d, ?_, ?_, hrgs, hmry, ?_, ?_, hflt⟩
          · rw [append_assoc] at heq
            refine Eq.trans ?_ heq
            change (if (!(d₁.cuMemSetAccess S .accessAlias).1) = true then _ else _) = _
            rw [hac]
            rfl
          · refine hpm.trans (((hmpd.append_left _).trans perm_middle))
          · intro page' hp
            rcases mem_cons.1 hp with rfl | hp
            · exact ⟨mem_cons_self, hext⟩
            · exact ⟨mem_cons_of_mem _ (hadded page' hp).1, (hadded page' hp).2⟩
          · intro hf page' hp hno
            rcases mem_cons.1 hp with rfl | hp
            · exact mem_cons_self
            · exact mem_cons_of_mem _ (hall hf page' hp hno)
        · refine ⟨some (.cuda .accessAlias), [page], (d₁.cuMemSetAccess S .accessAlias).2, ?_, hmpd, rfl, rfl,
            ?_, by simp, by simp⟩
          · change (if (!(d₁.cuMemSetAccess S .accessAlias).1) = true then _ else _) = _
            rw [Bool.not_eq_true] at hac
            rw [hac]
            rfl
          · intro page' hp
            rw [mem_singleton] at hp
            subst hp
            exact ⟨mem_cons_self, hext⟩

theorem unmapPages_spec (p : Pool) (model : String) (l : List Nat) :
    ∃ d, p.unmapPages model l = p.withDriver d ∧ d.ranges = p.driver.ranges ∧ d.memory = p.driver.memory ∧
      ∀ handle rest, p.driver.mapped.entries.Perm (p.aliasesOf model handle l ++ rest) → d.mapped.entries.Perm rest := by
  unfold unmapPages
  induction l generalizing p with
  | nil => exact ⟨p.driver, rfl, rfl, rfl, fun _ _ hpm => hpm⟩
  | cons page l ih =>
    obtain ⟨d, heq, hrgs, hmry, hpm⟩ := ih (p.withDriver (p.driver.cuMemUnmap (p.pageAddr model page)))
    refine ⟨d, heq, hrgs, hmry, fun handle rest hmpd => hpm handle rest ?_⟩
    exact entries_erase_perm hmpd

theorem Sound.bind {d : Driver} {added : List Nat} (h : Sound p inflight lost) (hr : p.driver.ranges ≤ d.ranges)
    (hpm : d.mapped.entries.Perm (p.aliasesOf model handle added ++ p.driver.mapped.entries))
    (hm : model ∈ p.stableWeights.keys) (hb : model ∉ p.bindingAliases.keys) :
    Sound { p.withDriver d with bindingAliases := p.bindingAliases.set model ⟨handle, added⟩ } inflight lost where
  accounts := h.accounts
  used := h.used
  mapped := by
    have hald : aliased { p.withDriver d with bindingAliases := p.bindingAliases.set model ⟨handle, added⟩ } =
        p.aliased ++ p.aliasesOf model handle added := by
      unfold aliased
      simp only [entries_set_of_not_mem hb, flatMap_append, flatMap_cons, flatMap_nil, append_nil]
      rfl
    rw [hald, ← append_assoc]
    exact hpm.trans (perm_append_comm.trans (h.mapped.append_right _))
  ranges_nodup := h.ranges_nodup
  ranges_le r hmem := ⟨(h.ranges_le r hmem).1, (h.ranges_le r hmem).2.trans hr⟩
  kvRange := h.kvRange
  bound := by
    intro m hmem
    rcases mem_keys_set.1 hmem with rfl | hmem
    · exact hm
    · exact h.bound m hmem

theorem Sound.endStableBinding (h : Sound p inflight lost) (model : String) :
    Sound (p.endStableBinding model).2 inflight lost := by
  unfold Pool.endStableBinding
  split
  · exact h
  · cases ha : p.bindingAliases.get? model with
    | none => exact h
    | some aliases =>
      obtain ⟨d, heq, hrgs, -, hunmap⟩ := unmapPages_spec p model aliases.pages
      simp only
      rw [heq]
      have hald : p.aliased.Perm (p.aliasesOf model aliases.handle aliases.pages ++
          aliased { p.withDriver d with bindingAliases := p.bindingAliases.erase model }) :=
        (entries_perm_erase ha).flatMap_right _
      refine ⟨h.accounts, h.used, ?_, h.ranges_nodup, ?_, h.kvRange, ?_⟩
      · refine hunmap aliases.handle _ (h.mapped.trans ((hald.append_left _).trans ?_))
        exact perm_append_comm_assoc _ _ _
      · intro r hr
        exact ⟨(h.ranges_le r hr).1, (h.ranges_le r hr).2.trans (Nat.le_of_eq hrgs.symm)⟩
      · intro m hm
        refine h.bound m ?_
        obtain ⟨aliases', hm'⟩ := mem_keys_iff.1 hm
        refine mem_keys_iff.2 ⟨aliases', ?_⟩
        change (p.bindingAliases.erase model).get? m = some aliases' at hm'
        rw [get?_erase] at hm'
        split at hm'
        · cases hm'
        · exact hm'

theorem Sound.beginStableBinding (h : Sound p inflight lost) (S : Surroundings) (model : String) :
    Sound (p.beginStableBinding S model).2 inflight lost := by
  unfold Pool.beginStableBinding
  split
  · exact h
  · rename_i hmod
    rw [not_or, not_not] at hmod
    unfold Driver.cuMemCreate
    by_cases hok : S.succeeds .createAlias p.driver.calls = true
    · simp only [hok, if_true]
      have h₁ : Sound (p.withDriver { p.driver.called with aliases := p.driver.aliases + 1 }) inflight lost :=
        h.like (like_withDriver p (Nat.le_refl _) rfl)
      obtain ⟨fault, added, d, heq, hpm, hrgs, -⟩ := aliasPages_spec S model (.alias p.driver.aliases)
        (range (p.arenaPages model)) [] (p := p.withDriver { p.driver.called with aliases := p.driver.aliases + 1 })
      rw [nil_append] at heq
      rw [heq]
      cases fault with
      | none =>
        exact h₁.bind (Nat.le_of_eq hrgs.symm) hpm hmod.1 hmod.2
      | some fault =>
        simp only
        obtain ⟨d', heq', hrgs', -, hunmap⟩ := unmapPages_spec
          (((p.withDriver { p.driver.called with aliases := p.driver.aliases + 1 }).withDriver d).logged fault) model added
        rw [heq']
        have h₂ : Sound (p.withDriver d') inflight lost :=
          h.remap (Nat.le_of_eq (hrgs'.trans hrgs).symm) (hunmap (.alias p.driver.aliases) _ hpm)
        exact h₂.like (like_logged _ fault)
    · simp only [if_neg hok]
      exact (h.like (like_called p)).like (like_logged _ _)

end

end ServerlessLLM.Vmm.Pool
