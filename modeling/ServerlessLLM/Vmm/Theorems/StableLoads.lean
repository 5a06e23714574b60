import ServerlessLLM.Library.Sorting
import ServerlessLLM.Vmm.Theorems.Pages

/-!
# Loads of whole arenas

`EstimateStableLoad` sorts the values of all victims at once, while `EnsurePages` takes one victim at a time.
-/

namespace ServerlessLLM.Vmm.Pool

open List Dict Prod Sorting

variable {S : Surroundings} {p p' p₀ : Pool} {model : String} {page id : Nat}
  {inflight : List (PageAddr × Nat)} {lost : List Nat}
  {protectedFps : List String} {s : Search} {x : ℚ}

/-! ## The pages of the other models -/

theorem extentOf_of_mem_entries {e : String × StableWeightArena} (he : e ∈ p.stableWeights.entries) (page : Nat) :
    p.extentOf e.1 page = e.2.physicalExtentIds.getD page none := by
  unfold extentOf
  rw [mem_entries_iff.1 he]
  rfl

theorem pageValue_of_mem_entries {e : String × StableWeightArena} (he : e ∈ p.stableWeights.entries) (page : Nat) :
    p.pageValue (e.1, page) = p.stablePageValue e.1 e.2 page := by
  unfold pageValue
  rw [mem_entries_iff.1 he]
  rfl

theorem mem_otherPages {v : String × Nat} : v ∈ p.otherPages model ↔ v.1 ≠ model ∧ p.extentOf v.1 v.2 ≠ none := by
  obtain ⟨m, page⟩ := v
  unfold otherPages
  simp only [mem_flatMap, mem_filter, mem_map, mem_range, decide_eq_true_eq, Prod.mk.injEq]
  constructor
  · rintro ⟨e, ⟨he, hm⟩, page', ⟨-, hso⟩, rfl, rfl⟩
    rw [extentOf_of_mem_entries he]
    exact ⟨hm, Option.isSome_iff_ne_none.1 hso⟩
  · rintro ⟨hm, hso⟩
    obtain ⟨id, hid⟩ := Option.ne_none_iff_exists'.1 hso
    obtain ⟨arena, ha, -⟩ := extentOf_eq_some_iff.1 hid
    have he : (m, arena) ∈ p.stableWeights.entries := mem_entries_iff.2 ha
    have hlt := lt_arenaPages_of_extentOf hid
    rw [arenaPages_eq ha] at hlt
    rw [extentOf_of_mem_entries he] at hso
    exact ⟨(m, arena), ⟨he, hm⟩, page, ⟨hlt, Option.isSome_iff_ne_none.2 hso⟩, rfl, rfl⟩

theorem nodup_otherPages (p : Pool) (model : String) : (p.otherPages model).Nodup := by
  unfold otherPages
  refine nodup_flatMap.2 ⟨fun e _ => ?_, ?_⟩
  · exact (nodup_range.filter _).map fun _ _ heq => congrArg snd heq
  · refine ((pairwise_map.1 p.stableWeights.nodup).filter _).imp fun {e e'} hne v hv hv' => ?_
    obtain ⟨_, -, rfl⟩ := mem_map.1 hv
    obtain ⟨_, -, heq⟩ := mem_map.1 hv'
    exact hne (congrArg fst heq).symm

theorem otherPages_releaseStablePage {m : String} (hm : m ≠ model) (hid : p.extentOf m page = some id) :
    (p.otherPages model).Perm ((m, page) :: (p.releaseStablePage m page).otherPages model) := by
  have hnot : (m, page) ∉ (p.releaseStablePage m page).otherPages model := by
    rw [mem_otherPages, extentOf_releaseStablePage, if_pos ⟨rfl, rfl⟩]
    exact fun h => h.2 rfl
  refine (perm_ext_iff_of_nodup (nodup_otherPages p model) (nodup_cons.2 ⟨hnot, nodup_otherPages _ model⟩)).2 ?_
  rintro ⟨m', page'⟩
  rw [mem_cons, mem_otherPages, mem_otherPages, extentOf_releaseStablePage, Prod.mk.injEq]
  by_cases hboth : m' = m ∧ page' = page
  · obtain ⟨rfl, rfl⟩ := hboth
    simp [hm, hid]
  · simp [hboth]

theorem pageValue_releaseStablePage (p : Pool) (m : String) (page : Nat) (v : String × Nat) :
    (p.releaseStablePage m page).pageValue v = p.pageValue v := by
  cases hid : p.extentOf m page with
  | none => rw [releaseStablePage_of_none hid]
  | some id =>
    rw [releaseStablePage_of_some hid]
    unfold pageValue setExtent
    simp only
    rw [get?_modify]
    split
    · rename_i heq
      rw [heq]
      change ((Option.map _ (p.stableWeights.get? m)).map _).getD 0 = _
      cases p.stableWeights.get? m <;> rfl
    · rfl

theorem freePages_releaseStablePage (h : Sound p inflight lost) {m : String} (hid : p.extentOf m page = some id) :
    (p.releaseStablePage m page).freePages = p.freePages + 1 := by
  have hle := h.usedPages_le
  have hused := h.used
  unfold held at hused
  rw [length_append, length_append, (stableHeld_setExtent_none hid).length_eq, length_cons] at hused
  rw [releaseStablePage_of_some hid]
  change p.pageCapacity - (p.usedPages - 1) = p.pageCapacity - p.usedPages + 1
  omega

/-! ## The search for a victim -/

/-- The best score so far is at most `x`. -/
def AtMost (s : Search) (x : ℚ) : Prop := ∃ b, s.best = some b ∧ b ≤ x

def Linked (p : Pool) (s : Search) : Prop := ∀ v ∈ s.victim, ∃ m page, v = .stable m page ∧
    s.best = some (p.pageValue (m, page))

theorem atMost_of_not_below (h : ¬s.below x) : AtMost s x := by
  unfold Search.below at h
  push Not at h
  exact h

theorem weighPage_keeps {e : String × StableWeightArena} (h : AtMost s x) (page : Nat) :
    AtMost (p.weighPage e.1 e.2 s page) x := by
  obtain ⟨b, hb, hle⟩ := h
  unfold weighPage
  split
  · exact ⟨b, hb, hle⟩
  · simp only
    split
    · rename_i hless
      rcases hless with hbelow | ⟨hsa, -⟩
      · exact ⟨_, rfl, (hbelow b hb).le.trans hle⟩
      · rw [hb, Option.some.injEq] at hsa
        exact ⟨_, rfl, hsa ▸ hle⟩
    · exact ⟨b, hb, hle⟩

theorem weighPage_atMost {e : String × StableWeightArena} (he : e ∈ p.stableWeights.entries) (hres : p.extentOf e.1 page ≠ none)
    (s : Search) : AtMost (p.weighPage e.1 e.2 s page) (p.pageValue (e.1, page)) := by
  rw [extentOf_of_mem_entries he] at hres
  obtain ⟨id, hid⟩ := Option.ne_none_iff_exists'.1 hres
  rw [pageValue_of_mem_entries he]
  unfold weighPage
  rw [hid]
  simp only
  split
  · exact ⟨_, rfl, le_rfl⟩
  · rename_i hnot
    exact atMost_of_not_below fun hbelow => hnot (.inl hbelow)

theorem weighPage_linked {e : String × StableWeightArena} (he : e ∈ p.stableWeights.entries) (h : Linked p s) (page : Nat) :
    Linked p (p.weighPage e.1 e.2 s page) := by
  unfold weighPage
  split
  · exact h
  · simp only
    split
    · rintro v ⟨⟩
      exact ⟨e.1, page, rfl, by rw [pageValue_of_mem_entries he]⟩
    · exact h

theorem foldl_of_mem {α β : Type} {f : β → α → β} {P : β → Prop} {l : List α} {a : α} (ha : a ∈ l) (hset : ∀ b, P (f b a))
    (hkeep : ∀ b, P b → ∀ a ∈ l, P (f b a)) (b : β) : P (l.foldl f b) := by
  obtain ⟨l₁, l₂, rfl⟩ := append_of_mem ha
  rw [foldl_append, foldl_cons]
  exact foldlRecOn l₂ f (hset _) fun b hb a hmem => hkeep b hb a (by simp [hmem])

theorem weighArena_keeps (e : String × StableWeightArena) (h : AtMost s x) : AtMost (p.weighArena protectedFps s e) x := by
  unfold weighArena
  split
  · exact h
  · exact foldlRecOn (motive := fun s => AtMost s x) _ _ h fun s hs page _ => weighPage_keeps hs page

theorem weighArena_atMost {e : String × StableWeightArena} (he : e ∈ p.stableWeights.entries) (hm : e.1 ∉ protectedFps)
    (hres : p.extentOf e.1 page ≠ none) (s : Search) : AtMost (p.weighArena protectedFps s e) (p.pageValue (e.1, page)) := by
  unfold weighArena
  rw [if_neg hm]
  have hpg : page ∈ range e.2.physicalExtentIds.length := by
    obtain ⟨id, hid⟩ := Option.ne_none_iff_exists'.1 hres
    have hlt := lt_arenaPages_of_extentOf hid
    rw [arenaPages_eq (mem_entries_iff.1 he)] at hlt
    exact mem_range.2 hlt
  exact foldl_of_mem (P := fun s => AtMost s (p.pageValue (e.1, page))) hpg (weighPage_atMost he hres)
    (fun s hs page _ => weighPage_keeps hs page) s

theorem weighArena_linked {e : String × StableWeightArena} (he : e ∈ p.stableWeights.entries) (h : Linked p s) :
    Linked p (p.weighArena protectedFps s e) := by
  unfold weighArena
  split
  · exact h
  · exact foldlRecOn _ _ h fun s hs page _ => weighPage_linked he hs page

theorem findVictim_least (hwts : p.weights.entries = []) {v : Victim} (hv : p.findVictim S protectedFps = some v) :
    ∃ m page id, v = .stable m page ∧ m ∉ protectedFps ∧ p.extentOf m page = some id ∧
      ∀ u : String × Nat, u.1 ∉ protectedFps → p.extentOf u.1 u.2 ≠ none → p.pageValue (m, page) ≤ p.pageValue u := by
  have hmay := (findVictim_spec S p protectedFps).1 v hv
  have hvisit : S.visit p.weights.entries = [] := by
    rw [hwts]
    exact (S.visit_perm []).eq_nil
  unfold findVictim at hv
  simp only [hvisit, foldl_nil] at hv
  have hmem : ∀ e ∈ S.visit p.stableWeights.entries, e ∈ p.stableWeights.entries := fun e he => (S.visit_perm _).mem_iff.1 he
  have hlinked : Linked p ((S.visit p.stableWeights.entries).foldl (p.weighArena protectedFps) ⟨none, 2 ^ 64 - 1, none⟩) :=
    foldlRecOn _ _ (by rintro v ⟨⟩) fun s hs e he => weighArena_linked (hmem e he) hs
  obtain ⟨m, page, rfl, hbest⟩ := hlinked v hv
  obtain ⟨hm, id, hid⟩ := hmay
  refine ⟨m, page, id, rfl, hm, hid, ?_⟩
  rintro ⟨m', page'⟩ hm' hres
  obtain ⟨id', hid'⟩ := Option.ne_none_iff_exists'.1 hres
  obtain ⟨arena, ha, -⟩ := extentOf_eq_some_iff.1 hid'
  have he : (m', arena) ∈ p.stableWeights.entries := mem_entries_iff.2 ha
  obtain ⟨b, hb, hle⟩ := foldl_of_mem (P := fun s => AtMost s (p.pageValue (m', page'))) ((S.visit_perm _).mem_iff.2 he)
    (weighArena_atMost he hm' hres) (fun s hs e _ => weighArena_keeps e hs) ⟨none, 2 ^ 64 - 1, none⟩
  rw [hbest, Option.some.injEq] at hb
  rwa [← hb] at hle

/-! ## The rounds of `EnsurePages` -/

/-- Some pages of other models were evicted, and none of them is worth more than one that is left. -/
structure Chosen (model : String) (evicted : List (String × Nat)) (p p' : Pool) : Prop where
  perm : (p.otherPages model).Perm (evicted ++ p'.otherPages model)
  least : ∀ v ∈ evicted, ∀ u ∈ p'.otherPages model, p.pageValue v ≤ p.pageValue u
  values : ∀ v, p'.pageValue v = p.pageValue v
  free : p'.freePages = p.freePages + evicted.length

theorem Chosen.nil (model : String) (p : Pool) : Chosen model [] p p := ⟨List.Perm.refl _, by simp, fun _ => rfl, rfl⟩

theorem Chosen.cons {m : String} (h : Sound p inflight lost) (hm : m ≠ model) (hid : p.extentOf m page = some id)
    (hleast : ∀ u ∈ p.otherPages model, p.pageValue (m, page) ≤ p.pageValue u) {evicted : List (String × Nat)}
    (h' : Chosen model evicted (p.releaseStablePage m page) p') : Chosen model ((m, page) :: evicted) p p' where
  perm := (otherPages_releaseStablePage hm hid).trans (h'.perm.cons _)
  least := by
    intro v hv u hu
    rcases mem_cons.1 hv with rfl | hv
    · refine hleast u ((otherPages_releaseStablePage hm hid).mem_iff.2 (mem_cons_of_mem _ ?_))
      exact h'.perm.mem_iff.2 (mem_append_right _ hu)
    · have hle := h'.least v hv u hu
      rwa [pageValue_releaseStablePage, pageValue_releaseStablePage] at hle
  values v := (h'.values v).trans (pageValue_releaseStablePage p m page v)
  free := by
    rw [h'.free, freePages_releaseStablePage h hid, length_cons]
    omega

theorem ensurePagesLoop_chosen (S : Surroundings) (pages : Nat) (model : String) {fuel : Nat} (h : Sound p inflight lost)
    (hwts : p.weights.entries = []) (hfuel : p.evictable < fuel) :
    ∃ b p' evicted, ensurePagesLoop S pages [model] fuel p = (b, p') ∧ Sound p' inflight lost ∧ Evicted [model] p p' ∧
      Chosen model evicted p p' ∧ evicted.length ≤ pages - p.freePages ∧ (b = true → pages ≤ p'.freePages) ∧
      (b = false → p'.freePages < pages ∧ p'.otherPages model = []) := by
  induction fuel generalizing p with
  | zero => cases hfuel
  | succ fuel ih =>
    unfold ensurePagesLoop
    split
    · rename_i hlt
      cases hv : p.findVictim S [model] with
      | none =>
        refine ⟨false, p, [], rfl, h, Evicted.refl _ p, Chosen.nil model p, Nat.zero_le _, by simp, fun _ => ⟨hlt, ?_⟩⟩
        have hnil := (findVictim_spec S p [model]).2 hv
        rw [eq_nil_iff_forall_not_mem]
        intro v hmem
        obtain ⟨hm, hres⟩ := mem_otherPages.1 hmem
        obtain ⟨id, hid⟩ := Option.ne_none_iff_exists'.1 hres
        have hkeep : decide (v.1 ∉ [model]) = true := by simpa using hm
        have hpm := @stableHeldOf_setExtent_none p v.1 v.2 id (· ∉ [model]) hid hkeep
        unfold reclaimableHeld at hnil
        rw [(append_eq_nil_iff.1 hnil).1] at hpm
        exact absurd hpm.symm.eq_nil (cons_ne_nil _ _)
      | some v =>
        obtain ⟨m, page, id, rfl, hm, hid, hleast⟩ := findVictim_least hwts hv
        have hm' : m ≠ model := by simpa using hm
        obtain ⟨hsnd, hev, hless⟩ := evict_spec h (show p.MayEvict [model] (.stable m page) from ⟨hm, id, hid⟩)
        have hw : (p.evict (.stable m page)).weights.entries = [] := by
          change (p.releaseStablePage m page).weights.entries = []
          rw [weights_releaseStablePage, hwts]
        obtain ⟨b, p', evicted, heq, hsnd', hev', hcho, hlen, htrue, hfal⟩ := ih hsnd hw (by omega)
        have hfe : (p.evict (.stable m page)).freePages = p.freePages + 1 := freePages_releaseStablePage h hid
        refine ⟨b, p', (m, page) :: evicted, heq, hsnd', hev.trans hev', ?_, ?_, htrue, hfal⟩
        · refine Chosen.cons h hm' hid (fun u hu => ?_) hcho
          obtain ⟨hne, hres⟩ := mem_otherPages.1 hu
          exact hleast u (by simpa using hne) hres
        · rw [length_cons]
          omega
    · rename_i hge
      exact ⟨true, p, [], rfl, h, Evicted.refl _ p, Chosen.nil model p, Nat.zero_le _, fun _ => Nat.le_of_not_lt hge, by simp⟩

theorem ensurePagesLoop_fuel (S : Surroundings) (pages : Nat) (protectedFps : List String) {fuel fuel' : Nat}
    (h : Sound p inflight lost)
    (hfuel : p.evictable < fuel) (hfuel' : p.evictable < fuel') :
    ensurePagesLoop S pages protectedFps fuel p = ensurePagesLoop S pages protectedFps fuel' p := by
  induction fuel generalizing p fuel' with
  | zero => cases hfuel
  | succ fuel ih =>
    obtain ⟨k, rfl⟩ := Nat.exists_eq_succ_of_ne_zero (Nat.ne_of_gt (Nat.lt_of_le_of_lt (Nat.zero_le _) hfuel'))
    unfold ensurePagesLoop
    split
    · cases hv : p.findVictim S protectedFps with
      | none => rfl
      | some v =>
        obtain ⟨hsnd, -, hless⟩ := evict_spec h ((findVictim_spec S p protectedFps).1 v hv)
        exact ih hsnd (by omega) (by omega)
    · rfl

/-! ## Estimates -/

def missingPages (p : Pool) (model : String) : Nat :=
    (range (p.arenaPages model)).countP fun page => p.extentOf model page = none

theorem estimateStableLoad_spec (hm : model ∈ p.stableWeights.keys) :
    (p.estimateStableLoad model).pagesToEvict = p.missingPages model - p.freePages ∧
      ((p.estimateStableLoad model).placementCostBytes.isSome = true ↔
        p.missingPages model - p.freePages ≤ (p.otherPages model).length) ∧
      (p.missingPages model - p.freePages ≤ (p.otherPages model).length → (p.estimateStableLoad model).evictionValueBytes =
        ((((p.otherPages model).map p.pageValue).insertionSort (· ≤ ·)).take (p.missingPages model - p.freePages)).sum) := by
  obtain ⟨target, ht⟩ := mem_keys_iff.1 hm
  have hmis : ((range target.physicalExtentIds.length).filter fun page =>
      !(target.physicalExtentIds.getD page none).isSome).length = p.missingPages model := by
    rw [← countP_eq_length_filter]
    unfold missingPages
    rw [arenaPages_eq ht]
    refine countP_congr fun page _ => ?_
    have hext : p.extentOf model page = target.physicalExtentIds.getD page none :=
      extentOf_of_mem_entries (e := (model, target)) (mem_entries_iff.2 ht) page
    rw [hext]
    cases target.physicalExtentIds.getD page none <;> simp
  have hevict : (if p.missingPages model > p.freePages then p.missingPages model - p.freePages else 0) =
      p.missingPages model - p.freePages := by
    split <;> omega
  unfold estimateStableLoad
  simp only [ht, hmis, hevict, length_insertionSort, length_map]
  split
  · rename_i hlt
    exact ⟨rfl, ⟨fun h => absurd h (by simp), fun h => absurd hlt (Nat.not_lt.2 h)⟩, fun h => absurd hlt (Nat.not_lt.2 h)⟩
  · rename_i hge
    exact ⟨rfl, ⟨fun _ => Nat.le_of_not_lt hge, fun _ => rfl⟩, fun _ => rfl⟩

theorem Chosen.sum {evicted : List (String × Nat)} (h : Chosen model evicted p p') :
    (evicted.map p.pageValue).sum = ((((p.otherPages model).map p.pageValue).insertionSort
      (· ≤ ·)).take evicted.length).sum := by
  have hsrt : ((p.otherPages model).map p.pageValue).insertionSort (· ≤ ·) =
      (evicted.map p.pageValue).insertionSort (· ≤ ·) ++ ((p'.otherPages model).map p.pageValue).insertionSort (· ≤ ·) := by
    rw [insertionSort_perm (h.perm.map p.pageValue), map_append]
    refine insertionSort_append_of_le ?_
    simp only [forall_mem_map]
    exact h.least
  have hlen : evicted.length = ((evicted.map p.pageValue).insertionSort (· ≤ ·)).length := by
    rw [length_insertionSort, length_map]
  rw [hsrt, hlen, take_left]
  exact (perm_insertionSort _ _).sum_eq.symm

theorem mapStableWeight_chosen (S : Surroundings) (h : Sound p [] []) (hwts : p.weights.entries = [])
    (hm : model ∈ p.stableWeights.keys) (hcuda : ∀ c, (p.mapStableWeight S model [model]).2.log ≠ p.log ++ [.cuda c]) :
    ((p.mapStableWeight S model [model]).1.isSome = true ↔ p.missingPages model - p.freePages ≤ (p.otherPages model).length) ∧
      ((p.mapStableWeight S model [model]).1.isSome = true → ∃ p₁ evicted, Chosen model evicted p p₁ ∧
        evicted.length = p.missingPages model - p.freePages ∧
        (∀ m ≠ model, ∀ page, (p.mapStableWeight S model [model]).2.extentOf m page = p₁.extentOf m page) ∧
        ∀ page, p.extentOf model page ≠ none → (p.mapStableWeight S model [model]).2.extentOf model page ≠ none) := by
  obtain ⟨b, p₁, evicted, heq, h₁, hev, hcho, hlen, htrue, hfal⟩ :=
    ensurePagesLoop_chosen S (p.missingPages model) model h hwts (Nat.lt_succ_self _)
  have hpm := hcho.perm.length_eq
  rw [length_append] at hpm
  have hfe := hcho.free
  have hrng : ¬∃ page ∈ range (p.arenaPages model), page ≥ p.arenaPages model := by
    rintro ⟨page, hp, hge⟩
    exact absurd (mem_range.1 hp) (Nat.not_lt.2 hge)
  have hloop : p.ensurePages S ((range (p.arenaPages model)).countP fun page => p.extentOf model page = none)
    [model] = (b, p₁) := heq
  unfold mapStableWeight mapStablePages at hcuda ⊢
  simp only [hm, not_true_eq_false, if_false, if_neg hrng, hloop] at hcuda ⊢
  cases b with
  | false =>
    obtain ⟨hlt, hnil⟩ := hfal rfl
    rw [hnil, length_nil] at hpm
    refine ⟨⟨fun h => absurd h (by simp), fun hle => ?_⟩, fun h => absurd h (by simp)⟩
    omega
  | true =>
    have hen := htrue rfl
    have hpgs : ∀ page ∈ range (p.arenaPages model), page < p₁.arenaPages model := by
      intro page hp
      rw [arenaPages_congr hev.shapes]
      exact mem_range.1 hp
    obtain ⟨fault, added, q, hmap, -, hmpd, -, hflt⟩ := mapRequested_spec S model _ [] h₁ hpgs
    rw [nil_append] at hmap
    simp only [hmap] at hcuda ⊢
    cases fault with
    | none =>
      refine ⟨⟨fun _ => by omega, fun _ => rfl⟩,
        fun _ => ⟨p₁, evicted, hcho, by omega, fun m hne page => ?_, fun page hres => ?_⟩⟩
      · exact hmpd.others m page fun hboth => hne hboth.1
      · by_cases hadded : page ∈ added
        · exact (hmpd.fresh page hadded).2.2
        · change q.extentOf model page ≠ none
          rwa [hmpd.others model page fun hboth => hadded hboth.2, hev.keeps model (mem_singleton_self _)]
    | some fault =>
      -- the free list is long enough, so that only a driver call can fail
      obtain ⟨c, rfl⟩ := hflt (by
        rw [← h₁.freePages]
        refine Nat.le_trans ?_ hen
        unfold missingPages
        refine countP_mono_left fun page _ hno => ?_
        rwa [hev.keeps model (mem_singleton_self _)] at hno) _ rfl
      refine absurd ?_ (hcuda c)
      simp only
      rw [log_releaseStablePages]
      change q.log ++ [_] = _
      rw [hmpd.log, hev.log]

theorem Chosen.mem_iff {evicted : List (String × Nat)} (h : Chosen model evicted p p') {v : String × Nat} :
    v ∈ evicted ↔ v.1 ≠ model ∧ p.extentOf v.1 v.2 ≠ none ∧ p'.extentOf v.1 v.2 = none := by
  have hnd : (evicted ++ p'.otherPages model).Nodup := h.perm.nodup_iff.1 (nodup_otherPages p model)
  have hmem := h.perm.mem_iff (a := v)
  rw [mem_append, mem_otherPages, mem_otherPages] at hmem
  constructor
  · intro hv
    obtain ⟨hne, hres⟩ := hmem.2 (.inl hv)
    refine ⟨hne, hres, ?_⟩
    by_contra hso
    exact (disjoint_of_nodup_append hnd) hv (mem_otherPages.2 ⟨hne, hso⟩)
  · rintro ⟨hne, hres, hgone⟩
    exact (hmem.1 ⟨hne, hres⟩).resolve_right fun hleft => hleft.2 hgone

/-- `EstimateStableLoad` predicts whether a load succeeds, how many pages it evicts, and what they are worth. The loop of
`EnsurePages` ends: with enough free pages, or with nothing left that may be evicted. -/
theorem estimate_predicts_eviction {native requested capacity : Nat} {memory : Handle → Nat → UInt8}
    (hp : create native requested capacity memory = some p₀) {cs : List (Surroundings × Op)} (hcs : ∀ c ∈ cs, c.1.MapsExtents)
    (hrun : cs.foldlM step p₀ = some p) (hweights : p.weights.entries = []) (S : Surroundings) (model : String)
    (hcuda : ∀ c, (p.mapStableWeight S model [model]).2.log ≠ p.log ++ [.cuda c]) :
    ((p.mapStableWeight S model [model]).1.isSome = true ↔ (p.estimateStableLoad model).placementCostBytes.isSome = true) ∧
      ((p.mapStableWeight S model [model]).1.isSome = true → ∃ evicted : Finset (String × Nat),
        (∀ v, v ∈ evicted ↔ p.extentOf v.1 v.2 ≠ none ∧ (p.mapStableWeight S model [model]).2.extentOf v.1 v.2 = none) ∧
        evicted.card = (p.estimateStableLoad model).pagesToEvict ∧ (∀ v ∈ evicted, v.1 ≠ model) ∧
        ∑ v ∈ evicted, p.pageValue v = (p.estimateStableLoad model).evictionValueBytes ∧
        ∀ others : Finset (String × Nat), others.card = evicted.card → (∀ v ∈ others, v.1 ≠ model ∧ p.extentOf v.1 v.2 ≠ none) →
          ∑ v ∈ evicted, p.pageValue v ≤ ∑ v ∈ others, p.pageValue v) ∧
      (∀ pages protectedFps fuel, p.evictable < fuel →
        ensurePagesLoop S pages protectedFps fuel p = p.ensurePages S pages protectedFps) ∧
      ∀ pages protectedFps, ∃ enough p', p.ensurePages S pages protectedFps = (enough, p') ∧
        (enough = true → pages ≤ p'.freePages) ∧
        (enough = false → p'.freePages < pages ∧ p'.reclaimableHeld protectedFps = []) := by
  have hsnd : Sound p [] [] := by
    refine (Runs.run_invariant_of_mem (I := fun p => Sound p [] [] ∧ KVArena p) ?_
      ⟨(create_spec hp).1, (create_spec hp).2.1⟩ hrun).1
    rintro c hc q q' ⟨hs, hk⟩ hst
    have hsp := step_spec hs hk hst
    obtain ⟨lost', hs', hlost⟩ := hsp.sound
    obtain rfl := hlost (hcs c hc)
    exact ⟨hs', hsp.arena⟩
  refine ⟨?_, fun hok => ?_, fun pages protectedFps fuel hfuel => ensurePagesLoop_fuel S pages protectedFps hsnd hfuel
    (Nat.lt_succ_self _), fun pages protectedFps => ?_⟩
  · by_cases hm : model ∈ p.stableWeights.keys
    · exact (mapStableWeight_chosen S hsnd hweights hm hcuda).1.trans (estimateStableLoad_spec hm).2.1.symm
    · unfold mapStableWeight mapStablePages estimateStableLoad
      simp [hm, get?_eq_none_iff.2 hm]
  · have hm : model ∈ p.stableWeights.keys := by
      by_contra hm
      unfold mapStableWeight mapStablePages at hok
      simp [hm] at hok
    obtain ⟨hiff, hthen⟩ := mapStableWeight_chosen S hsnd hweights hm hcuda
    obtain ⟨p₁, evicted, hcho, hlen, hoth, hown⟩ := hthen hok
    obtain ⟨hpgs, -, hval⟩ := estimateStableLoad_spec hm
    have hnd : evicted.Nodup := (hcho.perm.nodup_iff.1 (nodup_otherPages p model)).of_append_left
    refine ⟨evicted.toFinset, fun v => ?_, ?_, fun v hv => ?_, ?_, fun others hcard hoth => ?_⟩
    · rw [mem_toFinset, hcho.mem_iff]
      by_cases hne : v.1 = model
      · rw [hne]
        exact ⟨fun h => absurd rfl h.1, fun h => absurd h.2 (hown _ h.1)⟩
      · rw [hoth _ hne]
        exact and_iff_right hne
    · rw [toFinset_card_of_nodup hnd, hlen, hpgs]
    · exact (hcho.mem_iff.1 (mem_toFinset.1 hv)).1
    · rw [sum_toFinset _ hnd, hcho.sum, hlen, hval (hiff.1 hok)]
    · refine sum_le_sum_of_least hcard.symm fun v hv u hu hnot => ?_
      rw [mem_toFinset] at hv hnot
      refine hcho.least v hv u ?_
      exact (mem_append.1 (hcho.perm.mem_iff.1 (mem_otherPages.2 (hoth u hu)))).resolve_left hnot
  · obtain ⟨enough, p', hloop, -, -, hends⟩ := ensurePagesLoop_spec S pages protectedFps hsnd (Nat.lt_succ_self p.evictable)
    exact ⟨enough, p', hloop, hends⟩

/-- A model that fills three of four pages, one that needs two, and that one of the first model's pages must be given up for. -/
def crowdPool : List (Surroundings × Op) :=
  [(.reliable, .reserveStableWeight "a" 3 1), (.reliable, .mapStableWeight "a" ["a"]), (.reliable, .setModelAccessCount "a" 2),
    (.reliable, .reserveStableWeight "b" 2 1)]

theorem estimate_predicts_eviction_crowdPool : ∃ p, crowdPool.foldlM step (ofPages 4) = some p ∧
    (p.estimateStableLoad "b").pagesToEvict = 1 ∧
    ((p.mapStableWeight .reliable "b" ["b"]).1.isSome = true ↔
      (p.estimateStableLoad "b").placementCostBytes.isSome = true) := by
  have hlog : ∀ p, crowdPool.foldlM step (ofPages 4) = some p →
    (p.mapStableWeight .reliable "b" ["b"]).2.log = [] ∧ p.log = [] := by
    rintro p ⟨⟩
    decide +kernel
  have hmaps : ∀ c ∈ crowdPool, c.1.MapsExtents := by
    intro c hc
    simp only [crowdPool, mem_cons, not_mem_nil, or_false] at hc
    rcases hc with rfl | rfl | rfl | rfl <;> exact fun _ => rfl
  refine ⟨_, rfl, by decide +kernel, (estimate_predicts_eviction create_ofPages_four hmaps rfl rfl .reliable "b" ?_).1⟩
  intro c h
  obtain ⟨haft, hbef⟩ := hlog _ rfl
  rw [haft, hbef] at h
  exact absurd h.symm (cons_ne_nil _ _)

end ServerlessLLM.Vmm.Pool
