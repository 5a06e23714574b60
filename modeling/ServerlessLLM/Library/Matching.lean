import Mathlib.Order.Interval.Finset.Nat

/-!
# Maximum matchings by augmenting paths

Left vertices are joined to right vertices, and each left vertex in turn searches a right vertex: a free one, or one whose owner
finds another one. The right vertices that a search looks at are marked, and no search looks at one twice.

A search that fails leaves a set of right vertices behind that is closed: all are matched, and their owners are joined to
nothing else. Later searches get stuck in it, so it stays as it is, and no matching can do better on it: `length_le_of_closed`.
-/

namespace Matching

open List Option Function

variable {α β : Type} [DecidableEq β]

/-- What a search works on: the marked right vertices, and the owners. -/
structure Search (α β : Type) where
  visited : Finset β
  owner : β → Option α

namespace Search

/-- A right vertex is marked. -/
def visit (s : Search α β) (v : β) : Search α β := { s with visited := insert v s.visited }

/-- A right vertex gets an owner. -/
def assign (s : Search α β) (v : β) (u : α) : Search α β := { s with owner := Function.update s.owner v (some u) }

@[simp] theorem visit_visited (s : Search α β) (v : β) : (s.visit v).visited = insert v s.visited := rfl

@[simp] theorem visit_owner (s : Search α β) (v : β) : (s.visit v).owner = s.owner := rfl

@[simp] theorem assign_visited (s : Search α β) (v : β) (u : α) : (s.assign v u).visited = s.visited := rfl

@[simp] theorem assign_owner (s : Search α β) (v : β) (u : α) : (s.assign v u).owner = Function.update s.owner v (some u) := rfl

end Search

/-- A left vertex looks at right vertices, one after another. The search for the owner of one is `self`. -/
def tryAll (self : α → Search α β → Bool × Search α β) (u : α) : List β → Search α β → Bool × Search α β
  | [], s => (false, s)
  | v :: vs, s =>
    if v ∈ s.visited then tryAll self u vs s
    else
      match s.owner v with
      | none => (true, (s.visit v).assign v u)
      | some w =>
        match self w (s.visit v) with
        | (true, s) => (true, s.assign v u)
        | (false, s) => tryAll self u vs s

/-- The search of a left vertex, with a bound on its depth. -/
def search (adj : α → List β) : Nat → α → Search α β → Bool × Search α β
  | 0, _, s => (false, s)
  | depth + 1, u, s => tryAll (search adj depth) u (adj u) s

/-- One search after another, each with no right vertex marked. -/
def searchAll (adj : α → List β) (depth : Nat) (us : List α) (owner : β → Option α) : β → Option α :=
  us.foldl (fun owner u => (search adj depth u ⟨∅, owner⟩).2.owner) owner

/-! ## A search -/

/-- Apart from the right vertices in `V`, no left vertex owns two, and `u` owns none. -/
structure FreeOutside (V : Finset β) (owner : β → Option α) (u : α) : Prop where
  inj : ∀ v v' x, v ∉ V → v' ∉ V → owner v = some x → owner v' = some x → v = v'
  free : ∀ v, v ∉ V → owner v ≠ some u

/-- The owners afterwards: on `V` they are as before, and elsewhere `u` owns one and everyone who owned one does. -/
structure Augments (V : Finset β) (owner : β → Option α) (u : α) (owner' : β → Option α) : Prop where
  same : ∀ v ∈ V, owner' v = owner v
  inj : ∀ v v' x, v ∉ V → v' ∉ V → owner' v = some x → owner' v' = some x → v = v'
  owners : ∀ x, (∃ v, v ∉ V ∧ owner' v = some x) ↔ x = u ∨ ∃ v, v ∉ V ∧ owner v = some x

/-- How a search over the right vertices `vs` ends. -/
structure Ends (adj : α → List β) (vs : List β) (u : α) (s : Search α β) (r : Bool × Search α β) : Prop where
  visited : s.visited ⊆ r.2.visited
  edges : (∀ v x, s.owner v = some x → v ∈ adj x) → ∀ v x, r.2.owner v = some x → v ∈ adj x
  fails : r.1 = false → r.2.owner = s.owner ∧ (∀ v ∈ vs, v ∈ r.2.visited) ∧
    ∀ v ∈ r.2.visited, v ∉ s.visited → ∃ w, s.owner v = some w ∧ ∀ v' ∈ adj w, v' ∈ r.2.visited
  succeeds : r.1 = true → FreeOutside s.visited s.owner u → Augments s.visited s.owner u r.2.owner

variable {adj : α → List β} {R : Finset β}

omit [DecidableEq β] in
theorem FreeOutside.mono {V V' : Finset β} {owner : β → Option α} {u : α} (h : FreeOutside V owner u) (hV : V ⊆ V') :
    FreeOutside V' owner u :=
  ⟨fun v v' x hv hv' => h.inj v v' x (fun hm => hv (hV hm)) fun hm => hv' (hV hm), fun v hv => h.free v fun hm => hv (hV hm)⟩

theorem FreeOutside.owner {V : Finset β} {owner : β → Option α} {u w : α} {v : β} (h : FreeOutside V owner u) (hv : v ∉ V)
    (hw : owner v = some w) : FreeOutside (insert v V) owner w := by
  refine ⟨(h.mono (Finset.subset_insert v V)).inj, ?_⟩
  intro v' hv' hown
  rw [Finset.mem_insert, not_or] at hv'
  exact hv'.1 (h.inj v' v w hv'.2 hv hown hw)

theorem FreeOutside.update_inj {V : Finset β} {owner : β → Option α} {u : α} {v : β} (h : FreeOutside (insert v V) owner u) :
    ∀ a b x, a ∉ V → b ∉ V → update owner v (some u) a = some x → update owner v (some u) b = some x → a = b := by
  intro a b x ha hb hax hbx
  have hout : ∀ c, c ∉ V → c ≠ v → c ∉ insert v V := fun c hc hcv hm => (Finset.mem_insert.1 hm).elim hcv hc
  by_cases hav : a = v
  · by_cases hbv : b = v
    · rw [hav, hbv]
    · rw [hav, update_self] at hax
      rw [update_of_ne hbv, ← hax] at hbx
      exact absurd hbx (h.free b (hout b hb hbv))
  · rw [update_of_ne hav] at hax
    by_cases hbv : b = v
    · rw [hbv, update_self] at hbx
      rw [← hbx] at hax
      exact absurd hax (h.free a (hout a ha hav))
    · rw [update_of_ne hbv] at hbx
      exact h.inj a b x (hout a ha hav) (hout b hb hbv) hax hbx

theorem Augments.take {V : Finset β} {owner : β → Option α} {u : α} {v : β} (h : FreeOutside V owner u) (hv : v ∉ V)
    (hno : owner v = none) : Augments V owner u (update owner v (some u)) := by
  refine ⟨?_, (h.mono (Finset.subset_insert v V)).update_inj, ?_⟩
  · intro v' hv'
    exact update_of_ne (ne_of_mem_of_not_mem hv' hv) _ _
  · intro x
    constructor
    · rintro ⟨a, ha, hax⟩
      by_cases hav : a = v
      · rw [hav, update_self] at hax
        exact .inl (some.inj hax).symm
      · rw [update_of_ne hav] at hax
        exact .inr ⟨a, ha, hax⟩
    · rintro (rfl | ⟨a, ha, hax⟩)
      · exact ⟨v, hv, update_self _ _ _⟩
      · refine ⟨a, ha, ?_⟩
        rw [update_of_ne, hax]
        rintro rfl
        rw [hno] at hax
        cases hax

theorem Augments.takeFrom {V : Finset β} {owner owner' : β → Option α} {u w : α} {v : β}
    (h : FreeOutside V owner u) (hv : v ∉ V)
    (hw : owner v = some w) (haug : Augments (insert v V) owner w owner') :
    Augments V owner u (update owner' v (some u)) := by
  have hout : ∀ a, a ∉ V → a ≠ v → a ∉ insert v V := fun a ha hav hm => (Finset.mem_insert.1 hm).elim hav ha
  have hback : ∀ a, a ∉ V → a ≠ v → ∀ x, owner' a = some x → ∃ b, b ∉ V ∧ owner b = some x := by
    intro a ha hav x hax
    rcases (haug.owners x).1 ⟨a, hout a ha hav, hax⟩ with rfl | ⟨b, hb, hbx⟩
    · exact ⟨v, hv, hw⟩
    · exact ⟨b, fun hm => hb (Finset.mem_insert_of_mem hm), hbx⟩
  have hfe : ∀ a, a ∉ V → a ≠ v → owner' a ≠ some u := by
    intro a ha hav hau
    obtain ⟨b, hb, hbu⟩ := hback a ha hav u hau
    exact h.free b hb hbu
  have hfree : FreeOutside (insert v V) owner' u := by
    refine ⟨haug.inj, fun a ha => ?_⟩
    rw [Finset.mem_insert, not_or] at ha
    exact hfe a ha.2 ha.1
  refine ⟨?_, hfree.update_inj, ?_⟩
  · intro a ha
    rw [update_of_ne (ne_of_mem_of_not_mem ha hv)]
    exact haug.same a (Finset.mem_insert_of_mem ha)
  · intro x
    constructor
    · rintro ⟨a, ha, hax⟩
      by_cases hav : a = v
      · rw [hav, update_self] at hax
        exact .inl (some.inj hax).symm
      · rw [update_of_ne hav] at hax
        exact .inr (hback a ha hav x hax)
    · rintro (rfl | ⟨a, ha, hax⟩)
      · exact ⟨v, hv, update_self _ _ _⟩
      · -- the owner of `v` has its new one, and the others have one outside
        have hso : ∃ b, b ∉ insert v V ∧ owner' b = some x := by
          refine (haug.owners x).2 ?_
          by_cases hav : a = v
          · rw [hav, hw] at hax
            exact .inl (some.inj hax).symm
          · exact .inr ⟨a, hout a ha hav, hax⟩
        obtain ⟨b, hb, hbx⟩ := hso
        rw [Finset.mem_insert, not_or] at hb
        exact ⟨b, hb.2, by rw [update_of_ne hb.1, hbx]⟩

theorem Augments.shrink {V V' : Finset β} {owner owner' : β → Option α} {u : α} (h : FreeOutside V owner u) (hV : V ⊆ V')
    (haug : Augments V' owner u owner') : Augments V owner u owner' := by
  refine ⟨fun v hv => haug.same v (hV hv), ?_, ?_⟩
  · -- an owner inside `V'` has none outside
    have hcross : ∀ a b x, a ∉ V → b ∉ V → a ∈ V' → b ∉ V' → owner' a = some x → owner' b = some x → a = b := by
      intro a b x ha hb ha' hb' hax hbx
      rw [haug.same a ha'] at hax
      rcases (haug.owners x).1 ⟨b, hb', hbx⟩ with rfl | ⟨c, hc, hcx⟩
      · exact absurd hax (h.free a ha)
      · obtain rfl := h.inj a c x ha (fun hm => hc (hV hm)) hax hcx
        exact absurd ha' hc
    intro a b x ha hb hax hbx
    by_cases ha' : a ∈ V'
    · by_cases hb' : b ∈ V'
      · rw [haug.same a ha'] at hax
        rw [haug.same b hb'] at hbx
        exact h.inj a b x ha hb hax hbx
      · exact hcross a b x ha hb ha' hb' hax hbx
    · by_cases hb' : b ∈ V'
      · exact (hcross b a x hb ha hb' ha' hbx hax).symm
      · exact haug.inj a b x ha' hb' hax hbx
  · intro x
    constructor
    · rintro ⟨a, ha, hax⟩
      by_cases ha' : a ∈ V'
      · rw [haug.same a ha'] at hax
        exact .inr ⟨a, ha, hax⟩
      · exact ((haug.owners x).1 ⟨a, ha', hax⟩).imp id fun ⟨b, hb, hbx⟩ => ⟨b, fun hm => hb (hV hm), hbx⟩
    · rintro (rfl | ⟨a, ha, hax⟩)
      · obtain ⟨b, hb, hbx⟩ := (haug.owners x).2 (.inl rfl)
        exact ⟨b, fun hm => hb (hV hm), hbx⟩
      · by_cases ha' : a ∈ V'
        · exact ⟨a, ha, by rw [haug.same a ha', hax]⟩
        · obtain ⟨b, hb, hbx⟩ := (haug.owners x).2 (.inr ⟨a, ha', hax⟩)
          exact ⟨b, fun hm => hb (hV hm), hbx⟩

theorem card_visit_lt {s : Search α β} {v : β} (hR : v ∈ R) (hv : v ∉ s.visited) :
    (R \ (s.visit v).visited).card < (R \ s.visited).card := by
  refine Finset.card_lt_card (Finset.ssubset_iff_of_subset ?_ |>.2 ⟨v, by simp [hR, hv], by simp⟩)
  exact Finset.sdiff_subset_sdiff le_rfl (Finset.subset_insert v _)

theorem edges_update {owner : β → Option α} {u : α} {v : β} (hadj : v ∈ adj u) (hedges : ∀ a x, owner a = some x → a ∈ adj x) :
    ∀ a x, update owner v (some u) a = some x → a ∈ adj x := by
  intro a x hax
  by_cases hav : a = v
  · subst hav
    rw [update_self] at hax
    rwa [← some.inj hax]
  · rw [update_of_ne hav] at hax
    exact hedges a x hax

theorem Ends.goOn {u w : α} {v : β} {vs : List β} {s s' : Search α β} {r : Bool × Search α β}
    (hown : s.owner v = some w) (hfst : Ends adj (adj w) w (s.visit v) (false, s')) (h : Ends adj vs u s' r) :
    Ends adj (v :: vs) u s r := by
  obtain ⟨hsa, hall, hcl⟩ := hfst.fails rfl
  have hsub : s.visited ⊆ s'.visited := (Finset.subset_insert v _).trans hfst.visited
  have hvisited : v ∈ s'.visited := hfst.visited (Finset.mem_insert_self v _)
  simp only at hsa hall hcl
  refine ⟨hsub.trans h.visited, ?_, ?_, ?_⟩
  · intro hedges
    exact h.edges (hsa ▸ hedges)
  · intro hfail
    obtain ⟨hsa', hall', hcl'⟩ := h.fails hfail
    refine ⟨hsa'.trans hsa, forall_mem_cons.2 ⟨h.visited hvisited, hall'⟩, ?_⟩
    intro a ha hnot
    by_cases ha' : a ∈ s'.visited
    · by_cases hav : a = v
      · rw [hav]
        exact ⟨w, hown, fun b hb => h.visited (hall b hb)⟩
      · obtain ⟨x, hx, hxs⟩ := hcl a ha' (by simp [hav, hnot])
        exact ⟨x, hx, fun b hb => h.visited (hxs b hb)⟩
    · obtain ⟨x, hx, hxs⟩ := hcl' a ha ha'
      exact ⟨x, hsa ▸ hx, hxs⟩
  · intro hsucc hfe
    have haug := h.succeeds hsucc (by rw [hsa]; exact hfe.mono hsub)
    rw [hsa] at haug
    exact haug.shrink hfe hsub

theorem tryAll_ends {self : α → Search α β → Bool × Search α β} {n : Nat}
    (hself : ∀ w s, (R \ s.visited).card < n → Ends adj (adj w) w s (self w s)) {u : α} {vs : List β} {s : Search α β}
    (hvs : ∀ v ∈ vs, v ∈ adj u ∧ v ∈ R) (hn : (R \ s.visited).card ≤ n) : Ends adj vs u s (tryAll self u vs s) := by
  induction vs generalizing s with
  | nil => exact ⟨le_rfl, fun h => h, fun _ => ⟨rfl, by simp, fun v hv hnot => absurd hv hnot⟩, by simp [tryAll]⟩
  | cons v vs ih =>
    have hrs := fun a ha => hvs a (mem_cons_of_mem v ha)
    obtain ⟨hadj, hR⟩ := hvs v mem_cons_self
    rw [tryAll]
    by_cases hv : v ∈ s.visited
    · rw [if_pos hv]
      have h := ih hrs hn
      refine ⟨h.visited, h.edges, ?_, h.succeeds⟩
      intro hfail
      obtain ⟨hown, hall, hcl⟩ := h.fails hfail
      exact ⟨hown, forall_mem_cons.2 ⟨h.visited hv, hall⟩, hcl⟩
    · rw [if_neg hv]
      have hlt := card_visit_lt hR hv
      cases hown : s.owner v with
      | none =>
        exact ⟨Finset.subset_insert v _, fun hedges => edges_update hadj hedges, by simp,
          fun _ hfe => Augments.take hfe hv hown⟩
      | some w =>
        have hsea := hself w (s.visit v) (by omega)
        simp only
        cases hres : self w (s.visit v) with
        | mk found s' =>
          rw [hres] at hsea
          have hsub : s.visited ⊆ s'.visited := (Finset.subset_insert v _).trans hsea.visited
          cases found with
          | true =>
            exact ⟨hsub, fun hedges => edges_update hadj (hsea.edges hedges), by simp,
              fun _ hfe => Augments.takeFrom hfe hv hown (hsea.succeeds rfl (hfe.owner hv hown))⟩
          | false =>
            have hcard : (R \ s'.visited).card ≤ n := (Finset.card_le_card (Finset.sdiff_subset_sdiff le_rfl hsub)).trans hn
            exact Ends.goOn hown hsea (ih hrs hcard)

theorem search_ends (hadj : ∀ u, ∀ v ∈ adj u, v ∈ R) {depth : Nat} {u : α} {s : Search α β}
    (hdepth : (R \ s.visited).card < depth) : Ends adj (adj u) u s (search adj depth u s) := by
  induction depth generalizing u s with
  | zero => omega
  | succ depth ih => exact tryAll_ends (fun w s hlt => ih hlt) (fun v hv => ⟨hv, hadj u v hv⟩) (by omega)

/-! ## Closed sets -/

/-- The right vertices in `Z` have owners that are joined to nothing else. -/
def Closed (adj : α → List β) (Z : Finset β) (owner : β → Option α) : Prop :=
  ∀ v ∈ Z, ∃ w, owner v = some w ∧ ∀ v' ∈ adj w, v' ∈ Z

/-- A search changes nothing in a closed set, and gets stuck in it. -/
structure Spares (Z : Finset β) (vs : List β) (s : Search α β) (r : Bool × Search α β) : Prop where
  same : ∀ v ∈ Z, r.2.owner v = s.owner v
  stuck : (∀ v ∈ vs, v ∈ Z) → r.1 = false
  fails : r.1 = false → r.2.owner = s.owner

variable {Z : Finset β}

theorem tryAll_spares {self : α → Search α β → Bool × Search α β}
    (hself : ∀ w s, Closed adj Z s.owner → Spares Z (adj w) s (self w s)) {u : α} {vs : List β} {s : Search α β}
    (hcl : Closed adj Z s.owner) : Spares Z vs s (tryAll self u vs s) := by
  induction vs generalizing s with
  | nil => exact ⟨fun _ _ => rfl, fun _ => rfl, fun _ => rfl⟩
  | cons v vs ih =>
    rw [tryAll]
    by_cases hv : v ∈ s.visited
    · rw [if_pos hv]
      have h := ih hcl
      exact ⟨h.same, fun hall => h.stuck fun a ha => hall a (mem_cons_of_mem v ha), h.fails⟩
    · rw [if_neg hv]
      cases hown : s.owner v with
      | none =>
        -- a free right vertex is not in a closed set
        have hZ : v ∉ Z := by
          intro hmem
          obtain ⟨w, hw, -⟩ := hcl v hmem
          rw [hown] at hw
          cases hw
        refine ⟨fun a ha => update_of_ne (ne_of_mem_of_not_mem ha hZ) _ _, ?_, by simp⟩
        intro hall
        exact absurd (hall v mem_cons_self) hZ
      | some w =>
        have hsea := hself w (s.visit v) hcl
        simp only
        cases hres : self w (s.visit v) with
        | mk found s' =>
          rw [hres] at hsea
          cases found with
          | true =>
            have hZ : v ∉ Z := by
              intro hmem
              obtain ⟨w', hw', hadj⟩ := hcl v hmem
              obtain rfl : w = w' := some.inj (hown.symm.trans hw')
              exact absurd (hsea.stuck hadj) (by simp)
            refine ⟨?_, fun hall => absurd (hall v mem_cons_self) hZ, by simp⟩
            intro a ha
            rw [Search.assign_owner, update_of_ne (ne_of_mem_of_not_mem ha hZ)]
            exact hsea.same a ha
          | false =>
            have hsa : s'.owner = s.owner := hsea.fails rfl
            have h := ih (s := s') (hsa ▸ hcl)
            exact ⟨fun a ha => (h.same a ha).trans (congrFun hsa a), fun hall => h.stuck fun a ha =>
              hall a (mem_cons_of_mem v ha),
              fun hfail => (h.fails hfail).trans hsa⟩

theorem search_spares (depth : Nat) {u : α} {s : Search α β} (hcl : Closed adj Z s.owner) :
    Spares Z (adj u) s (search adj depth u s) := by
  induction depth generalizing u s with
  | zero => exact ⟨fun _ _ => rfl, fun _ => rfl, fun _ => rfl⟩
  | succ depth ih => exact tryAll_spares (fun w s h => ih h) hcl

/-! ## All searches -/

/-- After the searches of `done`: a matching, and a closed set with everything that those without a right vertex are joined to.
-/
structure Matched (adj : α → List β) (done : List α) (owner : β → Option α) : Prop where
  edges : ∀ v x, owner v = some x → v ∈ adj x
  inj : ∀ v v' x, owner v = some x → owner v' = some x → v = v'
  mem : ∀ v x, owner v = some x → x ∈ done
  closed : ∃ Z : Finset β, Closed adj Z owner ∧ ∀ x ∈ done, (∀ v, owner v ≠ some x) → ∀ v ∈ adj x, v ∈ Z

theorem Matched.search {done : List α} {owner : β → Option α} (h : Matched adj done owner) (hadj : ∀ u, ∀ v ∈ adj u, v ∈ R)
    {depth : Nat} (hdepth : R.card < depth) {u : α} (hu : u ∉ done) :
    Matched adj (done ++ [u]) (Matching.search adj depth u ⟨∅, owner⟩).2.owner := by
  obtain ⟨Z, hZ, hfl⟩ := h.closed
  have hends := search_ends (s := ⟨∅, owner⟩) (u := u) hadj (by simpa using hdepth)
  have hspares := search_spares depth (s := ⟨∅, owner⟩) (u := u) hZ
  have hfe : FreeOutside ∅ owner u := ⟨fun v v' x _ _ => h.inj v v' x, fun v _ hown => hu (h.mem v u hown)⟩
  generalize Matching.search adj depth u ⟨∅, owner⟩ = r at hends hspares
  obtain ⟨found, s⟩ := r
  cases found with
  | true =>
    have haug := hends.succeeds rfl hfe
    refine ⟨hends.edges h.edges, fun v v' x => haug.inj v v' x (by simp) (by simp), ?_, Z, ?_, ?_⟩
    · intro v x hown
      rcases (haug.owners x).1 ⟨v, by simp, hown⟩ with rfl | ⟨v', -, hown'⟩
      · simp
      · exact mem_append_left _ (h.mem v' x hown')
    · intro v hv
      obtain ⟨w, hw, hall⟩ := hZ v hv
      exact ⟨w, (hspares.same v hv).trans hw, hall⟩
    · intro x hx hno v hv
      have hnot : ∀ v', owner v' ≠ some x := by
        intro v' hown
        obtain ⟨a, -, ha⟩ := (haug.owners x).2 (.inr ⟨v', by simp, hown⟩)
        exact hno a ha
      rcases mem_append.1 hx with hx | hx
      · exact hfl x hx hnot v hv
      · obtain rfl := mem_singleton.1 hx
        obtain ⟨a, -, ha⟩ := (haug.owners x).2 (.inl rfl)
        exact absurd ha (hno a)
  | false =>
    -- what was marked is closed, too
    obtain ⟨hsa, hall, hmrk⟩ := hends.fails rfl
    simp only at hsa hall hmrk
    rw [hsa]
    refine ⟨h.edges, h.inj, fun v x hown => mem_append_left _ (h.mem v x hown), Z ∪ s.visited, ?_, ?_⟩
    · intro v hv
      rcases Finset.mem_union.1 hv with hv | hv
      · obtain ⟨w, hw, hwZ⟩ := hZ v hv
        exact ⟨w, hw, fun a ha => Finset.mem_union_left _ (hwZ a ha)⟩
      · obtain ⟨w, hw, hwV⟩ := hmrk v hv (by simp)
        exact ⟨w, hw, fun a ha => Finset.mem_union_right _ (hwV a ha)⟩
    · intro x hx hno v hv
      rcases mem_append.1 hx with hx | hx
      · exact Finset.mem_union_left _ (hfl x hx hno v hv)
      · obtain rfl := mem_singleton.1 hx
        exact Finset.mem_union_right _ (hall v hv)

theorem Matched.searchAll {done : List α} {owner : β → Option α} (h : Matched adj done owner) (hadj : ∀ u, ∀ v ∈ adj u, v ∈ R)
    {depth : Nat} (hdepth : R.card < depth) {us : List α} (hus : (done ++ us).Nodup) :
    Matched adj (done ++ us) (Matching.searchAll adj depth us owner) := by
  induction us generalizing done owner with
  | nil => simpa [Matching.searchAll] using h
  | cons u us ih =>
    have hassoc : done ++ u :: us = done ++ [u] ++ us := by simp
    have hu : u ∉ done := fun hmem => (nodup_append.1 hus).2.2 u hmem u mem_cons_self rfl
    rw [hassoc] at hus ⊢
    exact ih (h.search hadj hdepth hu) hus

theorem searchAll_matched (hadj : ∀ u, ∀ v ∈ adj u, v ∈ R) {depth : Nat} (hdepth : R.card < depth) {us : List α}
    (hus : us.Nodup) :
    Matched adj us (Matching.searchAll adj depth us fun _ => none) := by
  have h : Matched adj [] fun _ => none := ⟨by simp, by simp, by simp, ∅, by simp [Closed], by simp⟩
  have hall := h.searchAll hadj hdepth (by simpa using hus : ([] ++ us).Nodup)
  simpa using hall

theorem Matched.length_le {us : List α} {owner : β → Option α} (h : Matched adj us owner) {r : List β}
    (hrights : ∀ v, (owner v).isSome → v ∈ r) {pairs : List (α × β)} (hleft : (pairs.map Prod.fst).Nodup)
    (hright : (pairs.map Prod.snd).Nodup) (hpairs : ∀ e ∈ pairs, e.1 ∈ us ∧ e.2 ∈ adj e.1) :
    pairs.length ≤ (r.filter fun v => (owner v).isSome).length := by
  obtain ⟨Z, hZ, hfl⟩ := h.closed
  have hcharge : ∀ e : α × β, ∃ v, e ∈ pairs → (owner v).isSome ∧ (v ∈ Z ∧ v = e.2 ∨ v ∉ Z ∧ e.2 ∉ Z ∧ owner v = some e.1) := by
    intro e
    by_cases he : e ∈ pairs
    · by_cases heZ : e.2 ∈ Z
      · obtain ⟨w, hw, -⟩ := hZ e.2 heZ
        exact ⟨e.2, fun _ => ⟨by simp [hw], .inl ⟨heZ, rfl⟩⟩⟩
      · obtain ⟨hus, hadj⟩ := hpairs e he
        have hso : ∃ v, owner v = some e.1 := by
          by_contra hno
          exact heZ (hfl e.1 hus (fun v hv => hno ⟨v, hv⟩) e.2 hadj)
        obtain ⟨v, hv⟩ := hso
        refine ⟨v, fun _ => ⟨by simp [hv], .inr ⟨?_, heZ, hv⟩⟩⟩
        intro hvZ
        obtain ⟨w, hw, hall⟩ := hZ v hvZ
        obtain rfl : w = e.1 := some.inj (hw.symm.trans hv)
        exact heZ (hall e.2 hadj)
    · exact ⟨e.2, fun hmem => absurd hmem he⟩
  choose charge hspec using hcharge
  have hnd : (pairs.map charge).Nodup := by
    refine List.Nodup.map_on ?_ (List.Nodup.of_map _ hleft)
    intro e he f hf heq
    rcases (hspec e he).2 with ⟨heZ, hev⟩ | ⟨heZ, -, hev⟩
    · rcases (hspec f hf).2 with ⟨-, hfv⟩ | ⟨hfZ, -, -⟩
      · exact inj_on_of_nodup_map hright he hf (by rw [← hev, ← hfv, heq])
      · exact absurd (heq ▸ heZ) hfZ
    · rcases (hspec f hf).2 with ⟨hfZ, -⟩ | ⟨-, -, hfv⟩
      · exact absurd (heq ▸ hfZ) heZ
      · rw [heq] at hev
        exact inj_on_of_nodup_map hleft he hf (some.inj (hev.symm.trans hfv))
  have hsub : pairs.map charge ⊆ r.filter fun v => (owner v).isSome := by
    intro v hv
    obtain ⟨e, he, rfl⟩ := mem_map.1 hv
    have hso := (hspec e he).1
    exact mem_filter.2 ⟨hrights _ hso, hso⟩
  simpa using (subperm_of_subset hnd hsub).length_le

end Matching
