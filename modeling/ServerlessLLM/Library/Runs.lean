import Mathlib.Data.List.Basic

/-!
# Runs and outcomes

A step function says what a step makes of a state, or that the state cannot make it; a run is a list of steps that are made one
after the other. `run_invariant` carries an invariant along a run. `Throughout` says that a property holds in every state that a
run comes to, `EachStep` that every step of a run meets a condition; `throughout_and_eachStep_iff` leads both back to one step.

`Outcome E P x`: the computation `x` ends in a value that meets `P`, or in an error that meets `E`. Where nothing meets `E`,
there is no error. `Outcome.bind` goes through a computation step by step.
-/

/-- What a computation ends in. -/
def Outcome {ε α : Type} (E : ε → Prop) (P : α → Prop) : Except ε α → Prop
  | .ok a => P a
  | .error e => E e

namespace Outcome

variable {ε α β : Type} {E E' : ε → Prop} {P P' : α → Prop} {Q : β → Prop} {x : Except ε α}

theorem bind (h : Outcome E P x) {f : α → Except ε β} (hf : ∀ a, P a → Outcome E Q (f a)) : Outcome E Q (x >>= f) := by
  cases x with
  | error e => exact h
  | ok a => exact hf a h

theorem mono (h : Outcome E P x) (hE : ∀ e, E e → E' e) (hP : ∀ a, P a → P' a) : Outcome E' P' x := by
  cases x with
  | error e => exact hE e h
  | ok a => exact hP a h

theorem imp (h : Outcome E P x) (hP : ∀ a, P a → P' a) : Outcome E P' x := h.mono (fun _ he => he) hP

theorem bind_eq_ok {f : α → Except ε β} {b : β} : (x >>= f) = .ok b ↔ ∃ a, x = .ok a ∧ f a = .ok b := by
  cases x with
  | error e =>
    constructor
    · intro h
      cases h
    · rintro ⟨a, h, -⟩
      cases h
  | ok a => exact ⟨fun h => ⟨a, rfl, h⟩, by rintro ⟨_, ⟨⟩, h⟩; exact h⟩

end Outcome

namespace Runs

variable {σ α : Type*} {step : σ → α → Option σ} {I Q : σ → Prop} {P R : σ → α → Prop} {s s' : σ} {as bs : List α} {a : α}

theorem foldlM_cons_eq_some : (a :: as).foldlM step s = some s' ↔ ∃ s₁, step s a = some s₁ ∧ as.foldlM step s₁ = some s' := by
  rw [List.foldlM_cons, Option.bind_eq_bind, Option.bind_eq_some_iff]

theorem run_invariant_of_mem (hst : ∀ a ∈ as, ∀ s s', I s → step s a = some s' → I s') (h : I s)
    (hrun : as.foldlM step s = some s') : I s' := by
  induction as generalizing s with
  | nil =>
    cases hrun
    exact h
  | cons a as ih =>
    obtain ⟨s₁, hs₁, hrs⟩ := foldlM_cons_eq_some.1 hrun
    exact ih (fun b hb => hst b (List.mem_cons_of_mem a hb)) (hst a List.mem_cons_self s s₁ h hs₁) hrs

theorem run_invariant (hst : ∀ s a s', I s → step s a = some s' → I s') (h : I s) (hrun : as.foldlM step s = some s') : I s' :=
  run_invariant_of_mem (fun a _ s s' => hst s a s') h hrun

/-- The property holds in every state that the run comes to. -/
def Throughout (step : σ → α → Option σ) (Q : σ → Prop) : σ → List α → Prop
  | s, [] => Q s
  | s, a :: as => Q s ∧ ∀ s' ∈ step s a, Throughout step Q s' as

/-- Every step of the run meets the condition. -/
def EachStep (step : σ → α → Option σ) (P : σ → α → Prop) : σ → List α → Prop
  | _, [] => True
  | s, a :: as => P s a ∧ ∀ s' ∈ step s a, EachStep step P s' as

theorem Throughout.head (h : Throughout step Q s as) : Q s := by
  cases as with
  | nil => exact h
  | cons a as => exact h.1

theorem Throughout.last (h : Throughout step Q s as) (hrun : as.foldlM step s = some s') : Q s' := by
  induction as generalizing s with
  | nil =>
    cases hrun
    exact h
  | cons a as ih =>
    obtain ⟨s₁, hs₁, hrs⟩ := foldlM_cons_eq_some.1 hrun
    exact ih (h.2 s₁ hs₁) hrs

instance decidableThroughout [∀ s, Decidable (Q s)] : ∀ s as, Decidable (Throughout step Q s as)
  | s, [] => inferInstanceAs (Decidable (Q s))
  | s, a :: as =>
    have := fun s' => decidableThroughout s' as
    inferInstanceAs (Decidable (Q s ∧ ∀ s' ∈ step s a, Throughout step Q s' as))

instance decidableEachStep [∀ s a, Decidable (P s a)] : ∀ s as, Decidable (EachStep step P s as)
  | _, [] => inferInstanceAs (Decidable True)
  | s, a :: as =>
    have := fun s' => decidableEachStep s' as
    inferInstanceAs (Decidable (P s a ∧ ∀ s' ∈ step s a, EachStep step P s' as))

theorem throughout_of_eachStep (hst : ∀ s a s', I s → P s a → step s a = some s' → I s') (h : I s)
    (hsteps : EachStep step P s as) :
    Throughout step I s as := by
  induction as generalizing s with
  | nil => exact h
  | cons a as ih => exact ⟨h, fun s' hs' => ih (hst s a s' h hsteps.1 hs') (hsteps.2 s' hs')⟩

theorem run_of_eachStep (hst : ∀ a ∈ as, ∀ s, I s → P s a → ∃ s', step s a = some s' ∧ I s') (h : I s)
    (hsteps : EachStep step P s as) : ∃ s', as.foldlM step s = some s' ∧ I s' := by
  induction as generalizing s with
  | nil => exact ⟨s, rfl, h⟩
  | cons a as ih =>
    obtain ⟨s₁, hs₁, h₁⟩ := hst a List.mem_cons_self s h hsteps.1
    obtain ⟨s', hrs, h'⟩ := ih (fun b hb => hst b (List.mem_cons_of_mem a hb)) h₁ (hsteps.2 s₁ hs₁)
    exact ⟨s', foldlM_cons_eq_some.2 ⟨s₁, hs₁, hrs⟩, h'⟩

theorem Throughout.mono (hq : ∀ s, I s → Q s) (h : Throughout step I s as) : Throughout step Q s as := by
  induction as generalizing s with
  | nil => exact hq s h
  | cons a as ih => exact ⟨hq s h.1, fun s' hs' => ih (h.2 s' hs')⟩

theorem throughout_and_eachStep_iff (hinv : ∀ s a s', I s → step s a = some s' → I s')
    (hst : ∀ s a s', I s → Q s → step s a = some s' → (Q s' ∧ R s a ↔ P s a)) (hno : ∀ s a, step s a = none → (R s a ↔ P s a))
    (h : I s) (hq : Q s) : Throughout step Q s as ∧ EachStep step R s as ↔ EachStep step P s as := by
  induction as generalizing s with
  | nil => exact ⟨fun _ => trivial, fun _ => ⟨hq, trivial⟩⟩
  | cons a as ih =>
    unfold Throughout EachStep
    cases hs : step s a with
    | none =>
      constructor
      · rintro ⟨-, hr, -⟩
        exact ⟨(hno s a hs).1 hr, by rintro s' ⟨⟩⟩
      · rintro ⟨hp, -⟩
        exact ⟨⟨hq, by rintro s' ⟨⟩⟩, (hno s a hs).2 hp, by rintro s' ⟨⟩⟩
    | some s₁ =>
      have hnx := hst s a s₁ h hq hs
      constructor
      · rintro ⟨⟨-, hall⟩, hr, hrall⟩
        have hq₁ := (hall s₁ rfl).head
        refine ⟨hnx.1 ⟨hq₁, hr⟩, ?_⟩
        rintro s' ⟨⟩
        exact (ih (hinv s a s₁ h hs) hq₁).1 ⟨hall s₁ rfl, hrall s₁ rfl⟩
      · rintro ⟨hp, hall⟩
        obtain ⟨hq₁, hr⟩ := hnx.2 hp
        obtain ⟨hthrough, hsteps⟩ := (ih (hinv s a s₁ h hs) hq₁).2 (hall s₁ rfl)
        refine ⟨⟨hq, ?_⟩, hr, ?_⟩
        · rintro s' ⟨⟩
          exact hthrough
        · rintro s' ⟨⟩
          exact hsteps

theorem eachStep_of_invariant_mem (hst : ∀ a ∈ as, ∀ s s', I s → step s a = some s' → I s') (hr : ∀ a ∈ as, ∀ s, I s → R s a)
    (h : I s) : EachStep step R s as := by
  induction as generalizing s with
  | nil => trivial
  | cons a as ih =>
    refine ⟨hr a List.mem_cons_self s h, ?_⟩
    intro s' hs'
    exact ih (fun b hb => hst b (List.mem_cons_of_mem a hb)) (fun b hb => hr b (List.mem_cons_of_mem a hb))
      (hst a List.mem_cons_self s s' h hs')

theorem eachStep_of_invariant (hst : ∀ s a s', I s → step s a = some s' → I s') (hr : ∀ s a, I s → R s a) (h : I s) :
    EachStep step R s as :=
  eachStep_of_invariant_mem (fun a _ s s' => hst s a s') (fun a _ s => hr s a) h

theorem EachStep.imp (hst : ∀ s a s', I s → P s a → step s a = some s' → I s') (hr : ∀ s a, I s → P s a → R s a) (h : I s)
    (hsteps : EachStep step P s as) : EachStep step R s as := by
  induction as generalizing s with
  | nil => trivial
  | cons a as ih =>
    exact ⟨hr s a h hsteps.1, fun s' hs' => ih (hst s a s' h hsteps.1 hs') (hsteps.2 s' hs')⟩

theorem eachStep_of_forall (h : ∀ s a, P s a) : EachStep step P s as := by
  induction as generalizing s with
  | nil => trivial
  | cons a as ih => exact ⟨h s a, fun _ _ => ih⟩

theorem throughout_iff_eachStep (hinv : ∀ s a s', I s → step s a = some s' → I s')
    (hst : ∀ s a s', I s → Q s → step s a = some s' → (Q s' ↔ P s a)) (hno : ∀ s a, step s a = none → P s a)
    (h : I s) (hq : Q s) : Throughout step Q s as ↔ EachStep step P s as := by
  have hiff : Throughout step Q s as ∧ EachStep step (fun _ _ => True) s as ↔ EachStep step P s as :=
    throughout_and_eachStep_iff hinv (fun s a s' hi hq hs => (and_iff_left trivial).trans (hst s a s' hi hq hs))
      (fun s a hs => iff_of_true trivial (hno s a hs)) h hq
  rw [← hiff]
  exact (and_iff_left (eachStep_of_forall fun _ _ => trivial)).symm

theorem eachStep_congr_of_right (hst : ∀ s a s', I s → R s a → step s a = some s' → I s') (hiff : ∀ s a, I s → (R s a ↔ P s a))
    (h : I s) : EachStep step R s as ↔ EachStep step P s as := by
  induction as generalizing s with
  | nil => exact Iff.rfl
  | cons a as ih =>
    constructor
    · rintro ⟨hright, hrs⟩
      exact ⟨(hiff s a h).1 hright, fun s' hs' => (ih (hst s a s' h hright hs')).1 (hrs s' hs')⟩
    · rintro ⟨hmeets, hrs⟩
      have hright := (hiff s a h).2 hmeets
      exact ⟨hright, fun s' hs' => (ih (hst s a s' h hright hs')).2 (hrs s' hs')⟩

theorem eachStep_congr (hst : ∀ s a s', I s → step s a = some s' → I s') (hiff : ∀ s a, I s → (R s a ↔ P s a)) (h : I s) :
    EachStep step R s as ↔ EachStep step P s as :=
  eachStep_congr_of_right (fun s a s' hi _ => hst s a s' hi) hiff h

theorem mem_of_mapM {α β : Type} {f : α → Option β} {l : List α} {l' : List β} (h : l.mapM f = some l') {b : β} :
    b ∈ l' ↔ ∃ a ∈ l, f a = some b := by
  induction l generalizing l' with
  | nil =>
    cases h
    simp
  | cons a l ih =>
    simp only [List.mapM_cons, Option.bind_eq_bind, Option.bind_eq_some_iff, Option.pure_def, Option.some.injEq] at h
    obtain ⟨b', hb', rest, hrs, rfl⟩ := h
    rw [List.mem_cons, ih hrs]
    simp only [List.mem_cons, exists_eq_or_imp, hb', Option.some.injEq]
    exact or_congr_left eq_comm

theorem mapM_isSome_iff {α β : Type} {f : α → Option β} {l : List α} : (l.mapM f).isSome = true ↔
    ∀ a ∈ l, (f a).isSome = true := by
  induction l with
  | nil => simp
  | cons a l ih =>
    rw [List.mapM_cons, List.forall_mem_cons, ← ih]
    cases f a with
    | none => simp
    | some b => cases l.mapM f <;> simp

theorem forall₂_of_mapM {α β : Type} {f : α → Option β} {l : List α} {l' : List β} (h : l.mapM f = some l') :
    List.Forall₂ (fun a b => f a = some b) l l' := by
  induction l generalizing l' with
  | nil =>
    cases h
    exact .nil
  | cons a l ih =>
    simp only [List.mapM_cons, Option.bind_eq_bind, Option.bind_eq_some_iff, Option.pure_def, Option.some.injEq] at h
    obtain ⟨b, hb, bs, hbs, rfl⟩ := h
    exact .cons hb (ih hbs)

end Runs
