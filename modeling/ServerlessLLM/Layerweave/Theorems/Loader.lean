import ServerlessLLM.Layerweave.Loader

/-!
# What is read before it is loaded

The hooks of the layers keep one stage ahead of the forward pass, and each layer waits for its own stage.
-/

namespace ServerlessLLM.Layerweave.Loader.LayerWeaveModelLoader

open List Function Except

variable {loader : LayerWeaveModelLoader} {fails : Stage → Bool} {s s' : State} {name : Name} {names : List Name}
  {page index : Nat}

/-- Every page of the tensor was prepared in a stage that was waited for. -/
def Covered (loader : LayerWeaveModelLoader) (read : Read) : Prop :=
  ∀ page ∈ loader.layout.tensorPages read.tensor, ∃ stage ∈ read.waited, page ∈ loader.stagePages stage

def Assigned (loader : LayerWeaveModelLoader) (page : Nat) : Prop :=
  page ∈ loader.embeddingPages ∨ ∃ pages ∈ loader.layerPages, page ∈ pages

/-- The module has a hook that waits for the tail. -/
def Hooked (loader : LayerWeaveModelLoader) (name : Name) : Prop := name ∈ loader.normModules ∨ loader.hooksOutput name

/-- The modules behind the layers find their pages: those of the embedding and the layers, and, from the first module with a
hook on, those of the tail. -/
def TailCovers (loader : LayerWeaveModelLoader) : Prop → List Name → Prop
  | _, [] => True
  | hooked, name :: names =>
    (∀ tensor ∈ loader.readBy name, ∀ page ∈ loader.layout.tensorPages tensor,
      loader.Assigned page ∨ (hooked ∨ loader.Hooked name) ∧ page ∈ loader.tailPages) ∧
    loader.TailCovers (hooked ∨ loader.Hooked name) names

/-- The modules in front of the layers read pages of the input embedding or the first layer. -/
def FrontCovers (loader : LayerWeaveModelLoader) (front : List Name) : Prop :=
  ∀ name ∈ front, ∀ tensor ∈ loader.readBy name, loader.layout.tensorPages tensor ⊆ loader.stagePages .initial

/-- What `__init__` makes sure of. -/
structure Sound (loader : LayerWeaveModelLoader) : Prop where
  layerPages : loader.layerPages = loader.layerNames.map loader.layout.pagesForPrefix
  embeddingPages : loader.embeddingPages = loader.layout.pagesForPrefix loader.model.inputEmbeddings
  nodup : loader.layerNames.Nodup
  nonempty : 0 < loader.layerNames.length
  norms : ∀ name ∈ loader.layerNames, name ∉ loader.normModules
  required : ∀ page ∈ loader.requiredPages, loader.Assigned page ∨ page ∈ loader.tailPages

/-! ## The pages -/

theorem mem_pagesOf {layout : Layout} {tensors : List Tensor} :
    page ∈ layout.pagesOf tensors ↔ ∃ tensor ∈ tensors, page ∈ layout.tensorPages tensor := by
  unfold Layout.pagesOf
  induction tensors with
  | nil => simp
  | cons tensor tensors ih => simp [ih]

theorem mem_foldl_union {l : List (Finset Nat)} {pages : Finset Nat} :
    page ∈ l.foldl (· ∪ ·) pages ↔ page ∈ pages ∨ ∃ pages' ∈ l, page ∈ pages' := by
  induction l generalizing pages with
  | nil => simp
  | cons pages' l ih => simp [ih, or_assoc]

theorem mem_stagePages_layer : page ∈ loader.stagePages (.layer index) ↔ ∃ pages, loader.layerPages[index]? = some pages ∧
    page ∈ pages := by
  simp only [stagePages, getD_eq_getElem?_getD]
  cases hpgs : loader.layerPages[index]? with
  | none => simp
  | some pages => simp

theorem assigned_iff : loader.Assigned page ↔ page ∈ loader.stagePages .initial ∨ ∃ index,
    page ∈ loader.stagePages (.layer index) := by
  have hini : page ∈ loader.stagePages .initial ↔ page ∈ loader.embeddingPages ∨ page ∈ loader.stagePages (.layer 0) := by
    unfold stagePages
    exact Finset.mem_union
  rw [hini]
  unfold Assigned
  simp only [mem_stagePages_layer]
  constructor
  · rintro (hpg | ⟨pages, hpgs, hpg⟩)
    · exact .inl (.inl hpg)
    · obtain ⟨index, hindex⟩ := mem_iff_getElem?.1 hpgs
      exact .inr ⟨index, pages, hindex, hpg⟩
  · rintro ((hpg | ⟨pages, hpgs, hpg⟩) | ⟨index, pages, hpgs, hpg⟩)
    · exact .inl hpg
    · exact .inr ⟨pages, mem_of_getElem? hpgs, hpg⟩
    · exact .inr ⟨pages, mem_of_getElem? hpgs, hpg⟩

theorem layerNames_nodup (model : HfModel) (path : Name) : (model.layerNames path).Nodup := by
  refine List.Nodup.map ?_ nodup_range
  intro i j h
  simpa using h

theorem norm_ne_layer (path : Name) {norm : Name} (hnorm : norm ∈ normCandidates) (index : Nat) :
    norm ≠ path ++ [.item index] := by
  intro h
  have hla := congrArg getLast? h
  rw [getLast?_concat] at hla
  simp only [normCandidates, mem_cons, not_mem_nil, or_false] at hnorm
  rcases hnorm with rfl | rfl | rfl | rfl | rfl
  all_goals simp [dotted] at hla

theorem new_sound {model : HfModel} {layout : Layout} (h : new model layout = .ok loader) : Sound loader := by
  unfold new HfModel.findTransformerParts at h
  split at h
  · cases h
  · rename_i path normModules hprs
    split at hprs
    · cases hprs
    · rename_i path' hfind
      cases hprs
      have hlen := find?_some hfind
      simp only at h
      split at h
      · cases h
      · cases h
        refine ⟨rfl, rfl, layerNames_nodup model path, ?_, ?_, ?_⟩
        · simpa [HfModel.layerNames] using hlen
        · intro name hnm hnorm
          obtain ⟨index, -, rfl⟩ := mem_map.1 hnm
          exact norm_ne_layer path (mem_of_mem_filter hnorm) index rfl
        · intro page hpg
          rw [or_iff_not_imp_left]
          intro hassigned
          exact Finset.mem_sdiff.2 ⟨hpg, fun hmem => hassigned (mem_foldl_union.1 hmem)⟩

/-! ## The hooks -/

theorem prepareStage_ok {key : Stage} (h : loader.prepareStage fails key s = .ok s') :
    s' = { s with residency := s.residency ∪ loader.stagePages key, scheduled := key :: s.scheduled } := by
  unfold prepareStage at h
  split at h
  · cases h
  · exact (ok.inj h).symm

theorem prepareStage_of_not_fails {key : Stage} (h : fails key = false) : loader.prepareStage fails key s =
    .ok { s with residency := s.residency ∪ loader.stagePages key, scheduled := key :: s.scheduled } := by
  unfold prepareStage
  rw [h]
  rfl

def eventOf : Nat → Stage
  | 0 => .initial
  | index + 1 => .layer (index + 1)

structure Ready (loader : LayerWeaveModelLoader) (index : Nat) (s : State) : Prop where
  event : s.events index = some (eventOf index)
  layers : ∀ i, .layer i ∈ s.scheduled ↔ i ≤ index
  tail : .tail ∉ s.scheduled
  tailEvent : s.tailEvent = none
  waited : ∀ page, (∃ stage ∈ s.waited, page ∈ loader.stagePages stage) ↔
    page ∈ loader.stagePages .initial ∨ ∃ i < index, page ∈ loader.stagePages (.layer i)
  residency : ∀ page, (page ∈ loader.stagePages .initial ∨ ∃ i ≤ index, page ∈ loader.stagePages (.layer i)) →
    page ∈ s.residency

structure Done (loader : LayerWeaveModelLoader) (s : State) : Prop where
  tailEvent : s.tailEvent = some .tail
  waited : ∀ page, (∃ stage ∈ s.waited, page ∈ loader.stagePages stage) ↔ loader.Assigned page
  residency : ∀ page, (loader.Assigned page ∨ page ∈ loader.tailPages) → page ∈ s.residency

theorem mem_initial_of_layer_zero (h : page ∈ loader.stagePages (.layer 0)) : page ∈ loader.stagePages .initial :=
  Finset.mem_union_right _ h

theorem mem_eventOf : (page ∈ loader.stagePages .initial ∨ page ∈ loader.stagePages (eventOf index)) ↔
    page ∈ loader.stagePages .initial ∨ page ∈ loader.stagePages (.layer index) := by
  cases index with
  | zero =>
    refine ⟨fun h => .inl (h.elim id id), fun h => .inl ?_⟩
    exact h.elim id mem_initial_of_layer_zero
  | succ index => exact Iff.rfl

theorem Ready.waited_event (h : Ready loader index s) : (∃ stage ∈ eventOf index :: s.waited, page ∈ loader.stagePages stage) ↔
    page ∈ loader.stagePages .initial ∨ ∃ i < index + 1, page ∈ loader.stagePages (.layer i) := by
  have hspl : (∃ i < index + 1, page ∈ loader.stagePages (.layer i)) ↔
      page ∈ loader.stagePages (.layer index) ∨ ∃ i < index, page ∈ loader.stagePages (.layer i) := by
    constructor
    · rintro ⟨i, hi, hpg⟩
      rcases Nat.lt_succ_iff_lt_or_eq.1 hi with hlt | rfl
      · exact .inr ⟨i, hlt, hpg⟩
      · exact .inl hpg
    · rintro (hpg | ⟨i, hi, hpg⟩)
      · exact ⟨index, by omega, hpg⟩
      · exact ⟨i, by omega, hpg⟩
  rw [exists_mem_cons_iff, h.waited, hspl, ← or_assoc, or_comm (b := page ∈ loader.stagePages .initial), mem_eventOf, or_assoc]

theorem Ready.layerPreHook (h : Ready loader index s) (hok : loader.layerPreHook fails index s = .ok s') :
    s'.reads = s.reads ∧ s'.waited = eventOf index :: s.waited ∧
      if index + 1 < loader.layerNames.length then Ready loader (index + 1) s'
      else s'.tailEvent = some .tail ∧ ∀ page, (page ∈ loader.stagePages .initial ∨
        (∃ i ≤ index, page ∈ loader.stagePages (.layer i)) ∨ page ∈ loader.tailPages) → page ∈ s'.residency := by
  unfold LayerWeaveModelLoader.layerPreHook at hok
  simp only [h.event] at hok
  by_cases hnx : index + 1 < loader.layerNames.length
  · rw [if_pos hnx] at hok ⊢
    unfold scheduleLayer at hok
    rw [if_neg (by simp [h.layers])] at hok
    obtain ⟨s₁, hprp, hs'⟩ : ∃ s₁, loader.prepareStage fails (.layer (index + 1)) { s with
      waited := eventOf index :: s.waited } =
        .ok s₁ ∧ s' = { s₁ with events := update s₁.events (index + 1) (some (.layer (index + 1))) } := by
      cases hprp : loader.prepareStage fails (.layer (index + 1)) { s with waited := eventOf index :: s.waited } with
      | error e =>
        rw [hprp] at hok
        cases hok
      | ok s₁ =>
        rw [hprp] at hok
        exact ⟨s₁, rfl, (ok.inj hok).symm⟩
    obtain rfl := prepareStage_ok hprp
    subst hs'
    refine ⟨rfl, rfl, ?_⟩
    constructor
    case event => exact update_self _ _ _
    case layers =>
      intro i
      simp only [mem_cons, Stage.layer.injEq, h.layers]
      omega
    case tail => simpa using h.tail
    case tailEvent => exact h.tailEvent
    case waited => exact fun page => h.waited_event
    case residency =>
      intro page hpg
      simp only [Finset.mem_union]
      rcases hpg with hpg | ⟨i, hi, hpg⟩
      · exact .inl (h.residency page (.inl hpg))
      · rcases Nat.le_succ_iff.1 hi with hi | rfl
        · exact .inl (h.residency page (.inr ⟨i, hi, hpg⟩))
        · exact .inr hpg
  · rw [if_neg hnx] at hok ⊢
    unfold scheduleTail at hok
    rw [if_neg h.tail] at hok
    obtain ⟨s₁, hprp, hs'⟩ : ∃ s₁, loader.prepareStage fails .tail { s with waited := eventOf index :: s.waited } =
        .ok s₁ ∧ s' = { s₁ with tailEvent := some .tail } := by
      cases hprp : loader.prepareStage fails .tail { s with waited := eventOf index :: s.waited } with
      | error e =>
        rw [hprp] at hok
        cases hok
      | ok s₁ =>
        rw [hprp] at hok
        exact ⟨s₁, rfl, (ok.inj hok).symm⟩
    obtain rfl := prepareStage_ok hprp
    subst hs'
    refine ⟨rfl, rfl, rfl, fun page hpg => ?_⟩
    simp only [Finset.mem_union]
    rcases hpg with hpg | hpg | hpg
    · exact .inl (h.residency page (.inl hpg))
    · exact .inl (h.residency page (.inr hpg))
    · exact .inr hpg

/-! ## The forward pass -/

theorem runModules_append (names names' : List Name) (s : State) : loader.runModules fails (names ++ names') s =
    match loader.runModules fails names s with
    | (s, some e) => (s, some e)
    | (s, none) => loader.runModules fails names' s := by
  induction names generalizing s with
  | nil => rfl
  | cons name names ih =>
    rw [cons_append, runModules, runModules]
    cases loader.runModule fails name s with
    | error e => rfl
    | ok s => exact ih s

def afterHooks (loader : LayerWeaveModelLoader) (name : Name) (s : State) : State :=
  let s := if name ∈ loader.normModules then tailPreHook s else s
  if loader.hooksOutput name then tailPreHook s else s

theorem preHooks_of_not_layer (h : name ∉ loader.layerNames) : loader.preHooks fails name s =
    .ok (loader.afterHooks name s) := by
  unfold preHooks
  rw [if_neg h]
  rfl

theorem afterHooks_of_no_tail (h : s.tailEvent = none) : loader.afterHooks name s = s := by
  have htail : tailPreHook s = s := by
    unfold tailPreHook
    rw [h]
  unfold afterHooks
  simp [htail]

/-- What a module reads, once its hooks are done. -/
def readsOf (loader : LayerWeaveModelLoader) (name : Name) (waited : List Stage) : List Read :=
  (loader.readBy name).map fun tensor => ⟨tensor, waited⟩

theorem runModules_front (htail : s.tailEvent = none) (h : ∀ name ∈ names, name ∉ loader.layerNames) :
    loader.runModules fails names s = ({ s with
      reads := s.reads ++ names.flatMap fun name => loader.readsOf name s.waited }, none) := by
  induction names generalizing s with
  | nil => simp [runModules]
  | cons name names ih =>
    have hrun : loader.runModule fails name s = .ok { s with reads := s.reads ++ loader.readsOf name s.waited } := by
      unfold runModule
      rw [preHooks_of_not_layer (h name mem_cons_self), afterHooks_of_no_tail htail]
      rfl
    rw [runModules, hrun]
    simp only
    rw [ih (s := { s with reads := s.reads ++ loader.readsOf name s.waited }) htail
      fun name' hnm' => h name' (mem_cons_of_mem name hnm')]
    simp

theorem covered_layer (hsnd : Sound loader) (hnm : loader.layerNames[index]? = some name)
    (hout : loader.model.outputEmbeddings ≠ some name) {waited : List Stage}
    (hwtd : ∀ page, (∃ stage ∈ waited, page ∈ loader.stagePages stage) ↔
      page ∈ loader.stagePages .initial ∨ ∃ i < index + 1, page ∈ loader.stagePages (.layer i)) :
    ∀ read ∈ loader.readsOf name waited, loader.Covered read := by
  intro read hrd page hpg
  obtain ⟨tensor, hten, rfl⟩ := mem_map.1 hrd
  unfold readBy at hten
  rw [if_neg fun h => hout h.1, append_nil] at hten
  refine (hwtd page).2 (.inr ⟨index, by omega, mem_stagePages_layer.2 ⟨loader.layout.pagesForPrefix name, ?_, ?_⟩⟩)
  · rw [hsnd.layerPages, getElem?_map, hnm]
    rfl
  · exact mem_pagesOf.2 ⟨tensor, hten, hpg⟩

theorem runModule_layer (hsnd : Sound loader) (hnm : loader.layerNames[index]? = some name)
    (hout : loader.model.outputEmbeddings ≠ some name) : loader.runModule fails name s =
      (loader.layerPreHook fails index s).map fun s => { s with reads := s.reads ++ loader.readsOf name s.waited } := by
  have hmem := mem_of_getElem? hnm
  obtain ⟨hlt, hget⟩ := List.getElem?_eq_some_iff.1 hnm
  have hindex : loader.layerNames.idxOf name = index := by
    rw [← hget]
    exact hsnd.nodup.idxOf_getElem index hlt
  unfold runModule preHooks
  rw [if_pos hmem, hindex]
  have hhook : loader.hooksOutput name = false := by
    unfold hooksOutput
    simp [hout]
  cases loader.layerPreHook fails index s with
  | error e => rfl
  | ok s => simp [bind, Except.bind, Except.map, hsnd.norms name hmem, hhook, readsOf]

theorem Ready.layerPreHook_isOk (h : Ready loader index s) (hfails : ∀ stage, fails stage = false) :
    ∃ s', loader.layerPreHook fails index s = .ok s' := by
  unfold LayerWeaveModelLoader.layerPreHook
  simp only [h.event]
  split
  · unfold scheduleLayer
    rw [if_neg (by simp [h.layers]), prepareStage_of_not_fails (hfails _)]
    exact ⟨_, rfl⟩
  · unfold scheduleTail
    rw [if_neg h.tail, prepareStage_of_not_fails (hfails _)]
    exact ⟨_, rfl⟩

theorem runModules_layers (fails : Stage → Bool) (hsnd : Sound loader)
    (hout : ∀ name, loader.model.outputEmbeddings = some name → name ∉ loader.layerNames)
    (layers : List Name) (hlys : loader.layerNames.drop index = layers) (hindex : index < loader.layerNames.length)
    (h : Ready loader index s) : ∃ reads, (loader.runModules fails layers s).1.reads = s.reads ++ reads ∧
      (∀ read ∈ reads, loader.Covered read) ∧
      ((loader.runModules fails layers s).2 = none → Done loader (loader.runModules fails layers s).1) ∧
      ((∀ stage, fails stage = false) → (loader.runModules fails layers s).2 = none) := by
  induction layers generalizing index s with
  | nil =>
    have hlen := congrArg length hlys
    simp only [length_drop, length_nil] at hlen
    omega
  | cons name layers ih =>
    have hnm : loader.layerNames[index]? = some name := by
      rw [← head?_drop, hlys]
      rfl
    have hrs : loader.layerNames.drop (index + 1) = layers := by
      rw [← tail_drop, hlys]
      rfl
    have hnot : loader.model.outputEmbeddings ≠ some name := fun heq => hout name heq (mem_of_getElem? hnm)
    rw [runModules, runModule_layer hsnd hnm hnot]
    cases hhook : loader.layerPreHook fails index s with
    | error e =>
      refine ⟨[], by simp [Except.map], by simp, by simp [Except.map], fun hfails => ?_⟩
      obtain ⟨s', hs'⟩ := h.layerPreHook_isOk hfails
      rw [hhook] at hs'
      cases hs'
    | ok s₁ =>
      obtain ⟨hrds, hwtd, hnx⟩ := h.layerPreHook hhook
      have hcvd : ∀ read ∈ loader.readsOf name s₁.waited, loader.Covered read :=
        covered_layer hsnd hnm hnot (by rw [hwtd]; exact fun page => h.waited_event)
      simp only [Except.map]
      by_cases hlt : index + 1 < loader.layerNames.length
      · rw [if_pos hlt] at hnx
        obtain ⟨reads, hrds', hcvd', hend⟩ := ih (s := { s₁ with reads := s₁.reads ++ loader.readsOf name s₁.waited }) hrs hlt
          ⟨hnx.event, hnx.layers, hnx.tail, hnx.tailEvent, hnx.waited, hnx.residency⟩
        refine ⟨loader.readsOf name s₁.waited ++ reads, ?_, ?_, hend⟩
        · rw [hrds', hrds, append_assoc]
        · intro read hrd
          exact (mem_append.1 hrd).elim (hcvd read) (hcvd' read)
      · rw [if_neg hlt] at hnx
        have hnil : layers = [] := by
          rw [← hrs, drop_eq_nil_iff]
          omega
        have hall : ∀ page, (∃ i < index + 1, page ∈ loader.stagePages (.layer i)) ↔
          ∃ i, page ∈ loader.stagePages (.layer i) := by
          refine fun page => ⟨fun ⟨i, _, hpg⟩ => ⟨i, hpg⟩, fun ⟨i, hpg⟩ => ⟨i, ?_, hpg⟩⟩
          obtain ⟨pages, hpgs, -⟩ := mem_stagePages_layer.1 hpg
          have hi := (List.getElem?_eq_some_iff.1 hpgs).1
          rw [hsnd.layerPages, length_map] at hi
          omega
        subst hnil
        refine ⟨loader.readsOf name s₁.waited, by rw [runModules, hrds], hcvd,
          fun _ => ⟨hnx.1, fun page => ?_, fun page hpg => ?_⟩,
          fun _ => rfl⟩
        · rw [runModules]
          simp only [hwtd]
          rw [h.waited_event, hall, assigned_iff]
        · refine hnx.2 page ?_
          rcases hpg with hpg | hpg
          · rcases assigned_iff.1 hpg with hpg | hpg
            · exact .inl hpg
            · obtain ⟨i, hi, hpg⟩ := (hall page).2 hpg
              exact .inr (.inl ⟨i, by omega, hpg⟩)
          · exact .inr (.inr hpg)

theorem mem_waited_afterHooks (htail : s.tailEvent = some .tail) (name : Name) (page : Nat) :
    (∃ stage ∈ (loader.afterHooks name s).waited, page ∈ loader.stagePages stage) ↔
      (∃ stage ∈ s.waited, page ∈ loader.stagePages stage) ∨ loader.Hooked name ∧ page ∈ loader.tailPages := by
  have hhook : ∀ s : State, s.tailEvent = some .tail → tailPreHook s = { s with waited := .tail :: s.waited } := by
    intro s hs
    unfold tailPreHook
    rw [hs]
  have hpgs : loader.stagePages .tail = loader.tailPages := rfl
  unfold afterHooks Hooked
  by_cases hnorm : name ∈ loader.normModules
  · by_cases hout : loader.hooksOutput name = true
    · simp [hnorm, hout, hhook, htail, hpgs, or_comm]
    · simp [hnorm, hout, hhook, htail, hpgs, or_comm]
  · by_cases hout : loader.hooksOutput name = true
    · simp [hnorm, hout, hhook, htail, hpgs, or_comm]
    · simp [hnorm, hout]

theorem afterHooks_frame (loader : LayerWeaveModelLoader) (name : Name) (s : State) :
    (loader.afterHooks name s).reads = s.reads ∧
    (loader.afterHooks name s).residency = s.residency ∧ (loader.afterHooks name s).tailEvent = s.tailEvent := by
  have hhook : ∀ s : State, (tailPreHook s).reads = s.reads ∧ (tailPreHook s).residency = s.residency ∧
      (tailPreHook s).tailEvent = s.tailEvent := by
    intro s
    unfold tailPreHook
    split
    · exact ⟨rfl, rfl, rfl⟩
    · exact ⟨rfl, rfl, rfl⟩
  unfold afterHooks
  simp only
  split
  · split
    · exact ⟨(hhook _).1.trans (hhook s).1, (hhook _).2.1.trans (hhook s).2.1, (hhook _).2.2.trans (hhook s).2.2⟩
    · exact hhook _
  · split
    · exact hhook s
    · exact ⟨rfl, rfl, rfl⟩

theorem runModules_tail (fails : Stage → Bool) (hooked : Prop) (htail : s.tailEvent = some .tail)
    (h : ∀ name ∈ names, name ∉ loader.layerNames) (hwtd : ∀ page, (∃ stage ∈ s.waited, page ∈ loader.stagePages stage) ↔
      loader.Assigned page ∨ hooked ∧ page ∈ loader.tailPages) :
    ∃ s' reads, loader.runModules fails names s = (s', none) ∧ s'.reads = s.reads ++ reads ∧ s'.residency = s.residency ∧
      ((∀ read ∈ reads, loader.Covered read) ↔ loader.TailCovers hooked names) := by
  induction names generalizing s hooked with
  | nil => exact ⟨s, [], rfl, by simp, rfl, by simp [TailCovers]⟩
  | cons name names ih =>
    have hrun : loader.runModule fails name s = .ok { loader.afterHooks name s with
        reads := (loader.afterHooks name s).reads ++ loader.readsOf name (loader.afterHooks name s).waited } := by
      unfold runModule
      rw [preHooks_of_not_layer (h name mem_cons_self)]
      rfl
    obtain ⟨hrds, hrsy, hevent⟩ := afterHooks_frame loader name s
    have haft : ∀ page, (∃ stage ∈ (loader.afterHooks name s).waited, page ∈ loader.stagePages stage) ↔
        loader.Assigned page ∨ (hooked ∨ loader.Hooked name) ∧ page ∈ loader.tailPages := by
      intro page
      rw [mem_waited_afterHooks htail, hwtd]
      tauto
    obtain ⟨s', reads, hrs, hrds', hrsy', hiff⟩ := ih (s := { loader.afterHooks name s with
        reads := (loader.afterHooks name s).reads ++ loader.readsOf name (loader.afterHooks name s).waited })
      (hooked ∨ loader.Hooked name) (hevent.trans htail) (fun name' hnm' => h name' (mem_cons_of_mem name hnm')) haft
    refine ⟨s', loader.readsOf name (loader.afterHooks name s).waited ++ reads, ?_, ?_, hrsy'.trans hrsy, ?_⟩
    · rw [runModules, hrun]
      exact hrs
    · rw [hrds', hrds, append_assoc]
    · rw [forall_mem_append, hiff, TailCovers]
      refine and_congr ?_ Iff.rfl
      unfold readsOf Covered
      rw [forall_mem_map]
      simp only [haft]

theorem prepare_ready {residency : Finset Nat} (h : loader.prepare fails residency = .ok s) :
    Ready loader 0 s ∧ s.waited = [.initial] ∧ s.reads = [] := by
  unfold prepare at h
  cases hprp : loader.prepareStage fails .initial ⟨residency, [], fun _ => none, none, [], []⟩ with
  | error e =>
    rw [hprp] at h
    cases h
  | ok s₁ =>
    rw [hprp] at h
    obtain rfl := ok.inj h
    obtain rfl := prepareStage_ok hprp
    refine ⟨?_, rfl, rfl⟩
    constructor
    case event => rfl
    case layers =>
      intro i
      simp
    case tail => simp
    case tailEvent => rfl
    case waited =>
      intro page
      simp
    case residency =>
      intro page hpg
      refine Finset.mem_union_right _ ?_
      rcases hpg with hpg | ⟨i, hi, hpg⟩
      · exact hpg
      · obtain rfl : i = 0 := by omega
        exact mem_initial_of_layer_zero hpg

/-- Whatever stages fail, each tensor that is read lies on pages that were prepared and waited for, exactly when the modules in
front of the layers read pages of the input embedding and the first layer only, and those behind the layers read pages of the
tail only after a hook. And if no stage fails, then the model is resident after the pass. -/
theorem loader_covers_iff {model : HfModel} {layout : Layout} (h : new model layout = .ok loader) (pass : loader.Pass)
    (residency : Finset Nat) :
    ((∀ fails, ∀ read ∈ (loader.forward fails pass residency).1, loader.Covered read) ↔
      loader.FrontCovers pass.front ∧ loader.TailCovers False pass.tail) ∧
    ∀ fails, (∀ stage, fails stage = false) → ∃ s, (loader.forward fails pass residency).2 = .ok s := by
  have hsnd := new_sound h
  -- a pass, by its parts
  have hforward : ∀ fails, (loader.forward fails pass residency).1 = [] ∧ fails .initial = true ∨
      ∃ front layers tail, (loader.forward fails pass residency).1 = front ++ layers ++ tail ∧
        ((∀ read ∈ front, loader.Covered read) ↔ loader.FrontCovers pass.front) ∧ (∀ read ∈ layers, loader.Covered read) ∧
        (loader.TailCovers False pass.tail → ∀ read ∈ tail, loader.Covered read) ∧
        ((∀ stage, fails stage = false) → ((∀ read ∈ tail, loader.Covered read) → loader.TailCovers False pass.tail) ∧
          ∃ s, (loader.forward fails pass residency).2 = .ok s) := by
    intro fails
    unfold forward
    cases hprp : loader.prepare fails residency with
    | error e =>
      refine .inl ⟨rfl, ?_⟩
      by_contra hini
      rw [Bool.not_eq_true] at hini
      unfold prepare at hprp
      rw [prepareStage_of_not_fails hini] at hprp
      cases hprp
    | ok s =>
      obtain ⟨hrdy, hwtd, hrds⟩ := prepare_ready hprp
      have hfrt : (∀ read ∈ pass.front.flatMap fun name => loader.readsOf name s.waited, loader.Covered read) ↔
          loader.FrontCovers pass.front := by
        rw [hwtd]
        constructor
        · intro hall name hnm tensor hten page hpg
          simpa using hall ⟨tensor, [.initial]⟩ (mem_flatMap.2 ⟨name, hnm, mem_map_of_mem hten⟩) page hpg
        · intro hall read hrd page hpg
          obtain ⟨name, hnm, hrd⟩ := mem_flatMap.1 hrd
          obtain ⟨tensor, hten, rfl⟩ := mem_map.1 hrd
          exact ⟨.initial, mem_cons_self, hall name hnm tensor hten hpg⟩
      simp only
      rw [runModules_append, runModules_append, runModules_front hrdy.tailEvent pass.front_apart]
      simp only
      obtain ⟨layers, hlys, hcvd, hdone, hok⟩ := runModules_layers fails hsnd
        pass.output_apart loader.layerNames rfl hsnd.nonempty
        (s := { s with reads := s.reads ++ pass.front.flatMap fun name => loader.readsOf name s.waited })
        ⟨hrdy.event, hrdy.layers, hrdy.tail, hrdy.tailEvent, hrdy.waited, hrdy.residency⟩
      generalize loader.runModules fails loader.layerNames
        { s with reads := s.reads ++ pass.front.flatMap fun name => loader.readsOf name s.waited } = r at hlys hdone hok ⊢
      obtain ⟨s₁, _ | e⟩ := r
      · have hdone := hdone rfl
        obtain ⟨s₂, tail, hrun, htail, hres, hiff⟩ := runModules_tail fails False hdone.tailEvent
          pass.tail_apart (by simpa using hdone.waited)
        simp only [hrun]
        refine .inr ⟨_, layers, tail, by rw [htail, hlys, hrds, nil_append], hfrt, hcvd, hiff.2, fun _ => ⟨hiff.1, ?_⟩⟩
        unfold markPrefillComplete
        have hrequired : loader.requiredPages ⊆ (tailPreHook s₂).residency := by
          have hfrm : (tailPreHook s₂).residency = s₂.residency := by
            unfold tailPreHook
            split
            · rfl
            · rfl
          intro page hpg
          rw [hfrm, hres]
          exact hdone.residency page (hsnd.required page hpg)
        simp only [if_pos hrequired]
        exact ⟨_, rfl⟩
      · simp only at hlys ⊢
        refine .inr ⟨_, layers, [], by rw [append_nil, hlys, hrds, nil_append], hfrt, hcvd, by simp, fun hfails => ?_⟩
        cases hok hfails
  refine ⟨⟨fun hall => ?_, fun hcov fails read hrd => ?_⟩, fun fails hfails => ?_⟩
  · rcases hforward fun _ => false with ⟨-, hini⟩ | ⟨front, layers, tail, hrds, hfrt, -, -, hend⟩
    · cases hini
    · have hall := hall fun _ => false
      rw [hrds, forall_mem_append, forall_mem_append] at hall
      exact ⟨hfrt.1 hall.1.1, (hend fun _ => rfl).1 hall.2⟩
  · rcases hforward fails with ⟨hnil, -⟩ | ⟨front, layers, tail, hrds, hfrt, hlys, htail, -⟩
    · rw [hnil] at hrd
      cases hrd
    · rw [hrds, mem_append, mem_append] at hrd
      rcases hrd with (hrd | hrd) | hrd
      · exact hfrt.2 hcov.1 read hrd
      · exact hlys read hrd
      · exact htail hcov.2 read hrd
  · rcases hforward fails with ⟨-, hini⟩ | ⟨front, layers, tail, -, -, -, -, hend⟩
    · rw [hfails] at hini
      cases hini
    · exact (hend hfails).2

def gpt2 : HfModel where
  moduleList name := if name = dotted ["transformer", "h"] then some 1 else none
  hasModule name := name = dotted ["transformer", "ln_f"]
  inputEmbeddings := dotted ["transformer", "wte"]
  outputEmbeddings := some (dotted ["lm_head"])
  tied := true
  isLlava := false

/-- Its position embedding. -/
def wpe : Tensor := ⟨dotted ["transformer", "wpe", "weight"], 8, 4⟩

def gpt2Layout : Layout where
  pageSize := 4
  pageSize_pos := by decide
  pageCount := 4
  tensors := [⟨dotted ["transformer", "wte", "weight"], 0, 4⟩,
    ⟨dotted ["transformer", "h"] ++ [.item 0, .attr "weight"], 4, 4⟩, wpe,
    ⟨dotted ["transformer", "ln_f", "weight"], 12, 4⟩]
  bytes_pos := by decide
  fits := by decide

def gpt2Loader : LayerWeaveModelLoader where
  model := gpt2
  layout := gpt2Layout
  layerNames := [dotted ["transformer", "h"] ++ [.item 0]]
  normModules := [dotted ["transformer", "ln_f"]]
  embeddingPages := {0}
  layerPages := [{1}]
  requiredPages := Finset.range 4
  tailPages := {2, 3}

theorem new_gpt2 : new gpt2 gpt2Layout = .ok gpt2Loader := by rfl

def gpt2Pass : gpt2Loader.Pass where
  front := [dotted ["transformer", "wte"], dotted ["transformer", "wpe"]]
  tail := [dotted ["transformer", "ln_f"], dotted ["lm_head"]]
  front_apart := by decide
  tail_apart := by decide
  output_apart name hname := by
    obtain rfl := Option.some.inj hname
    decide

theorem gpt2_covers_iff : ((∀ fails, ∀ read ∈ (gpt2Loader.forward fails gpt2Pass ∅).1, gpt2Loader.Covered read) ↔
      gpt2Loader.FrontCovers gpt2Pass.front ∧ gpt2Loader.TailCovers False gpt2Pass.tail) ∧
    ∀ fails, (∀ stage, fails stage = false) → ∃ s, (gpt2Loader.forward fails gpt2Pass ∅).2 = .ok s :=
  loader_covers_iff new_gpt2 gpt2Pass ∅

/-- The position embedding is read before the tail is prepared. -/
theorem positions_read_too_early : new gpt2 gpt2Layout = .ok gpt2Loader ∧
    ∃ read ∈ (gpt2Loader.forward (fun _ => false) gpt2Pass ∅).1, read.tensor = wpe ∧ ¬gpt2Loader.Covered read := by
  refine ⟨new_gpt2, ⟨wpe, [.initial]⟩, by decide +kernel, rfl, fun h => ?_⟩
  obtain ⟨stage, hstg, hpg⟩ := h 2 (by decide)
  obtain rfl := mem_singleton.1 hstg
  revert hpg
  decide

end ServerlessLLM.Layerweave.Loader.LayerWeaveModelLoader
