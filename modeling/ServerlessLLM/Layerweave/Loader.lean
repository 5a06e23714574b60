import Mathlib.Order.Interval.Finset.Nat

/-!
# Loading a model layer by layer

`find_transformer_parts` and `LayerWeaveModelLoader` of `layerpipe_bench.py`: which pages a stage prepares, and what the hooks
of the modules prepare and wait for in a forward pass. A dotted name is the list of its parts here. While the pool maps pages it
protects those of the model, so that a page stays resident.
-/

namespace ServerlessLLM.Layerweave.Loader

open Function

/-- A part of a dotted name: an attribute, or a number in a list of modules. -/
inductive Part where
  | attr (name : String)
  | item (index : Nat)
deriving DecidableEq

abbrev Name := List Part

def dotted (names : List String) : Name := names.map Part.attr

/-- A tensor of the pool: its name, and where it lies behind the base of the model. -/
structure Tensor where
  name : Name
  begin : Nat
  bytes : Nat
deriving DecidableEq

/-- The layout of a model in the pool. -/
structure Layout where
  pageSize : Nat
  pageSize_pos : 0 < pageSize
  pageCount : Nat
  tensors : List Tensor
  bytes_pos : ∀ tensor ∈ tensors, 0 < tensor.bytes
  fits : ∀ tensor ∈ tensors, (tensor.begin + tensor.bytes - 1) / pageSize < pageCount

structure HfModel where
  /-- The length of the list of modules that a path leads to. -/
  moduleList : Name → Option Nat
  /-- The path leads to a module. -/
  hasModule : Name → Bool
  inputEmbeddings : Name
  outputEmbeddings : Option Name
  /-- The output embedding uses the weights of the input embedding. -/
  tied : Bool
  /-- `model_type` is `llava`. -/
  isLlava : Bool

inductive LoaderError where
  /-- `cannot locate decoder layers` -/
  | unsupportedArchitecture
  /-- `LayerWeave layout has an empty embedding or decoder layer` -/
  | emptyStage
  /-- `LayerWeave layer was not scheduled` -/
  | notScheduled
  /-- The pool does not prepare the pages of a stage. -/
  | prepareFailed
  /-- `LayerWeave prefill completed before the model became fully resident` -/
  | notResident
deriving DecidableEq

/-- The stages. -/
inductive Stage where
  | initial
  | layer (index : Nat)
  | tail
deriving DecidableEq

/-! ## The parts of a model -/

def layerCandidates : List Name :=
  [dotted ["model", "layers"], dotted ["language_model", "model", "layers"], dotted ["model", "decoder", "layers"],
    dotted ["transformer", "h"], dotted ["gpt_neox", "layers"]]

def normCandidates : List Name :=
  [dotted ["model", "norm"], dotted ["model", "decoder", "final_layer_norm"], dotted ["language_model", "model", "norm"],
    dotted ["transformer", "ln_f"], dotted ["gpt_neox", "final_layer_norm"]]

namespace HfModel

variable (model : HfModel)

/-- The path of the layers and the norms, of `find_transformer_parts`. -/
def findTransformerParts : Except LoaderError (Name × List Name) :=
  match layerCandidates.find? fun name => 0 < (model.moduleList name).getD 0 with
  | none => .error .unsupportedArchitecture
  | some name => .ok (name, normCandidates.filter fun norm => model.hasModule norm)

def layerNames (path : Name) : List Name :=
  (List.range ((model.moduleList path).getD 0)).map fun index => path ++ [.item index]

def skippedPrefixes : List Name := if model.isLlava then [dotted ["vision_tower"], dotted ["multi_modal_projector"]] else []

def skips (tensor : Tensor) : Bool := model.skippedPrefixes.any fun name => name.isPrefixOf tensor.name

end HfModel

namespace Layout

variable (layout : Layout)

def tensorPages (tensor : Tensor) : Finset Nat :=
  Finset.Icc (tensor.begin / layout.pageSize) ((tensor.begin + tensor.bytes - 1) / layout.pageSize)

def pagesOf (tensors : List Tensor) : Finset Nat := tensors.foldr (fun tensor pages => layout.tensorPages tensor ∪ pages) ∅

/-- The tensors whose name is a prefix, or goes on behind it with a dot. -/
def under (name : Name) : List Tensor := layout.tensors.filter fun tensor => name.isPrefixOf tensor.name

def pagesForPrefix (name : Name) : Finset Nat := layout.pagesOf (layout.under name)

def requiredPages (model : HfModel) : Finset Nat :=
  if model.isLlava then layout.pagesOf
    (layout.tensors.filter fun tensor => !model.skips tensor) else Finset.range layout.pageCount

end Layout

/-! ## The loader -/

/-- `LayerWeaveModelLoader`, after `_build_page_layout`. -/
structure LayerWeaveModelLoader where
  model : HfModel
  layout : Layout
  layerNames : List Name
  normModules : List Name
  embeddingPages : Finset Nat
  layerPages : List (Finset Nat)
  requiredPages : Finset Nat
  tailPages : Finset Nat

/-- `__init__`. -/
def new (model : HfModel) (layout : Layout) : Except LoaderError LayerWeaveModelLoader :=
  match model.findTransformerParts with
  | .error e => .error e
  | .ok (path, normModules) =>
    let layerNames := model.layerNames path
    let embeddingPages := layout.pagesForPrefix model.inputEmbeddings
    let layerPages := layerNames.map layout.pagesForPrefix
    let requiredPages := layout.requiredPages model
    let assigned := layerPages.foldl (· ∪ ·) embeddingPages
    if embeddingPages = ∅ ∨ ∃ pages ∈ layerPages, pages = ∅ then .error .emptyStage
    else .ok ⟨model, layout, layerNames, normModules, embeddingPages, layerPages, requiredPages, requiredPages \ assigned⟩

/-- A tensor that a module reads, with the stages whose `finished` event was waited for before. -/
structure Read where
  tensor : Tensor
  waited : List Stage
deriving DecidableEq

/-- What a forward pass changes. `events` has the stage of the event of a layer. -/
structure State where
  residency : Finset Nat
  scheduled : List Stage
  events : Nat → Option Stage
  tailEvent : Option Stage
  waited : List Stage
  reads : List Read

namespace LayerWeaveModelLoader

variable (loader : LayerWeaveModelLoader) (fails : Stage → Bool)

def stagePages : Stage → Finset Nat
  | .initial => loader.embeddingPages ∪ loader.layerPages.getD 0 ∅
  | .layer index => loader.layerPages.getD index ∅
  | .tail => loader.tailPages

def prepareStage (key : Stage) (s : State) : Except LoaderError State :=
  if fails key then .error .prepareFailed
  else .ok { s with residency := s.residency ∪ loader.stagePages key, scheduled := key :: s.scheduled }

def scheduleLayer (index : Nat) (s : State) : Except LoaderError State :=
  if .layer index ∈ s.scheduled then .ok s
  else do
    let s ← loader.prepareStage fails (.layer index) s
    .ok { s with events := update s.events index (some (.layer index)) }

def scheduleTail (s : State) : Except LoaderError State :=
  if .tail ∈ s.scheduled then .ok s
  else do
    let s ← loader.prepareStage fails .tail s
    .ok { s with tailEvent := some .tail }

/-- `_layer_pre_hook`. When the stage that it schedules fails, the module does not run. -/
def layerPreHook (index : Nat) (s : State) : Except LoaderError State :=
  match s.events index with
  | none => .error .notScheduled
  | some event =>
    let s := { s with waited := event :: s.waited }
    if index + 1 < loader.layerNames.length then loader.scheduleLayer fails (index + 1) s else loader.scheduleTail fails s

def tailPreHook (s : State) : State :=
  match s.tailEvent with
  | some event => { s with waited := event :: s.waited }
  | none => s

def hooksOutput (name : Name) : Bool :=
  loader.model.outputEmbeddings = some name ∧ name ≠ loader.model.inputEmbeddings

instance : LawfulBEq Name := inferInstance

/-- The hooks of a module, in the order in which they are installed. -/
def preHooks (name : Name) (s : State) : Except LoaderError State := do
  let s ← if name ∈ loader.layerNames then loader.layerPreHook fails (loader.layerNames.idxOf name) s else .ok s
  let s := if name ∈ loader.normModules then tailPreHook s else s
  .ok (if loader.hooksOutput name then tailPreHook s else s)

/-- The tensors that a module reads: its own, and if it is an output embedding that is tied, those of the input embedding. -/
def readBy (name : Name) : List Tensor :=
  loader.layout.under name ++
    if loader.model.outputEmbeddings = some name ∧
      loader.model.tied then loader.layout.under loader.model.inputEmbeddings else []

def runModule (name : Name) (s : State) : Except LoaderError State := do
  let s ← loader.preHooks fails name s
  .ok { s with reads := s.reads ++ (loader.readBy name).map fun tensor => ⟨tensor, s.waited⟩ }

/-- Modules run one after the other, until an exception. -/
def runModules : List Name → State → State × Option LoaderError
  | [], s => (s, none)
  | name :: names, s =>
    match loader.runModule fails name s with
    | .error e => (s, some e)
    | .ok s => runModules names s

/-- `prepare`, of a new loader. -/
def prepare (residency : Finset Nat) : Except LoaderError State := do
  let s ← loader.prepareStage fails .initial ⟨residency, [], fun _ => none, none, [], []⟩
  .ok { s with events := update s.events 0 (some .initial), scheduled := .layer 0 :: s.scheduled, waited := [.initial] }

def markPrefillComplete (s : State) : Except LoaderError State :=
  let s := tailPreHook s
  if loader.requiredPages ⊆ s.residency then .ok s else .error .notResident

/-- A forward pass: the modules in front of the layers, the layers, and the modules behind them. -/
structure Pass where
  front : List Name
  tail : List Name
  front_apart : ∀ name ∈ front, name ∉ loader.layerNames
  tail_apart : ∀ name ∈ tail, name ∉ loader.layerNames
  output_apart : ∀ name, loader.model.outputEmbeddings = some name → name ∉ loader.layerNames

def forward (pass : loader.Pass) (residency : Finset Nat) : List Read × Except LoaderError State :=
  match loader.prepare fails residency with
  | .error e => ([], .error e)
  | .ok s =>
    match loader.runModules fails (pass.front ++ loader.layerNames ++ pass.tail) s with
    | (s, some e) => (s.reads, .error e)
    | (s, none) => (s.reads, loader.markPrefillComplete s)

end LayerWeaveModelLoader

end ServerlessLLM.Layerweave.Loader
