import ServerlessLLM.Serving.StoreManager
import ServerlessLLM.Serving.Theorems.LocalStore

/-!
# Registrations that fail, and that are made again

A model that is in the table is on the disk of every worker node.
-/

namespace ServerlessLLM.Serving.StoreManager

open Runs List Dict Prod State LocalStore

def sizeOnDisk (localServers : Dict String Server) (node modelName : String) : Option Int :=
  (localServers.get? node).bind fun server => (server.state.diskModels.get? modelName).map snd

def InMemory (localServers : Dict String Server) (node modelName : String) : Prop :=
  ∃ server ∈ localServers.get? node,
    (server.state.pinnedMemoryPool.get? modelName).isSome ∨ (server.state.queuedModels.get? modelName).isSome

/-- Nothing on a disk is lost or changed, and no node. -/
structure Grows (before after : Dict String Server) : Prop where
  disk : ∀ node modelName size, sizeOnDisk before node modelName = some size → sizeOnDisk after node modelName = some size
  nodes : ∀ node, node ∈ before.keys → node ∈ after.keys

/-- The nodes, as a call notes them one after the other. -/
def noted (nodes : List String) (d : Dict String Bool) : Dict String Bool := nodes.foldl (fun d node => d.set node true) d

/-- The model can be registered on a node: it is there, or the client reports a size for each of its paths. -/
def passes (localServers : Dict String Server) (config : ModelConfig) (events : String → Events)
    (backend node : String) : Bool :=
  match prepare config (events node) backend with
  | .goesOn backend => (sizeOnDisk localServers node config.model).isSome ||
    (Server.paths config.model backend config.tensorParallelSize).all fun path => ((events node).register path).isSome
  | _ => false

def State.registered (s : State) (config : ModelConfig) (node : String) (server : Server) (now : ℚ) : State :=
  let s := { s with
    localServers := s.localServers.set node server
    modelStorageInfo := s.modelStorageInfo.modify config.model fun nodes => nodes.set node true }
  if node ∈ config.memoryPool then s.loadToHost node config.pretrainedModelNameOrPath now else s

variable {localServers before after : Dict String Server} {node node' modelName : String} {server : Server}
  {config : ModelConfig}
  {events : String → Events} {backend : String} {s s' : State}

/-! ## The local stores -/

theorem Grows.refl (localServers : Dict String Server) : Grows localServers localServers := ⟨fun _ _ _ => id, fun _ => id⟩

theorem Grows.trans {last : Dict String Server} (h : Grows before after) (h' : Grows after last) : Grows before last :=
  ⟨fun node modelName size hsz => h'.disk node modelName size (h.disk node modelName size hsz),
    fun node hnod => h'.nodes node (h.nodes node hnod)⟩

theorem sizeOnDisk_set (localServers : Dict String Server) (node node' modelName : String) (server : Server) :
    sizeOnDisk (localServers.set node server) node' modelName =
      if node' = node then (server.state.diskModels.get? modelName).map snd else sizeOnDisk localServers node' modelName := by
  unfold sizeOnDisk
  rw [get?_set]
  split
  · rfl
  · rfl

theorem sizeOnDisk_of_get? (h : localServers.get? node = some server) (modelName : String) :
    sizeOnDisk localServers node modelName = (server.state.diskModels.get? modelName).map snd := by
  unfold sizeOnDisk
  rw [h]
  rfl

theorem inMemory_set (localServers : Dict String Server) (node node' modelName : String) (server : Server) :
    InMemory (localServers.set node server) node' modelName ↔ if node' = node then
      (server.state.pinnedMemoryPool.get? modelName).isSome ∨ (server.state.queuedModels.get? modelName).isSome
      else InMemory localServers node' modelName := by
  unfold InMemory
  rw [get?_set]
  split
  · simp
  · rfl

theorem inMemory_of_get? (h : localServers.get? node = some server) (modelName : String) :
    InMemory localServers node modelName ↔
    (server.state.pinnedMemoryPool.get? modelName).isSome ∨ (server.state.queuedModels.get? modelName).isSome := by
  unfold InMemory
  rw [h]
  simp

theorem grows_set {server' : Server} (h : localServers.get? node = some server)
    (hdk : ∀ modelName entry, server.state.diskModels.get? modelName = some entry →
      server'.state.diskModels.get? modelName = some entry) : Grows localServers (localServers.set node server') where
  disk node' modelName size hsz := by
    rw [sizeOnDisk_set]
    split
    · rename_i hnod
      rw [hnod, sizeOnDisk_of_get? h] at hsz
      obtain ⟨entry, hentry, rfl⟩ := Option.map_eq_some_iff.1 hsz
      rw [hdk modelName entry hentry]
      rfl
    · exact hsz
  nodes node' hnod := mem_keys_set.2 (.inr hnod)

theorem Server.registerModel_spec {register : String → Option Int} {tensorParallelSize : Int} {server' : Server}
    {size : Option Int}
    (hbck : backend = "transformers" ∨ backend = "vllm")
    (h : server.registerModel modelName backend tensorParallelSize register = some (server', size)) :
    (∀ name entry, server.state.diskModels.get? name = some entry → server'.state.diskModels.get? name = some entry) ∧
    server'.state.pinnedMemoryPool = server.state.pinnedMemoryPool ∧ server'.state.queuedModels = server.state.queuedModels ∧
    ∃ n, (server'.state.diskModels.get? modelName).map snd = some n ∧
      size = if ((server.state.diskModels.get? modelName).map snd).isSome then none else some n := by
  unfold registerModel at h
  split at h
  · rename_i hkn
    obtain ⟨entry, hentry⟩ := Option.isSome_iff_exists.1 hkn
    cases h
    exact ⟨fun _ _ => id, rfl, rfl, entry.2, by rw [hentry]; rfl, by rw [hentry]; rfl⟩
  · rename_i hnew
    rw [Option.isSome_iff_ne_none, not_not] at hnew
    split at h
    · obtain ⟨n, hn⟩ : ∃ n, State.modelSize (getModelPath modelName backend) backend tensorParallelSize
          (fun path => (register path).getD 0) = some n := by
        unfold State.modelSize
        rcases hbck with rfl | rfl
        · exact ⟨_, rfl⟩
        · exact ⟨_, rfl⟩
      simp only [hn, Option.some.injEq, mk.injEq] at h
      obtain ⟨rfl, rfl⟩ := h
      have hsta : server.state.registerModel modelName backend tensorParallelSize (fun path => (register path).getD 0) =
          { server.state with diskModels := server.state.diskModels.set modelName (getModelPath modelName backend, n) } := by
        unfold State.registerModel
        simp only [hnew, hn]
        rfl
      rw [hsta]
      refine ⟨?_, rfl, rfl, n, ?_, ?_⟩
      · intro name entry hentry
        simp only
        rw [get?_set_of_ne]
        · exact hentry
        · rintro rfl
          rw [hnew] at hentry
          cases hentry
      · simp
      · rw [hnew]
        rfl
    · cases h

theorem Server.registerModel_isSome {register : String → Option Int} {tensorParallelSize : Int} :
    (server.registerModel modelName backend tensorParallelSize register).isSome ↔
      ((server.state.diskModels.get? modelName).map snd).isSome ∨
        ∀ path ∈ paths modelName backend tensorParallelSize, (register path).isSome := by
  unfold registerModel
  rw [Option.isSome_map]
  split
  · rename_i h
    simp [h]
  · rename_i h
    split
    · rename_i hpaths
      exact iff_of_true rfl (.inr hpaths)
    · rename_i hpaths
      exact iff_of_false (by simp) (not_or.2 ⟨h, hpaths⟩)

theorem held_loadToHost (cfg : LocalStore.Config) (store : LocalStore.State) (name : String) (now : ℚ) (modelName : String) :
    ((store.loadToHost cfg name now).pinnedMemoryPool.get? modelName).isSome ∨
      ((store.loadToHost cfg name now).queuedModels.get? modelName).isSome ↔
    ((store.pinnedMemoryPool.get? modelName).isSome ∨ (store.queuedModels.get? modelName).isSome) ∨
      name = modelName ∧ (store.diskModels.get? modelName).isSome := by
  unfold LocalStore.State.loadToHost
  split
  · rename_i hdk
    refine (or_iff_left ?_).symm
    rintro ⟨rfl, hso⟩
    rw [hdk] at hso
    cases hso
  · rename_i path size hdk
    split
    · rename_i hpin
      refine (or_iff_left_of_imp ?_).symm
      rintro ⟨rfl, -⟩
      exact .inl hpin
    · split
      · rename_i hqd
        refine (or_iff_left_of_imp ?_).symm
        rintro ⟨rfl, -⟩
        exact .inr hqd
      · simp only
        rw [get?_set]
        by_cases hnm : modelName = name
        · subst hnm
          simp [hdk]
        · simp [hnm, Ne.symm hnm]

theorem loadToHost_spec (s : State) (node : String) (name : Option String) (now : ℚ) :
    (s.loadToHost node name now).modelInfo = s.modelInfo ∧ (s.loadToHost node name now).modelStorageInfo = s.modelStorageInfo ∧
    (∀ node' modelName, sizeOnDisk (s.loadToHost node name now).localServers node' modelName =
      sizeOnDisk s.localServers node' modelName) ∧
    (∀ node', node' ∈ (s.loadToHost node name now).localServers.keys ↔ node' ∈ s.localServers.keys) ∧
    (∀ node' modelName, InMemory (s.loadToHost node name now).localServers node' modelName ↔
      InMemory s.localServers node' modelName ∨
      node' = node ∧ name = some modelName ∧ (sizeOnDisk s.localServers node modelName).isSome) := by
  unfold loadToHost
  split
  · rename_i server name hsrv
    refine ⟨rfl, rfl, ?_, ?_, ?_⟩
    · intro node' modelName
      rw [sizeOnDisk_set]
      split
      · rename_i hnod
        rw [hnod, sizeOnDisk_of_get? hsrv]
        rcases loadToHost_eq server.cfg server.state name now with heq | ⟨-, -, -, time, heq⟩
        · rw [heq]
        · rw [heq]
      · rfl
    · intro node'
      rw [mem_keys_set]
      exact or_iff_right_of_imp fun hnod => hnod ▸ mem_keys_iff.2 ⟨server, hsrv⟩
    · intro node' modelName
      rw [inMemory_set]
      by_cases hnod : node' = node
      · subst hnod
        rw [if_pos rfl, inMemory_of_get? hsrv, sizeOnDisk_of_get? hsrv, held_loadToHost]
        simp
      · simp [hnod]
  · rename_i hno
    refine ⟨rfl, rfl, fun _ _ => rfl, fun _ => Iff.rfl, ?_⟩
    intro node' modelName
    refine (or_iff_left ?_).symm
    rintro ⟨-, rfl, hdk⟩
    cases hsrv : s.localServers.get? node with
    | none =>
      rw [sizeOnDisk, hsrv] at hdk
      cases hdk
    | some server => exact hno server modelName hsrv rfl

/-! ## The loop over the nodes -/

theorem prepare_goesOn {backend' : String} {event : Events} (h : prepare config event backend = .goesOn backend') :
    (backend' = "transformers" ∨ backend' = "vllm") ∧ ∀ event',
      prepare config event' backend' = prepare config event' backend := by
  unfold prepare at h ⊢
  split at h
  · rename_i htrf
    split at h
    · cases h
    · split at h
      · cases h
        exact ⟨.inl htrf, fun _ => rfl⟩
      · cases h
  · rename_i htrf
    split at h
    · rename_i hvllm
      split at h
      · cases h
        refine ⟨.inr rfl, ?_⟩
        intro event'
        rw [if_neg htrf, if_pos hvllm]
        rfl
      · cases h
    · cases h

theorem prepare_stops {event : Events} (h : prepare config event backend = .stops) (event' : Events) :
    prepare config event' backend = .stops := by
  unfold prepare at h ⊢
  split at h
  · rename_i htrf
    rw [if_pos htrf]
    cases hclass : config.hfModelClass with
    | none => rfl
    | some hfModelClass =>
      simp only [hclass] at h
      split at h
      · cases h
      · cases h
  · rename_i htrf
    rw [if_neg htrf]
    split at h
    · split at h
      · cases h
      · cases h
    · rename_i hvllm
      rw [if_neg hvllm]

theorem passes_congr {backend' : String} (hprp : ∀ event, prepare config event backend' = prepare config event backend)
    (hdk : sizeOnDisk after node config.model = sizeOnDisk before node config.model) :
    passes after config events backend' node = passes before config events backend node := by
  unfold passes
  rw [hprp, hdk]

theorem registerNode_spec (events : String → Events) {tensorParallelSize : Int} {register : String → Option Int}
    {server' : Server} {size : Option Int}
    (hsrv : s.localServers.get? node = some server) (hbck : backend = "transformers" ∨ backend = "vllm")
    (hreg : server.registerModel config.model backend tensorParallelSize register = some (server', size))
    (hs' : s' = s.registered config node server' (events node).now) :
    s'.modelInfo = s.modelInfo ∧
    s'.modelStorageInfo = s.modelStorageInfo.modify config.model (fun nodes => nodes.set node true) ∧
    Grows s.localServers s'.localServers ∧
    (∀ node' modelName, node' ≠ node → sizeOnDisk s'.localServers node' modelName = sizeOnDisk s.localServers node' modelName ∧
      (InMemory s'.localServers node' modelName ↔ InMemory s.localServers node' modelName)) ∧
    (∃ n, sizeOnDisk s'.localServers node config.model = some n ∧
      size = if (sizeOnDisk s.localServers node config.model).isSome then none else some n) ∧
    (InMemory s'.localServers node config.model ↔ InMemory s.localServers node config.model ∨
      node ∈ config.memoryPool ∧ config.pretrainedModelNameOrPath = some config.model) := by
  obtain ⟨hkept, hpin, hqd, n, hn, hsz⟩ := Server.registerModel_spec hbck hreg
  have hgro := grows_set hsrv hkept
  rw [← sizeOnDisk_of_get? hsrv] at hsz
  -- before the model is loaded to the host
  have hdk : ∀ node' modelName, sizeOnDisk (s.localServers.set node server') node' modelName =
      if node' = node then (server'.state.diskModels.get? modelName).map snd
      else sizeOnDisk s.localServers node' modelName := fun node' modelName => sizeOnDisk_set _ _ _ _ _
  have hmry : ∀ node' modelName, InMemory (s.localServers.set node server') node' modelName ↔
      InMemory s.localServers node' modelName := by
    intro node' modelName
    rw [inMemory_set, hpin, hqd]
    split
    · rename_i hnod
      rw [hnod, inMemory_of_get? hsrv]
    · rfl
  by_cases hpo : node ∈ config.memoryPool
  · rw [registered, if_pos hpo] at hs'
    obtain ⟨hin, hsto, hld, hks, hhe⟩ := loadToHost_spec { s with
        localServers := s.localServers.set node server'
        modelStorageInfo := s.modelStorageInfo.modify config.model fun nodes => nodes.set node true }
        node config.pretrainedModelNameOrPath (events node).now
    rw [← hs'] at hin hsto hld hks hhe
    refine ⟨hin, hsto, ?_, ?_, ⟨n, ?_, hsz⟩, ?_⟩
    · refine hgro.trans ⟨?_, fun node' => (hks node').2⟩
      intro node' modelName size' hsz'
      rw [hld]
      exact hsz'
    · intro node' modelName hne
      refine ⟨?_, ?_⟩
      · rw [hld, hdk, if_neg hne]
      · rw [hhe, hmry]
        exact or_iff_left fun h => hne h.1
    · rw [hld, hdk, if_pos rfl, hn]
    · rw [hhe, hmry, hdk, if_pos rfl, hn]
      simp [hpo]
  · rw [registered, if_neg hpo] at hs'
    subst hs'
    refine ⟨rfl, rfl, hgro, ?_, ⟨n, ?_, hsz⟩, ?_⟩
    · intro node' modelName hne
      refine ⟨?_, hmry node' modelName⟩
      rw [hdk, if_neg hne]
    · rw [hdk, if_pos rfl, hn]
    · rw [hmry]
      simp [hpo]

theorem takeWhile_congr {α : Type} {p q : α → Bool} {l : List α} (h : ∀ a ∈ l, p a = q a) : l.takeWhile p = l.takeWhile q := by
  induction l with
  | nil => rfl
  | cons a l ih =>
    rw [takeWhile_cons, takeWhile_cons, h a mem_cons_self, ih fun b hb => h b (mem_cons_of_mem a hb)]

theorem registerNodes_of_not_passes {node : String} (nodes : List String) (hnod : node ∈ s.localServers.keys)
    (hpas : passes s.localServers config events backend node = false) (modelSize : Option (Option Int)) :
    ∃ result, registerNodes config events (node :: nodes) backend modelSize s = (s, result) ∧
      ((∃ e, result = .error e) ∨ result = .ok modelSize ∧ ∀ event, prepare config event backend = .stops) := by
  unfold registerNodes
  unfold passes at hpas
  cases hprp : prepare config (events node) backend with
  | stops => exact ⟨_, rfl, .inr ⟨rfl, prepare_stops hprp⟩⟩
  | raises => exact ⟨_, rfl, .inl ⟨_, rfl⟩⟩
  | goesOn backend =>
    obtain ⟨server, hsrv⟩ := mem_keys_iff.1 hnod
    rw [hprp] at hpas
    simp only [Bool.or_eq_false_iff, sizeOnDisk_of_get? hsrv] at hpas
    have hno : server.registerModel config.model backend config.tensorParallelSize (events node).register = none := by
      rw [← Option.not_isSome_iff_eq_none, Server.registerModel_isSome, not_or, ← all_eq_true, hpas.1, hpas.2]
      exact ⟨nofun, nofun⟩
    simp only [hsrv, hno]
    exact ⟨_, rfl, .inl ⟨_, rfl⟩⟩

theorem registerNodes_spec {nodes : List String} (hnd : nodes.Nodup) (hnds : ∀ node ∈ nodes, node ∈ s.localServers.keys)
    {storage : Dict String (Dict String Bool)} {d : Dict String Bool} (hsto : s.modelStorageInfo = storage.set config.model d)
    (modelSize : Option (Option Int)) {recorded : List String}
    (hrec : recorded = nodes.takeWhile (passes s.localServers config events backend))
    {r : State × Except PythonError (Option (Option Int))} (hr : r = registerNodes config events nodes backend modelSize s) :
    r.1.modelInfo = s.modelInfo ∧ r.1.modelStorageInfo = storage.set config.model (noted recorded d) ∧
    Grows s.localServers r.1.localServers ∧
    (∀ node modelName, node ∉ nodes → sizeOnDisk r.1.localServers node modelName = sizeOnDisk s.localServers node modelName ∧
      (InMemory r.1.localServers node modelName ↔ InMemory s.localServers node modelName)) ∧
    (recorded = nodes → (∀ node ∈ nodes, (sizeOnDisk r.1.localServers node config.model).isSome) ∧
      (∀ node ∈ nodes, InMemory r.1.localServers node config.model ↔ InMemory s.localServers node config.model ∨
        node ∈ config.memoryPool ∧ config.pretrainedModelNameOrPath = some config.model) ∧
      r.2 = .ok (match nodes.getLast? with
        | none => modelSize
        | some last => some (if (sizeOnDisk s.localServers last config.model).isSome then none
          else sizeOnDisk r.1.localServers last config.model))) ∧
    (recorded ≠ nodes → (∃ e, r.2 = .error e) ∨ r.2 = .ok modelSize ∧ ∀ event, prepare config event backend = .stops) := by
  subst hrec hr
  induction nodes generalizing s backend d modelSize with
  | nil =>
    unfold registerNodes
    simp [hsto, noted, Grows.refl]
  | cons node nodes ih =>
    rw [nodup_cons] at hnd
    cases hpas : passes s.localServers config events backend node with
    | false =>
      obtain ⟨result, hrs, hend⟩ := registerNodes_of_not_passes nodes (hnds node mem_cons_self) hpas modelSize
      rw [hrs, takeWhile_cons_of_neg (by simp [hpas])]
      refine ⟨rfl, hsto, .refl _, fun _ _ _ => ⟨rfl, Iff.rfl⟩, nofun, fun _ => hend⟩
    | true =>
      rw [takeWhile_cons_of_pos hpas]
      unfold passes at hpas
      cases hprp : prepare config (events node) backend with
      | stops => simp [hprp] at hpas
      | raises => simp [hprp] at hpas
      | goesOn backend' =>
        obtain ⟨server, hsrv⟩ := mem_keys_iff.1 (hnds node mem_cons_self)
        simp only [hprp, Bool.or_eq_true, sizeOnDisk_of_get? hsrv, all_eq_true] at hpas
        obtain ⟨⟨server', size⟩, hreg⟩ := Option.isSome_iff_exists.1 (Server.registerModel_isSome.2 hpas)
        obtain ⟨hbck, hsa⟩ := prepare_goesOn hprp
        obtain ⟨hin, hnoted, hgro, hoth, ⟨n, hn, hsz⟩, hhe⟩ := registerNode_spec (s := s) events hsrv hbck hreg rfl
        have hst : registerNodes config events (node :: nodes) backend modelSize s =
            registerNodes config events nodes backend' (some size) (s.registered config node server' (events node).now) := by
          rw [registerNodes]
          simp only [hprp, hsrv, hreg]
          rfl
        have hsto' : (s.registered config node server' (events node).now).modelStorageInfo =
            storage.set config.model (d.set node true) := by
          rw [hnoted, hsto, Dict.modify_of_get? (Dict.get?_set_self _ _ _), Dict.set_set]
        have htake : nodes.takeWhile (passes
          (s.registered config node server' (events node).now).localServers config events backend') =
            nodes.takeWhile (passes s.localServers config events backend) :=
          takeWhile_congr fun node' hnod' => passes_congr hsa (hoth node' _ fun heq => hnd.1 (heq ▸ hnod')).1
        obtain ⟨hin', hnoted', hgro', hoth', hall, hpart⟩ :=
          ih hnd.2 (fun node' hnod' => hgro.nodes node' (hnds node' (mem_cons_of_mem node hnod'))) hsto' (some size)
        rw [htake] at hnoted' hall hpart
        rw [hst]
        refine ⟨hin'.trans hin, hnoted', hgro.trans hgro', ?_, ?_, ?_⟩
        · intro node' modelName hnod'
          rw [mem_cons, not_or] at hnod'
          obtain ⟨hdk, hmry⟩ := hoth node' modelName hnod'.1
          obtain ⟨hdk', hmry'⟩ := hoth' node' modelName hnod'.2
          exact ⟨hdk'.trans hdk, hmry'.trans hmry⟩
        · intro hrec
          obtain ⟨hdk, hmry, hok⟩ := hall (cons.inj hrec).2
          refine ⟨?_, ?_, ?_⟩
          · intro node' hnod'
            rcases mem_cons.1 hnod' with rfl | hnod'
            · rw [hgro'.disk _ _ _ hn]
              rfl
            · exact hdk node' hnod'
          · intro node' hnod'
            rcases mem_cons.1 hnod' with rfl | hnod'
            · rw [(hoth' node' config.model hnd.1).2, hhe]
            · rw [hmry node' hnod', (hoth node' config.model fun heq => hnd.1 (heq ▸ hnod')).2]
          · rw [hok]
            cases nodes using reverseRec with
            | nil =>
              simp only [getLast?_nil, getLast?_singleton]
              rw [hgro'.disk _ _ _ hn, hsz]
            | append_singleton nodes last =>
              have hne : last ≠ node := fun heq => hnd.1 (heq ▸ by simp)
              rw [← cons_append, getLast?_concat, getLast?_concat]
              simp only [(hoth last config.model hne).1]
        · intro hrec
          rcases hpart fun heq => hrec (congrArg (node :: ·) heq) with herr | ⟨-, hstops⟩
          · exact .inl herr
          · have hstop := hstops (events node)
            rw [hsa, hprp] at hstop
            cases hstop

/-! ## A call -/

theorem connect_spec {nodes : List String} (h : connect nodes before = some after) : (∀ node ∈ nodes, node ∈ after.keys) ∧
    (∀ node, node ∈ before.keys → node ∈ after.keys) ∧
    (∀ node modelName, sizeOnDisk after node modelName = sizeOnDisk before node modelName) ∧
    ∀ node modelName, InMemory after node modelName ↔ InMemory before node modelName := by
  induction nodes generalizing before with
  | nil =>
    cases h
    exact ⟨by simp, fun _ => id, fun _ _ => rfl, fun _ _ => Iff.rfl⟩
  | cons node nodes ih =>
    unfold connect at h
    split at h
    · rename_i hnod
      obtain ⟨hnds, hks, hdk, hmry⟩ := ih h
      exact ⟨forall_mem_cons.2 ⟨hks node hnod, hnds⟩, hks, hdk, hmry⟩
    · rename_i hnod
      have hno := get?_eq_none_iff.2 hnod
      split at h
      · cases h
      · rename_i first others hent
        obtain ⟨hnds, hks, hdk, hmry⟩ := ih h
        refine ⟨forall_mem_cons.2 ⟨hks node (mem_keys_set.2 (.inl rfl)), hnds⟩,
          fun node' hnod' => hks node' (mem_keys_set.2 (.inr hnod')), ?_, ?_⟩
        · intro node' modelName
          rw [hdk, sizeOnDisk_set]
          split
          · rename_i heq
            rw [heq, sizeOnDisk, hno]
            rfl
          · rfl
        · intro node' modelName
          rw [hmry, inMemory_set]
          split
          · rename_i heq
            rw [heq, InMemory, hno]
            simp [Server.new, LocalStore.State.init]
          · rfl

theorem connect_isSome (nodes : List String) (h : before.entries ≠ []) : ∃ after, connect nodes before = some after := by
  induction nodes generalizing before with
  | nil => exact ⟨before, rfl⟩
  | cons node nodes ih =>
    unfold connect
    split
    · exact ih h
    · rename_i hnod
      split
      · rename_i hent
        exact absurd hent h
      · refine ih ?_
        rw [entries_set_of_not_mem hnod]
        simp

namespace State

def recorded (s : State) (workers : Workers) (config : ModelConfig) (events : String → Events)
    (backend : String) : List String :=
  if s.localServers.entries = [] ∨ ¬∀ node ∈ config.memoryPool, node ∈ workers.nodes then []
  else workers.nodes.takeWhile (passes s.localServers config events backend)

end State

theorem register_new (workers : Workers) (events : String → Events) (hbck : config.backend = some backend)
    (hnew : config.model ∉ s.modelInfo.keys) {recorded : List String}
      (hrec : recorded = s.recorded workers config events backend)
    {r : State × Outcome} (hr : r = s.register workers config events) :
    Grows s.localServers r.1.localServers ∧
    r.1.modelStorageInfo = s.modelStorageInfo.set config.model (noted recorded .empty) ∧
    (workers.nodes ≠ [] ∧ recorded = workers.nodes → r.2 = .completed ∧
      (∃ last ∈ workers.nodes, workers.nodes.getLast? = some last ∧ r.1.modelInfo = s.modelInfo.set config.model
        (if (sizeOnDisk s.localServers last config.model).isSome then none else sizeOnDisk r.1.localServers last config.model)) ∧
      (∀ node ∈ workers.nodes, (sizeOnDisk r.1.localServers node config.model).isSome) ∧
      ∀ node ∈ config.memoryPool, InMemory r.1.localServers node config.model ↔ InMemory s.localServers node config.model ∨
        config.pretrainedModelNameOrPath = some config.model) ∧
    (¬(workers.nodes ≠ [] ∧ recorded = workers.nodes) → r.2 ≠ .completed ∧ r.1.modelInfo = s.modelInfo) := by
  unfold State.recorded at hrec
  unfold register at hr
  simp only [hbck, if_neg hnew] at hr
  by_cases hwks : workers.nodes = []
  · rw [if_pos hwks] at hr
    rw [hwks, takeWhile_nil, ite_self] at hrec
    subst hr hrec
    exact ⟨.refl _, rfl, fun h => absurd hwks h.1, fun _ => ⟨by simp, rfl⟩⟩
  · rw [if_neg hwks] at hr
    by_cases hservers : s.localServers.entries = []
    · have hno : connect workers.nodes s.localServers = none := by
        obtain ⟨node, nodes, hnds⟩ := exists_cons_of_ne_nil hwks
        rw [hnds]
        simp [connect, Dict.keys, hservers]
      rw [if_pos (.inl hservers)] at hrec
      simp only [hno] at hr
      subst hr hrec
      exact ⟨.refl _, rfl, fun h => absurd h.2.symm hwks, fun _ => ⟨by simp, rfl⟩⟩
    · obtain ⟨localServers, hconnect⟩ := connect_isSome workers.nodes hservers
      obtain ⟨hnds, hks, hdk, hmry⟩ := connect_spec hconnect
      have hgro : Grows s.localServers localServers := ⟨fun node modelName size hsz => (hdk node modelName).trans hsz, hks⟩
      simp only [hconnect] at hr
      by_cases hpo : ∀ node ∈ config.memoryPool, node ∈ workers.nodes
      · rw [if_neg (not_or.2 ⟨hservers, not_not.2 hpo⟩)] at hrec
        rw [if_pos hpo] at hr
        have hrec' : recorded = workers.nodes.takeWhile (passes localServers config events backend) :=
          hrec.trans (takeWhile_congr fun node _ => (passes_congr (fun _ => rfl) (hdk node config.model)).symm)
        generalize hloop : registerNodes config events workers.nodes backend none { s with
          modelStorageInfo := s.modelStorageInfo.set config.model .empty
          localServers := localServers } = t at hr
        obtain ⟨t, result⟩ := t
        obtain ⟨hin, hnoted, hgro', -, hall, hpart⟩ := registerNodes_spec (s := { s with
          modelStorageInfo := s.modelStorageInfo.set config.model .empty
          localServers := localServers }) workers.nodup hnds rfl none hrec' hloop.symm
        refine ⟨?_, ?_, ?_, ?_⟩
        · cases result with
          | error e => exact hr ▸ hgro.trans hgro'
          | ok modelSize =>
            cases modelSize with
            | none => exact hr ▸ hgro.trans hgro'
            | some modelSize => exact hr ▸ hgro.trans hgro'
        · cases result with
          | error e => exact hr ▸ hnoted
          | ok modelSize =>
            cases modelSize with
            | none => exact hr ▸ hnoted
            | some modelSize => exact hr ▸ hnoted
        · rintro ⟨-, hcmp⟩
          obtain ⟨hdk', hmry', hok⟩ := hall hcmp
          obtain ⟨last, hla⟩ := Option.isSome_iff_exists.1 (getLast?_isSome.2 hwks)
          simp only [hla] at hok
          simp only [hok] at hr
          subst hr
          refine ⟨rfl, ⟨last, mem_of_getLast? hla, hla, ?_⟩, hdk', ?_⟩
          · have hin : t.modelInfo = s.modelInfo := hin
            simp only [hin, hdk]
          · intro node hnod
            rw [hmry' node (hpo node hnod), hmry]
            simp [hnod]
        · intro hcmp
          rcases hpart fun heq => hcmp ⟨hwks, heq⟩ with ⟨e, herr⟩ | ⟨hok, -⟩
          · simp only at herr
            simp only [herr] at hr
            subst hr
            exact ⟨by simp, hin⟩
          · simp only at hok
            simp only [hok] at hr
            subst hr
            exact ⟨by simp, hin⟩
      · rw [if_pos (.inr hpo)] at hrec
        rw [if_neg hpo] at hr
        subst hr hrec
        exact ⟨hgro, rfl, fun h => absurd h.2.symm hwks, fun _ => ⟨by simp, rfl⟩⟩

/-! ## All calls -/

/-- The registration of a model is complete. -/
structure Registered (s : State) (workers : Workers) (config : ModelConfig) : Prop where
  size : ∃ size, s.modelInfo.get? config.model = some (some size) ∧
    ∃ node ∈ workers.nodes, sizeOnDisk s.localServers node config.model = some size
  nodes : ∃ d, s.modelStorageInfo.get? config.model = some d ∧ ∀ node, node ∈ d.keys ↔ node ∈ workers.nodes
  disk : ∀ node ∈ workers.nodes, (sizeOnDisk s.localServers node config.model).isSome
  memory : ∀ node ∈ config.memoryPool, InMemory s.localServers node config.model

/-- A call that completes has registered the model; one that is rejected or raises leaves the tables as they are. -/
def Right (workers : Workers) (s : State) : Step → Prop
  | .register config events =>
    if (s.register workers config events).2 = .completed then Registered (s.register workers config events).1 workers config
    else (s.register workers config events).1.modelInfo = s.modelInfo ∧
      (s.register workers config events).1.modelStorageInfo = s.modelStorageInfo
  | _ => True

/-- The condition on a call. For a model in the table, the nodes of the pool have it. Of a new one that all nodes register, the
last node does not know it, and each node of the pool has it unless it is loaded by its name; of one that some node does not
register, the table of the nodes already has those that do. -/
def Meets (workers : Workers) (s : State) : Step → Prop
  | .register config events => ∀ backend, config.backend = some backend →
    if config.model ∈ s.modelInfo.keys then ∀ node ∈ config.memoryPool, InMemory s.localServers node config.model
    else if workers.nodes ≠ [] ∧ s.recorded workers config events backend = workers.nodes then
      (∀ last, workers.nodes.getLast? = some last → sizeOnDisk s.localServers last config.model = none) ∧
        ∀ node ∈ config.memoryPool, InMemory s.localServers node config.model ∨
          config.pretrainedModelNameOrPath = some config.model
    else s.modelStorageInfo.get? config.model = some (noted (s.recorded workers config events backend) .empty)
  | _ => True

/-- A model in the table is noted and stored at each worker node. -/
structure Consistent (workers : Workers) (s : State) : Prop where
  nodes : ∀ modelName ∈ s.modelInfo.keys, ∃ d, s.modelStorageInfo.get? modelName = some d ∧
    ∀ node, node ∈ d.keys ↔ node ∈ workers.nodes
  disk : ∀ modelName ∈ s.modelInfo.keys, ∀ node ∈ workers.nodes, (sizeOnDisk s.localServers node modelName).isSome

/-- The sizes in the table are those of the stores. -/
def Sized (workers : Workers) (s : State) : Prop :=
  ∀ modelName ∈ s.modelInfo.keys, ∃ size, s.modelInfo.get? modelName = some (some size) ∧
    ∃ node ∈ workers.nodes, sizeOnDisk s.localServers node modelName = some size

variable {workers : Workers}

theorem mem_keys_noted (nodes : List String) (d : Dict String Bool) : node ∈ (noted nodes d).keys ↔
    node ∈ nodes ∨ node ∈ d.keys := by
  unfold noted
  induction nodes generalizing d with
  | nil => simp
  | cons node' nodes ih =>
    rw [foldl_cons, ih, mem_keys_set, mem_cons]
    tauto

theorem evict_diskModels (cfg : LocalStore.Config) (requiredChunks : Int) (models : List (String × ℚ))
    (store : LocalStore.State) :
    (State.evict cfg requiredChunks models store).1.diskModels = store.diskModels := by
  induction models generalizing store with
  | nil => rfl
  | cons model models ih =>
    unfold State.evict
    split
    · split
      · exact ih store
      · rfl
    · rfl

theorem loadingLoop_diskModels (cfg : LocalStore.Config) (store : LocalStore.State) (ret : Bool) (now : ℚ) :
    (store.loadingLoop cfg ret now).diskModels = store.diskModels := by
  unfold State.loadingLoop
  split
  · rfl
  · split
    · rfl
    · rename_i size _
      have hevict := evict_diskModels cfg (cfg.requiredChunks size) store.sortedModels store
      split
      · rename_i hlru
        exact (congrArg (fun r => r.1.diskModels) hlru).symm.trans hevict
      · rename_i hlru
        exact (congrArg (fun r => r.1.diskModels) hlru).symm.trans hevict
      · rename_i hlru
        simp only
        split
        · exact (congrArg (fun r => r.1.diskModels) hlru).symm.trans hevict
        · exact (congrArg (fun r => r.1.diskModels) hlru).symm.trans hevict

theorem step_between {c : Step} (hc : ∀ config events, c ≠ .register config events) (hst : s.step workers c = some s') :
    s'.modelInfo = s.modelInfo ∧ s'.modelStorageInfo = s.modelStorageInfo ∧ Grows s.localServers s'.localServers := by
  cases c with
  | register config events => exact absurd rfl (hc config events)
  | loadToHost node modelName now =>
    cases hst
    obtain ⟨hin, hsto, hdk, hks, -⟩ := loadToHost_spec s node (some modelName) now
    exact ⟨hin, hsto, fun node' name size hsz => (hdk node' name).trans hsz, fun node' => (hks node').2⟩
  | loadingLoop node ret now =>
    unfold step at hst
    cases hsrv : s.localServers.get? node with
    | none =>
      simp only [hsrv] at hst
      cases hst
    | some server =>
      simp only [hsrv] at hst
      split at hst
      · cases hst
        refine ⟨rfl, rfl, grows_set hsrv ?_⟩
        intro name entry hentry
        simp only [loadingLoop_diskModels]
        exact hentry
      · cases hst

theorem Grows.isSome (h : Grows before after) (hso : (sizeOnDisk before node modelName).isSome) :
    (sizeOnDisk after node modelName).isSome := by
  obtain ⟨size, hsz⟩ := Option.isSome_iff_exists.1 hso
  rw [h.disk _ _ _ hsz]
  rfl

theorem Consistent.mono (h : Consistent workers s) (hin : s'.modelInfo = s.modelInfo)
    (hsto : ∀ modelName ∈ s.modelInfo.keys, s'.modelStorageInfo.get? modelName = s.modelStorageInfo.get? modelName)
    (hgro : Grows s.localServers s'.localServers) : Consistent workers s' where
  nodes modelName hmod := by
    rw [hin] at hmod
    rw [hsto modelName hmod]
    exact h.nodes modelName hmod
  disk modelName hmod node hnod := hgro.isSome (h.disk modelName (hin ▸ hmod) node hnod)

theorem register_of_no_backend (workers : Workers) (s : State) (events : String → Events) (h : config.backend = none) :
    s.register workers config events = (s, .rejected) := by
  unfold register
  rw [h]

theorem register_of_known (events : String → Events) (h : config.backend = some backend)
    (hkn : config.model ∈ s.modelInfo.keys) :
    s.register workers config events = (s, .completed) := by
  unfold register
  simp only [h, if_pos hkn]

theorem Consistent.register (h : Consistent workers s) (config : ModelConfig) (events : String → Events) :
    Consistent workers (s.register workers config events).1 := by
  cases hbck : config.backend with
  | none =>
    rw [register_of_no_backend workers s events hbck]
    exact h
  | some backend =>
    by_cases hkn : config.model ∈ s.modelInfo.keys
    · rw [register_of_known events hbck hkn]
      exact h
    · obtain ⟨hgro, hsto, hall, hpart⟩ := register_new workers events hbck hkn rfl rfl
      have hoth : ∀ modelName ∈ s.modelInfo.keys,
          (s.register workers config events).1.modelStorageInfo.get? modelName = s.modelStorageInfo.get? modelName := by
        intro modelName hmod
        rw [hsto]
        exact get?_set_of_ne _ _ fun heq => hkn (heq ▸ hmod)
      by_cases hcmp : workers.nodes ≠ [] ∧ s.recorded workers config events backend = workers.nodes
      · obtain ⟨-, ⟨last, -, -, hin⟩, hdk, -⟩ := hall hcmp
        constructor
        case nodes =>
          intro modelName hmod
          rw [hin, mem_keys_set] at hmod
          rcases hmod with rfl | hmod
          · refine ⟨_, by rw [hsto, get?_set_self], fun node => ?_⟩
            rw [mem_keys_noted, hcmp.2]
            simp [Dict.keys]
          · rw [hoth modelName hmod]
            exact h.nodes modelName hmod
        case disk =>
          intro modelName hmod node hnod
          rw [hin, mem_keys_set] at hmod
          rcases hmod with rfl | hmod
          · exact hdk node hnod
          · exact hgro.isSome (h.disk modelName hmod node hnod)
      · exact h.mono (hpart hcmp).2 hoth hgro

theorem Consistent.step (h : Consistent workers s) {c : Step} (hst : s.step workers c = some s') : Consistent workers s' := by
  by_cases hc : ∃ config events, c = .register config events
  · obtain ⟨config, events, rfl⟩ := hc
    cases hst
    exact h.register config events
  · obtain ⟨hin, hsto, hgro⟩ := step_between (fun config events heq => hc ⟨config, events, heq⟩) hst
    exact h.mono hin (fun modelName _ => by rw [hsto]) hgro

theorem right_iff (h : Consistent workers s) (hsized : Sized workers s) (c : Step) : Right workers s c ↔ Meets workers s c := by
  cases c with
  | register config events =>
    cases hbck : config.backend with
    | none => simp [Right, Meets, hbck, register_of_no_backend workers s events hbck]
    | some backend =>
      simp only [Right, Meets, hbck, Option.some.injEq, forall_eq']
      by_cases hkn : config.model ∈ s.modelInfo.keys
      · rw [register_of_known events hbck hkn, if_pos rfl, if_pos hkn]
        exact ⟨fun hright => hright.memory, fun hmry => ⟨hsized _ hkn, h.nodes _ hkn, h.disk _ hkn, hmry⟩⟩
      · rw [if_neg hkn]
        obtain ⟨hgro, hsto, hall, hpart⟩ := register_new workers events hbck hkn rfl rfl
        by_cases hcmp : workers.nodes ≠ [] ∧ s.recorded workers config events backend = workers.nodes
        · obtain ⟨hcpl, ⟨last, hmem, hla, hin⟩, hdk, hmry⟩ := hall hcmp
          rw [if_pos hcpl, if_pos hcmp]
          constructor
          · intro hright
            refine ⟨?_, fun node hnod => (hmry node hnod).1 (hright.memory node hnod)⟩
            intro last' hla'
            obtain ⟨size, hsz, -⟩ := hright.size
            obtain rfl := Option.some.inj (hla.symm.trans hla')
            rw [hin, get?_set_self] at hsz
            split at hsz
            · cases hsz
            · rename_i hnew
              rwa [Option.isSome_iff_ne_none, not_not] at hnew
          · rintro ⟨hnew, hpo⟩
            obtain ⟨size, hsz⟩ := Option.isSome_iff_exists.1 (hdk last hmem)
            refine ⟨⟨size, ?_, last, hmem, hsz⟩, ⟨_, by rw [hsto, get?_set_self], fun node => ?_⟩, hdk,
              fun node hnod => (hmry node hnod).2 (hpo node hnod)⟩
            · rw [hin, get?_set_self, hnew last hla, hsz]
              rfl
            · rw [mem_keys_noted, hcmp.2]
              simp [Dict.keys]
        · obtain ⟨hcpl, hin⟩ := hpart hcmp
          rw [if_neg hcpl, if_neg hcmp, hsto, set_eq_self_iff]
          exact and_iff_right hin
  | loadToHost node modelName now => exact Iff.rfl
  | loadingLoop node ret now => exact Iff.rfl

theorem Sized.mono (h : Sized workers s) (hin : s'.modelInfo = s.modelInfo) (hgro : Grows s.localServers s'.localServers) :
    Sized workers s' := by
  intro modelName hmod
  obtain ⟨size, hsz, node, hnod, hdk⟩ := h modelName (hin ▸ hmod)
  exact ⟨size, hin ▸ hsz, node, hnod, hgro.disk _ _ _ hdk⟩

theorem Sized.step (h : Sized workers s) {c : Step} (hright : Right workers s c) (hst : s.step workers c = some s') :
    Sized workers s' := by
  by_cases hc : ∃ config events, c = .register config events
  · obtain ⟨config, events, rfl⟩ := hc
    cases hst
    cases hbck : config.backend with
    | none =>
      rw [register_of_no_backend workers s events hbck]
      exact h
    | some backend =>
      by_cases hkn : config.model ∈ s.modelInfo.keys
      · rw [register_of_known events hbck hkn]
        exact h
      · obtain ⟨hgro, -, hall, hpart⟩ := register_new workers events hbck hkn rfl rfl
        by_cases hcmp : workers.nodes ≠ [] ∧ s.recorded workers config events backend = workers.nodes
        · obtain ⟨hcpl, ⟨last, -, -, hin⟩, -, -⟩ := hall hcmp
          simp only [Right, if_pos hcpl] at hright
          intro modelName hmod
          by_cases hmod' : modelName = config.model
          · rw [hmod']
            exact hright.size
          · rw [hin, mem_keys_set] at hmod
            obtain ⟨size, hsz, node, hnod, hdk⟩ := h modelName (hmod.resolve_left hmod')
            refine ⟨size, ?_, node, hnod, hgro.disk _ _ _ hdk⟩
            rw [hin, get?_set_of_ne _ _ hmod']
            exact hsz
        · exact h.mono (hpart hcmp).2 hgro
  · obtain ⟨hin, -, hgro⟩ := step_between (fun config events heq => hc ⟨config, events, heq⟩) hst
    exact h.mono hin hgro

/-- In every run a model in the table is noted and stored at each worker node; and the calls all do what they should just when
they all meet the condition. -/
theorem registration_iff (workers : Workers) (localServers : Dict String Server) (steps : List Step) :
    Throughout (step workers) (Consistent workers) (.init localServers) steps ∧
    (EachStep (step workers) (Right workers) (.init localServers) steps ↔
      EachStep (step workers) (Meets workers) (.init localServers) steps) := by
  have hinit : Consistent workers (.init localServers) := ⟨nofun, nofun⟩
  refine ⟨throughout_of_eachStep (P := fun _ _ => True) (fun s c s' h _ hst => h.step hst) hinit
    (eachStep_of_forall fun _ _ => trivial), ?_⟩
  exact eachStep_congr_of_right (I := fun s => Consistent workers s ∧ Sized workers s)
    (fun s c s' h hright hst => ⟨h.1.step hst, h.2.step hright hst⟩) (fun s c h => right_iff h.1 h.2 c) ⟨hinit, nofun⟩

def oneNode : Workers := ⟨["A"], by decide⟩

def oneStore : Dict String Server :=
  Dict.empty.set "A" (let cfg : Config := ⟨8, 4, 1, unit_pos⟩; ⟨cfg, .init cfg⟩)

def renamed : ModelConfig := ⟨"m", some "vllm", some "org/m", none, 1, ["A"]⟩

/-- A download that raises leaves an entry for the model, and after the next call the node of the pool does not have it. -/
theorem download_raises : ∃ s₁ s₂ : State,
    (init oneStore).register oneNode renamed (fun _ => ⟨false, false, fun _ => some 4, 0⟩) = (s₁, .raised .failed) ∧
    s₁.modelStorageInfo.keys = ["m"] ∧
    s₁.register oneNode renamed (fun _ => ⟨true, false, fun _ => some 4, 0⟩) = (s₂, .completed) ∧
    s₂.modelInfo.get? "m" = some (some 4) ∧ ¬InMemory s₂.localServers "A" "m" :=
  ⟨_, _, rfl, rfl, rfl, rfl, by unfold InMemory; decide⟩

end ServerlessLLM.Serving.StoreManager
