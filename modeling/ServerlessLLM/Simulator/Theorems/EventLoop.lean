import Mathlib.Algebra.Order.Ring.Rat
import Mathlib.Tactic.Linarith
import Mathlib.Tactic.Ring
import ServerlessLLM.Simulator.Theorems.EndToEnd

/-!
# The requests take turns

A GPU is free again when its last request releases it, and this time only grows. A request therefore begins its prefill behind
everything that was on its GPU before.
-/

namespace ServerlessLLM.Simulator.EndToEnd

open List Runs Dict Function Backend

variable {b : Backend} {setup : Setup} {s s' : Simulation} {e : Request × Nat} {r : SimulatedRequest}

def SimulatedRequest.prefillStartMs (r : SimulatedRequest) : ℚ := r.arrivalMs + r.ttftMs - r.prefillMs

/-- When a request gives its GPU back, if it has occupied it. -/
def OccupyUntil.release : OccupyUntil → SimulatedRequest → Option ℚ
  | .load, _ => none
  | .ttft, r => some (r.arrivalMs + r.ttftMs)
  | .finish, r => some (r.arrivalMs + r.e2eMs)

/-- No time of the setup is negative. -/
structure Setup.Forward (setup : Setup) : Prop where
  engineOverheadMs : 0 ≤ setup.engineOverheadMs
  prefillMsPerToken : 0 ≤ setup.prefillMsPerToken
  decodeMsPerToken : 0 ≤ setup.decodeMsPerToken

namespace Backend

theorem gpuId_of_estimate {s : Caches} {modelId gpuId : Nat} {est : LoadEstimate} (h : b.estimate s modelId gpuId = .ok est) :
    est.gpuId = gpuId := by
  unfold estimate at h
  split at h
  · cases h
  · split_ifs at h
    · cases h
      rfl
    · cases h
      rfl

/-- A commit returns what was estimated before. -/
theorem estimate_of_commit {s : Caches} {modelId gpuId : Nat} {est : LoadEstimate}
    (h : (b.commit s modelId gpuId).1 = .ok est) :
    b.estimate s modelId gpuId = .ok est := by
  unfold commit at h
  split at h
  · cases h
  · cases h
  · rename_i hest _
    rw [hest]
    dsimp only at h
    split_ifs at h
    · exact h
    · exact h

end Backend

theorem toOption_eq_some {α ε : Type} {x : Except ε α} {a : α} : x.toOption = some a ↔ x = .ok a := by
  cases x with
  | ok a' => exact ⟨fun h => congrArg _ (Option.some.inj h), fun h => congrArg _ (Except.ok.inj h)⟩
  | error e => exact ⟨nofun, nofun⟩

namespace Simulation

theorem mem_estimates {request : Request} {ests : List LoadEstimate} (h : s.estimates request b = some ests)
    {est : LoadEstimate} :
    est ∈ ests ↔ ∃ gpuId < b.numGpus, b.estimate (b.expire s.caches request.arrivalMs).2 request.modelId gpuId = .ok est := by
  unfold estimates at h
  dsimp only at h
  split at h
  · cases h
  · rw [mem_of_mapM h]
    simp only [mem_range, toOption_eq_some]

theorem mem_of_chooseGpu {request : Request} {ests : List LoadEstimate} {draw : Nat} {est : LoadEstimate}
    (h : s.chooseGpu setup request ests draw = some est) : est ∈ ests := by
  unfold chooseGpu at h
  split at h
  · exact mem_of_getElem? h
  · exact argmin_mem h
  · exact argmin_mem h

/-- The estimate that was chosen is the one that is committed. -/
theorem serve_eq_some (h : s.serve setup b e = some (r, s')) : ∃ ests chosen caches, s.estimates e.1 b = some ests ∧
    s.chooseGpu setup e.1 ests e.2 = some chosen ∧ r = s.row setup e.1 chosen ∧ s' = s.advance setup e.1 chosen caches := by
  unfold serve at h
  obtain ⟨ests, hests, h⟩ := Option.bind_eq_some_iff.1 h
  obtain ⟨chosen, hchosen, h⟩ := Option.bind_eq_some_iff.1 h
  obtain ⟨committed, hcommitted, heq⟩ := Option.map_eq_some_iff.1 h
  obtain ⟨gpuId, -, hest⟩ := (mem_estimates hests).1 (mem_of_chooseGpu hchosen)
  have hcommit := estimate_of_commit (toOption_eq_some.1 hcommitted)
  rw [gpuId_of_estimate hest, hest, Except.ok.injEq] at hcommit
  subst hcommit
  cases heq
  exact ⟨ests, chosen, _, hests, hchosen, rfl, rfl⟩

theorem prefillStartMs_row (request : Request) (est : LoadEstimate) :
    (s.row setup request est).prefillStartMs = s.prefillStart request est := by
  unfold SimulatedRequest.prefillStartMs row ttftTime
  dsimp only
  ring

/-- The load of a request has ended before its prefill begins, so that its time in the queue is not negative. -/
theorem row_sums (s : Simulation) (request : Request) (est : LoadEstimate) : 0 ≤ (s.row setup request est).queueMs ∧
    (s.row setup request est).ttftMs = (s.row setup request est).queueMs + est.loadMs + prefillMs setup request ∧
      (s.row setup request est).e2eMs = (s.row setup request est).ttftMs + decodeMs setup request := by
  have hload : request.arrivalMs + est.loadMs ≤ s.prefillStart request est :=
    (add_le_add_left (le_max_left _ _) _).trans (le_max_left _ _)
  unfold row ttftTime finishTime ttftTime
  refine ⟨le_max_left _ _, ?_, ?_⟩
  · rw [max_eq_right (by linarith)]
    ring
  · ring

theorem release_row {request : Request} {est : LoadEstimate} (caches : Caches) {t : ℚ}
    (h : t ∈ setup.occupyUntil.release (s.row setup request est)) :
    t = (s.advance setup request est caches).inferAvailable est.gpuId := by
  unfold advance
  cases hoccupy : setup.occupyUntil with
  | load =>
    rw [hoccupy] at h
    nomatch h
  | ttft =>
    rw [hoccupy] at h
    obtain rfl := Option.some.inj h
    dsimp only
    rw [update_self]
    exact add_sub_cancel _ _
  | finish =>
    rw [hoccupy] at h
    obtain rfl := Option.some.inj h
    dsimp only
    rw [update_self]
    exact add_sub_cancel _ _

theorem prefillMs_nonneg (hforward : setup.Forward) (request : Request) : 0 ≤ prefillMs setup request :=
  add_nonneg hforward.engineOverheadMs (mul_nonneg request.inputTokens.cast_nonneg hforward.prefillMsPerToken)

theorem decodeMs_nonneg (hforward : setup.Forward) (request : Request) : 0 ≤ decodeMs setup request :=
  mul_nonneg request.outputTokens.cast_nonneg hforward.decodeMsPerToken

theorem inferAvailable_le (hforward : setup.Forward) (request : Request) (est : LoadEstimate) (caches : Caches) (gpuId : Nat) :
    s.inferAvailable gpuId ≤ (s.advance setup request est caches).inferAvailable gpuId := by
  have httft : s.inferAvailable est.gpuId ≤ s.ttftTime setup request est :=
    (le_max_right _ _).trans (le_add_of_nonneg_right (prefillMs_nonneg hforward request))
  have hupdate : ∀ t, s.inferAvailable est.gpuId ≤ t → s.inferAvailable gpuId ≤ update s.inferAvailable est.gpuId t gpuId := by
    intro t ht
    rw [update_apply]
    split_ifs with heq
    · exact heq ▸ ht
    · exact le_rfl
  unfold advance
  cases setup.occupyUntil with
  | load => exact le_rfl
  | ttft => exact hupdate _ httft
  | finish => exact hupdate _ (httft.trans (le_add_of_nonneg_right (decodeMs_nonneg hforward request)))

theorem available_le_of_simulate (hforward : setup.Forward) {requests : List (Request × Nat)} {rows : List SimulatedRequest}
    (h : simulate setup b s requests = some (rows, s')) : ∀ r ∈ rows, s.inferAvailable r.gpuId ≤ r.prefillStartMs := by
  induction requests generalizing s rows with
  | nil =>
    cases h
    simp
  | cons e requests ih =>
    obtain ⟨⟨r, s₁⟩, hserve, h⟩ := Option.bind_eq_some_iff.1 h
    obtain ⟨⟨rows, s₂⟩, hrest, heq⟩ := Option.map_eq_some_iff.1 h
    cases heq
    obtain ⟨ests, chosen, caches, -, -, rfl, rfl⟩ := serve_eq_some hserve
    rw [forall_mem_cons]
    constructor
    · rw [prefillStartMs_row]
      exact le_max_right _ _
    · intro r hr
      exact (inferAvailable_le hforward e.1 chosen caches r.gpuId).trans (ih hrest r hr)

/-- On no GPU does a prefill begin before the request before it has given the GPU back, and the times of each request add up. -/
theorem requests_take_turns (hforward : setup.Forward) {requests : List (Request × Nat)} {rows : List SimulatedRequest}
    (hrun : simulate setup b s requests = some (rows, s')) :
    (rows.Pairwise fun r r' => r.gpuId = r'.gpuId → ∀ t ∈ setup.occupyUntil.release r, t ≤ r'.prefillStartMs) ∧
      ∀ r ∈ rows, 0 ≤ r.queueMs ∧ r.ttftMs = r.queueMs + r.committed.loadMs + r.prefillMs ∧
        r.e2eMs = r.ttftMs + r.decodeMs := by
  induction requests generalizing s rows with
  | nil =>
    cases hrun
    simp
  | cons e requests ih =>
    obtain ⟨⟨r, s₁⟩, hserve, h⟩ := Option.bind_eq_some_iff.1 hrun
    obtain ⟨⟨rows, s₂⟩, hrest, heq⟩ := Option.map_eq_some_iff.1 h
    cases heq
    obtain ⟨ests, chosen, caches, -, -, rfl, rfl⟩ := serve_eq_some hserve
    obtain ⟨hturns, hsums⟩ := ih hrest
    refine ⟨pairwise_cons.2 ⟨?_, hturns⟩, forall_mem_cons.2 ⟨?_, hsums⟩⟩
    · intro r' hr' hgpu t ht
      rw [release_row caches ht]
      have hle := available_le_of_simulate hforward hrest r' hr'
      rwa [← hgpu] at hle
    · exact s.row_sums e.1 chosen

def twoGpus : Backend where
  models := Dict.empty.set 0 ⟨[⟨"a", 2⟩]⟩
  numGpus := 2
  gpuCapacityBytes := 5
  loadBandwidthGbps := 1
  loadOverheadMs := 1
  keepAliveMs := none
  size_eq := by decide

def byDefault : Setup := ⟨20, 1 / 50, 2, 0, .finish, .onlineTtft⟩

theorem forward_byDefault : byDefault.Forward := ⟨by decide +kernel, by decide +kernel, by decide +kernel⟩

theorem requests_take_turns_byDefault : ∃ rows s', simulate byDefault twoGpus .init
    [(⟨0, 0, 0, 100, 10⟩, 0), (⟨1, 3, 0, 50, 5⟩, 0), (⟨2, 4, 0, 50, 5⟩, 0)] = some (rows, s') ∧ rows.map (·.gpuId) = [0, 1, 1] ∧
      (rows.Pairwise fun r r' => r.gpuId = r'.gpuId → ∀ t ∈ byDefault.occupyUntil.release r, t ≤ r'.prefillStartMs) ∧
      ∀ r ∈ rows, 0 ≤ r.queueMs ∧ r.ttftMs = r.queueMs + r.committed.loadMs + r.prefillMs ∧
        r.e2eMs = r.ttftMs + r.decodeMs := by
  have hgpus : (simulate byDefault twoGpus .init [(⟨0, 0, 0, 100, 10⟩, 0), (⟨1, 3, 0, 50, 5⟩, 0), (⟨2, 4, 0, 50, 5⟩, 0)]).map
      (fun r => r.1.map (·.gpuId)) = some [0, 1, 1] := by decide +kernel
  obtain ⟨⟨rows, s'⟩, hrun, hmap⟩ := Option.map_eq_some_iff.1 hgpus
  exact ⟨rows, s', hrun, hmap, requests_take_turns forward_byDefault hrun⟩

end Simulation

/-! ## Every request is served -/

/-- There is a GPU, and every model has groups, different ones, that fit into it. -/
structure Backend.Loadable (b : Backend) : Prop where
  numGpus : 0 < b.numGpus
  ne_nil : ∀ e ∈ b.models.entries, e.2.tensorGroups ≠ []
  distinct : ∀ e ∈ b.models.entries, (e.2.tensorGroups.map TensorGroup.fingerprint).Nodup
  fits : ∀ e ∈ b.models.entries, FitsCapacity b e.2.tensorGroups

/-- The counters are right, and what has finished is a model on a GPU. -/
structure Sound (b : Backend) (s : Caches) : Prop where
  accounted : Accounted b s
  finished : ∀ k ∈ s.lastModelFinish.keys, k.1 < b.numGpus ∧ k.2 ∈ b.models.keys

namespace Backend

variable {caches : Caches} {modelId gpuId : Nat}

/-- `expire` raises nothing for the models that have finished. -/
theorem expireFrom_ok (hb : b.Loadable) (keepAliveMs nowMs : ℚ) {l : List ((Nat × Nat) × ℚ)}
    (hl : ∀ e ∈ l, e.1.1 < b.numGpus ∧ e.1.2 ∈ b.models.keys) : (b.expireFrom keepAliveMs nowMs l caches).1 = none ∧
      ∀ k ∈ (b.expireFrom keepAliveMs nowMs l caches).2.lastModelFinish.keys, k ∈ caches.lastModelFinish.keys := by
  induction l generalizing caches with
  | nil => exact ⟨rfl, fun _ hk => hk⟩
  | cons e l ih =>
    obtain ⟨⟨hgpu, hmodel⟩, hl⟩ := forall_mem_cons.1 hl
    obtain ⟨model, hget⟩ := mem_keys_iff.1 hmodel
    unfold expireFrom
    split
    · exact ih hl
    · cases hgroups : model.tensorGroups with
      | nil => exact absurd hgroups (hb.ne_nil _ (mem_entries_iff.2 hget))
      | cons group groups =>
        simp only [hget, hgroups, if_neg (Nat.not_le.2 hgpu)]
        refine ⟨(ih hl).1, ?_⟩
        intro k hk
        have hrest := (mem_keys_erase.1 ((ih hl).2 k hk)).1
        split at hrest
        · exact hrest
        · exact hrest

theorem estimate_ok (hmodel : modelId ∈ b.models.keys) (hgpu : gpuId < b.numGpus) : ∃ est,
    b.estimate caches modelId gpuId = .ok est := by
  obtain ⟨model, hget⟩ := mem_keys_iff.1 hmodel
  unfold estimate
  simp only [hget, if_neg (Nat.not_le.2 hgpu)]
  split_ifs
  · exact ⟨_, rfl⟩
  · exact ⟨_, rfl⟩

theorem lastModelFinish_commit : (b.commit caches modelId gpuId).2.lastModelFinish = caches.lastModelFinish := by
  unfold commit
  split
  · rfl
  · rfl
  · dsimp only
    split_ifs
    all_goals rfl

end Backend

namespace Sound

variable {caches : Caches} {modelId gpuId : Nat}

theorem expire (h : Sound b caches) (hb : b.Loadable) (nowMs : ℚ) :
    (b.expire caches nowMs).1 = none ∧ Sound b (b.expire caches nowMs).2 := by
  have hacc : Accounted b (b.expire caches nowMs).2 :=
    h.accounted.step (show MissingDistinct b caches (.expire nowMs) from trivial) rfl
  have hspec : (b.expire caches nowMs).1 = none ∧
      ∀ k ∈ (b.expire caches nowMs).2.lastModelFinish.keys, k ∈ caches.lastModelFinish.keys := by
    unfold Backend.expire
    split
    · exact ⟨rfl, fun _ hk => hk⟩
    · split_ifs
      · exact ⟨rfl, fun _ hk => hk⟩
      · exact expireFrom_ok hb _ _ fun e he => h.finished e.1 (mem_map_of_mem he)
  exact ⟨hspec.1, hacc, fun k hk => h.finished k (hspec.2 k hk)⟩

theorem commit (h : Sound b caches) (hb : b.Loadable) (hmodel : modelId ∈ b.models.keys) (hgpu : gpuId < b.numGpus) :
    (∃ est, (b.commit caches modelId gpuId).1 = .ok est) ∧ Sound b (b.commit caches modelId gpuId).2 := by
  have hdistinct : MissingDistinct b caches (.commit modelId gpuId) := fun model hget _ =>
    (hb.distinct _ (mem_entries_iff.2 hget)).sublist (filter_sublist.map _)
  obtain ⟨model, hget⟩ := mem_keys_iff.1 hmodel
  obtain ⟨hcommits, hnothing⟩ := commitsRight h.accounted hdistinct model hget
  refine ⟨?_, h.accounted.step hdistinct rfl, ?_⟩
  · by_cases hkeeps : b.KeepsNothing
    · exact ⟨_, congrArg Prod.fst (hnothing hkeeps)⟩
    · exact (hcommits hkeeps hgpu).returns (hb.fits _ (mem_entries_iff.2 hget))
  · rw [lastModelFinish_commit]
    exact h.finished

theorem markFinish (h : Sound b caches) (hmodel : modelId ∈ b.models.keys) (hgpu : gpuId < b.numGpus) (finishMs : ℚ) :
    Sound b (b.markFinish caches modelId gpuId finishMs) := by
  refine ⟨h.accounted.step (show MissingDistinct b caches (.markFinish modelId gpuId finishMs) from trivial) rfl, ?_⟩
  unfold Backend.markFinish
  split
  · exact h.finished
  · intro k hk
    rcases mem_keys_set.1 hk with rfl | hk
    · exact ⟨hgpu, hmodel⟩
    · exact h.finished k hk

end Sound

namespace Simulation

theorem chooseGpu_ok (setup : Setup) (s : Simulation) (request : Request) {ests : List LoadEstimate} {draw : Nat}
    (hdraw : draw < ests.length) :
    ∃ est, s.chooseGpu setup request ests draw = some est := by
  have hne : ests ≠ [] := ne_nil_of_length_pos (Nat.zero_lt_of_lt hdraw)
  unfold chooseGpu
  cases setup.schedulerPolicy with
  | random => exact ⟨_, getElem?_eq_getElem hdraw⟩
  | locality => exact Option.ne_none_iff_exists'.1 (mt argmin_eq_none.1 hne)
  | onlineTtft => exact Option.ne_none_iff_exists'.1 (mt argmin_eq_none.1 hne)

theorem serve_ok (setup : Setup) (h : Sound b s.caches) (hb : b.Loadable) (hmodel : e.1.modelId ∈ b.models.keys)
    (hdraw : e.2 < b.numGpus) :
    ∃ r s', s.serve setup b e = some (r, s') ∧ r.reqId = e.1.reqId ∧ Sound b s'.caches := by
  obtain ⟨hnone, hexpired⟩ := h.expire hb e.1.arrivalMs
  have hall : ∀ gpuId ∈ range b.numGpus,
      (b.estimate (b.expire s.caches e.1.arrivalMs).2 e.1.modelId gpuId).toOption.isSome = true := by
    intro gpuId hgpu
    obtain ⟨est, hest⟩ := estimate_ok hmodel (mem_range.1 hgpu)
    rw [hest]
    rfl
  obtain ⟨ests, hmap⟩ := Option.isSome_iff_exists.1 (mapM_isSome_iff.2 hall)
  have hests : s.estimates e.1 b = some ests := by
    unfold estimates
    simp only [hnone]
    exact hmap
  have hlen : b.numGpus = ests.length := length_range.symm.trans (forall₂_of_mapM hmap).length_eq
  obtain ⟨chosen, hchosen⟩ := chooseGpu_ok setup s e.1 (hlen ▸ hdraw)
  obtain ⟨gpuId, hgpu, hest⟩ := (mem_estimates hests).1 (mem_of_chooseGpu hchosen)
  obtain rfl := gpuId_of_estimate hest
  obtain ⟨⟨committed, hcommitted⟩, hsound⟩ := hexpired.commit hb hmodel hgpu
  have hserve : s.serve setup b e = some (s.row setup e.1 committed, s.advance setup e.1 committed
      (b.markFinish (b.commit (b.expire s.caches e.1.arrivalMs).2 e.1.modelId chosen.gpuId).2 e.1.modelId chosen.gpuId
        (s.finishTime setup e.1 committed))) := by
    unfold serve
    rw [hests, Option.bind_some, hchosen, Option.bind_some]
    simp only [hcommitted]
    rfl
  exact ⟨_, _, hserve, rfl, hsound.markFinish hmodel hgpu _⟩

theorem simulate_ok (setup : Setup) (h : Sound b s.caches) (hb : b.Loadable) {requests : List (Request × Nat)}
    (hrequests : ∀ e ∈ requests, e.1.modelId ∈ b.models.keys ∧ e.2 < b.numGpus) : ∃ rows s',
      simulate setup b s requests = some (rows, s') ∧ rows.map (·.reqId) = requests.map (·.1.reqId) ∧ Sound b s'.caches := by
  induction requests generalizing s with
  | nil => exact ⟨[], s, rfl, rfl, h⟩
  | cons e requests ih =>
    obtain ⟨⟨hmodel, hdraw⟩, hrest⟩ := forall_mem_cons.1 hrequests
    obtain ⟨r, s₁, hserve, hr, h₁⟩ := serve_ok setup h hb hmodel hdraw
    obtain ⟨rows, s₂, hrows, hids, h₂⟩ := ih h₁ hrest
    refine ⟨r :: rows, s₂, ?_, ?_, h₂⟩
    · rw [simulate, hserve, Option.bind_some, hrows]
      rfl
    · rw [map_cons, map_cons, hr, hids]

/-- The simulator serves every trace whose models it has: nothing raises, each request has its row, and the caches hold what
their counters say. -/
theorem every_request_served (setup : Setup) (hb : b.Loadable) {requests : List (Request × Nat)}
    (hrequests : ∀ e ∈ requests, e.1.modelId ∈ b.models.keys ∧ e.2 < b.numGpus) : ∃ rows s',
      simulate setup b init requests = some (rows, s') ∧ rows.map (·.reqId) = requests.map (·.1.reqId) ∧
        Accounted b s'.caches := by
  have hinit : Sound b init.caches := ⟨accounted_init b, by rintro k ⟨⟩⟩
  obtain ⟨rows, s', hrun, hids, h⟩ := simulate_ok setup hinit hb hrequests
  exact ⟨rows, s', hrun, hids, h.accounted⟩

theorem every_request_served_sharing : ∃ rows s', simulate byDefault (sharing (some 10)) init
    [(⟨0, 0, 0, 100, 10⟩, 0), (⟨1, 100, 1, 50, 5⟩, 0), (⟨2, 200, 0, 50, 5⟩, 0)] = some (rows, s') ∧
      rows.map (·.reqId) = [0, 1, 2] ∧
      Accounted (sharing (some 10)) s'.caches := by
  have hloadable : (sharing (some 10)).Loadable := by
    refine ⟨by decide, by decide, by decide, ?_⟩
    unfold FitsCapacity
    decide
  exact every_request_served byDefault hloadable (by decide)

end Simulation

end ServerlessLLM.Simulator.EndToEnd
