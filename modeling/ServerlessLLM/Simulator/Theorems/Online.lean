import Mathlib.Algebra.Order.Group.MinMax
import ServerlessLLM.Simulator.Online
import ServerlessLLM.Simulator.Theorems.Trace

/-!
# Routing and settlement agree

Both keep the times at which the GPUs are free, and both set that of the chosen GPU to the same time, so the queues that are
predicted are those that are settled.
-/

namespace ServerlessLLM.Simulator.Online

open List Except

variable {o : Options} {available : List ℚ} {nextGpu index : Nat} {arrivalMs : ℚ}

/-! ## Choices -/

variable {gpu : Nat} {routing : List Nat} {settled : List Settled}

theorem availableAt_ok (h : gpu < available.length) : availableAt available gpu = .ok available[gpu] := by
  unfold availableAt
  rw [getElem?_eq_getElem h]

theorem mem_circle (h : gpu < o.gpus) (nextGpu : Nat) :
    gpu ∈ (range o.gpus).map fun offset => (nextGpu + offset) % o.gpus := by
  have hpos : 0 < o.gpus := Nat.zero_lt_of_lt h
  have hlt := Nat.mod_lt nextGpu hpos
  refine mem_map.2 ⟨(gpu + o.gpus - nextGpu % o.gpus) % o.gpus, mem_range.2 (Nat.mod_lt _ hpos), ?_⟩
  calc (nextGpu + (gpu + o.gpus - nextGpu % o.gpus) % o.gpus) % o.gpus
      = (nextGpu % o.gpus + (gpu + o.gpus - nextGpu % o.gpus)) % o.gpus := by rw [Nat.add_mod_mod, Nat.mod_add_mod]
    _ = (gpu + o.gpus) % o.gpus := by
      congr 1
      omega
    _ = gpu := by rw [Nat.add_mod_right, Nat.mod_eq_of_lt h]

theorem nextGpuOf_ok {p : Nat → Bool} (hgpu : gpu < o.gpus) (hp : p gpu = true) (nextGpu : Nat) :
    ∃ found, nextGpuOf o nextGpu p = .ok found ∧ p found = true ∧ found < o.gpus := by
  unfold nextGpuOf
  cases hfind : ((range o.gpus).map fun offset => (nextGpu + offset) % o.gpus).find? p with
  | none => exact absurd hp (find?_eq_none.1 hfind gpu (mem_circle hgpu nextGpu))
  | some found =>
    obtain ⟨offset, -, rfl⟩ := mem_map.1 (mem_of_find?_eq_some hfind)
    exact ⟨_, rfl, find?_some hfind, Nat.mod_lt _ (Nat.zero_lt_of_lt hgpu)⟩

/-- The queue of a candidate is what is left of the time at which its GPU becomes free. -/
def Predicts (available : List ℚ) (arrivalMs : ℚ) (s : Scored) : Prop :=
  ∃ time, available[s.gpu]? = some time ∧ s.predictedQueueMs = max 0 (time - arrivalMs)

variable {candidates : List Candidate} {l : List (Row × Trace.Request × ℚ)}

theorem mapM_score (h : ∀ c ∈ candidates, c.gpu < available.length) (o : Options) (arrivalMs : ℚ) :
    ∃ scored, candidates.mapM (score o available arrivalMs) = .ok scored ∧ scored.map (fun s => s.toCandidate) = candidates ∧
      ∀ s ∈ scored, Predicts available arrivalMs s := by
  induction candidates with
  | nil => exact ⟨[], rfl, rfl, by simp⟩
  | cons c candidates ih =>
    obtain ⟨scored, hscored, hmap, hall⟩ := ih fun c hc => h c (mem_cons_of_mem _ hc)
    have hlt := h c mem_cons_self
    let queueMs := max 0 (available[c.gpu] - arrivalMs)
    let s : Scored := ⟨c, queueMs, queueMs + c.criticalPathMs + o.mckpTransitionWeight * c.mckpPredictedDamageMs⟩
    have hone : score o available arrivalMs c = .ok s := by
      rw [score, availableAt_ok hlt]
      rfl
    refine ⟨s :: scored, ?_, ?_, forall_mem_cons.2 ⟨⟨available[c.gpu], getElem?_eq_getElem hlt, rfl⟩, hall⟩⟩
    · rw [mapM_cons, hone, hscored]
      rfl
    · rw [map_cons, hmap]

theorem isClose_self (a : ℚ) : isClose a a := by
  unfold isClose
  rw [sub_self, abs_zero]
  exact le_max_of_le_right (by norm_num)

theorem chosen_of_tied {tied : List Scored} {s : Scored} (hs : s ∈ tied) (hgpu : ∀ s ∈ tied, s.gpu < o.gpus) (nextGpu : Nat) :
    ∃ gpu chosen, nextGpuOf o nextGpu (fun gpu => tied.any fun s => s.gpu = gpu) = .ok gpu ∧
      tied.find? (fun s => s.gpu = gpu) = some chosen ∧ chosen ∈ tied := by
  have hany : (tied.any fun s' => s'.gpu = s.gpu) = true := any_eq_true.2 ⟨s, hs, decide_eq_true rfl⟩
  obtain ⟨gpu, hnx, hp, -⟩ := nextGpuOf_ok (p := fun gpu => tied.any fun s => s.gpu = gpu) (hgpu s hs) hany nextGpu
  obtain ⟨s', hs', heq⟩ := any_eq_true.1 hp
  cases hfind : tied.find? fun s => s.gpu = gpu with
  | none => exact absurd heq (find?_eq_none.1 hfind s' hs')
  | some chosen => exact ⟨gpu, chosen, hnx, hfind, mem_of_find?_eq_some hfind⟩

theorem choose_ok (hne : candidates ≠ []) (h : ∀ c ∈ candidates, c.gpu < o.gpus)
    (hlen : available.length = o.gpus) (arrivalMs : ℚ) (nextGpu : Nat) :
    ∃ chosen next, chooseOnlineRoutingCandidate o candidates available arrivalMs nextGpu = .ok (chosen, next) ∧
      chosen.gpu < o.gpus ∧ chosen.toCandidate ∈ candidates ∧ Predicts available arrivalMs chosen := by
  obtain ⟨scored, hscored, hmap, hall⟩ := mapM_score (hlen ▸ h) o arrivalMs
  have hgpu : ∀ s ∈ scored, s.gpu < o.gpus := fun s hs => h s.toCandidate (hmap ▸ mem_map_of_mem hs)
  unfold chooseOnlineRoutingCandidate
  rw [hscored]
  simp only [bind, Except.bind]
  cases hmin : (scored.map Scored.onlineRoutingScoreMs).min? with
  | none =>
    rw [min?_eq_none_iff, map_eq_nil_iff] at hmin
    rw [hmin] at hmap
    exact absurd hmap.symm hne
  | some best =>
    obtain ⟨s, hs, hb⟩ := mem_map.1 (min?_mem hmin)
    have htied : s ∈ (scored.filter fun s => isClose s.onlineRoutingScoreMs best).reverse :=
      mem_reverse.2 (mem_filter.2 ⟨hs, decide_eq_true (hb ▸ isClose_self _)⟩)
    obtain ⟨gpu, chosen, hnx, hfind, hmem⟩ := chosen_of_tied htied
      (fun s hs => hgpu s (mem_of_mem_filter (mem_reverse.1 hs))) nextGpu
    have hcho : chosen ∈ scored := mem_of_mem_filter (mem_reverse.1 hmem)
    refine ⟨chosen, (gpu + 1) % o.gpus, ?_, hgpu chosen hcho, hmap ▸ mem_map_of_mem hcho, hall chosen hcho⟩
    simp only [hnx, hfind]

/-! ## Lockstep -/

/-- A request follows its decision: to the GPU that is fixed, without a prediction, or to the candidate that
`choose_online_routing_candidate` chooses, with the queue that it predicts. -/
def Follows (o : Options) : Decision → Routed → Prop
  | .fixed gpu, r => r.gpu = gpu ∧ r.predictedQueueMs = none
  | .among candidates, r => ∃ available arrivalMs nextGpu chosen next,
    chooseOnlineRoutingCandidate o candidates available arrivalMs nextGpu = .ok (chosen, next) ∧
      chosen.toCandidate ∈ candidates ∧ r.gpu = chosen.gpu ∧ r.predictedQueueMs = some chosen.predictedQueueMs

/-- A settled request is on the GPU that it was routed to, leaves the GPUs free at the same times, and waits as was predicted.
-/
structure Agrees (r : Routed) (s : Settled) : Prop where
  gpu : s.gpu = r.gpu
  available : s.availableAtMs = r.availableAtMs
  queue : ∀ q, r.predictedQueueMs = some q → s.queueMs = q

theorem gpuFor_ok {decision : Decision} {arrivalsMs : List ℚ} (h : decision.Valid o) (hlen : available.length = o.gpus)
    (harv : arrivalsMs[index]? = some arrivalMs) (nextGpu : Nat) :
    ∃ gpu predicted next, gpuFor o arrivalsMs available nextGpu index decision = .ok (gpu, predicted, next) ∧ gpu < o.gpus ∧
      (∀ times, Follows o decision ⟨gpu, predicted, times⟩) ∧
      ∀ q, predicted = some q → ∃ time, available[gpu]? = some time ∧ q = max 0 (time - arrivalMs) := by
  cases decision with
  | fixed gpu => exact ⟨gpu, none, nextGpu, rfl, h, fun _ => ⟨rfl, rfl⟩, nofun⟩
  | among candidates =>
    obtain ⟨chosen, next, hchoose, hlt, hmem, hpredicts⟩ := choose_ok h.1 h.2 hlen arrivalMs nextGpu
    refine ⟨chosen.gpu, some chosen.predictedQueueMs, next, ?_, hlt,
      fun _ => ⟨_, _, _, chosen, next, hchoose, hmem, rfl, rfl⟩, ?_⟩
    · unfold gpuFor availableAt
      simp [harv, hchoose, bind, Except.bind]
    · rintro q hq
      obtain rfl := Option.some.inj hq
      exact hpredicts

theorem settleFrom_agrees {rows : List Row} {requests : List Trace.Request} {decisions : List Decision}
    {arrivalsS before : List ℚ}
    (hvld : ∀ d ∈ decisions, d.Valid o) (hrows : rows.length = requests.length)
    (hdec : decisions.length = requests.length) (harr : arrivalsS.length = requests.length)
    (hids : requests.map Trace.Request.requestId = range' index requests.length) (hbef : before.length = index)
    (hrou : routing.length = index) (hlen : available.length = o.gpus) (nextGpu next : Nat) :
    ∃ routed settled, routeFrom o (before ++ arrivalsS.map (· * 1000)) available nextGpu index
      (rows.zip (requests.zip decisions)) =
        .ok routed ∧
      settleFrom o (routing ++ routed.map Routed.gpu) available next index (rows.zip (requests.zip arrivalsS)) = .ok settled ∧
      List.Forall₂ (Follows o) decisions routed ∧ List.Forall₂ Agrees routed settled := by
  induction requests generalizing rows decisions arrivalsS before routing available nextGpu index next with
  | nil =>
    obtain rfl := eq_nil_of_length_eq_zero hrows
    obtain rfl := eq_nil_of_length_eq_zero hdec
    exact ⟨[], [], rfl, rfl, .nil, .nil⟩
  | cons request requests ih =>
    obtain ⟨row, rows, rfl⟩ := exists_cons_of_length_eq_add_one hrows
    obtain ⟨decision, decisions, rfl⟩ := exists_cons_of_length_eq_add_one hdec
    obtain ⟨arrival, arrivalsS, rfl⟩ := exists_cons_of_length_eq_add_one harr
    rw [map_cons, length_cons, range'_succ, cons.injEq] at hids
    have harv : (before ++ (arrival :: arrivalsS).map (· * 1000))[index]? = some (arrival * 1000) := by
      rw [getElem?_append_right (by omega), hbef, Nat.sub_self]
      rfl
    obtain ⟨gpu, predicted, nextGpu', hgpu, hlt, hfollows, hprd⟩ := gpuFor_ok (hvld decision mem_cons_self) hlen harv nextGpu
    have htime : available[gpu]? = some available[gpu] := getElem?_eq_getElem (hlen ▸ hlt)
    -- both loops set the time of the GPU to the end of the decode
    have hset : updateOnlineGpuAvailability o
      (before ++ (arrival :: arrivalsS).map (· * 1000)) available request gpu row.criticalPathMs =
        .ok (settle o available index gpu row request arrival available[gpu]).availableAtMs := by
      unfold updateOnlineGpuAvailability availableAt
      rw [hids.1, harv, htime]
      rfl
    have hbef' : (before ++ [arrival * 1000]).length = index + 1 := by simp [hbef]
    have hrou' : (routing ++ [gpu]).length = index + 1 := by simp [hrou]
    have hlen' : (settle o available index gpu row request arrival available[gpu]).availableAtMs.length = o.gpus := by
      simp [settle, hlen]
    obtain ⟨routed, settled, hroute, hsettle, hfol, hagr⟩ := ih (fun d hd => hvld d (mem_cons_of_mem _ hd)) (Nat.succ.inj hrows)
      (Nat.succ.inj hdec) (Nat.succ.inj harr) hids.2 hbef' hrou' hlen' nextGpu' next
    refine ⟨⟨gpu, predicted, _⟩ :: routed, settle o available index gpu row request arrival available[gpu] :: settled, ?_, ?_,
      .cons (hfollows _) hfol, .cons ⟨rfl, rfl, ?_⟩ hagr⟩
    · rw [zip_cons_cons, zip_cons_cons, routeFrom, hgpu]
      simp only [bind, Except.bind, hset]
      rw [append_assoc] at hroute
      rw [show before ++ (arrival :: arrivalsS).map (· * 1000) = before ++
        ([arrival * 1000] ++ arrivalsS.map (· * 1000)) from rfl, hroute]
    · have hindex : (routing ++ gpu :: routed.map Routed.gpu)[index]? = some gpu := by
        rw [getElem?_append_right (by omega), hrou, Nat.sub_self]
        rfl
      rw [append_assoc] at hsettle
      rw [zip_cons_cons, zip_cons_cons, settleFrom, map_cons, gpuOf, hindex]
      simp only [bind, Except.bind]
      unfold availableAt
      rw [htime]
      simp only
      rw [show routing ++ gpu :: routed.map Routed.gpu = routing ++ ([gpu] ++ routed.map Routed.gpu) from rfl, hsettle]
    · intro q hq
      obtain ⟨time, hat, rfl⟩ := hprd q hq
      obtain rfl := Option.some.inj (htime.symm.trans hat)
      show max (arrival * 1000) available[gpu] - arrival * 1000 = _
      rw [← max_sub_sub_right, sub_self]

/-! ## Intervals -/

/-- The time that a request keeps its GPU. -/
def serviceMs (o : Options) (row : Row) (request : Trace.Request) : ℚ :=
    row.criticalPathMs + request.outputTokens * o.decodeMsPerToken

theorem settleFrom_cons {row : Row} {request : Trace.Request} {arrivalS : ℚ} {rest : List (Row × Trace.Request × ℚ)}
    (h : settleFrom o routing available nextGpu index ((row, request, arrivalS) :: rest) = .ok settled) :
    ∃ gpu routing' nextGpu' time others, available[gpu]? = some time ∧
      settleFrom o routing' (settle o available index gpu row request arrivalS time).availableAtMs nextGpu' (index + 1) rest =
        .ok others ∧ settled = settle o available index gpu row request arrivalS time :: others := by
  rw [settleFrom] at h
  cases hgpu : gpuOf o routing available nextGpu index with
  | error e => simp [hgpu, bind, Except.bind] at h
  | ok p =>
    obtain ⟨gpu, routing', nextGpu'⟩ := p
    cases htime : available[gpu]? with
    | none => simp [hgpu, availableAt, htime, bind, Except.bind] at h
    | some time =>
      simp only [hgpu, availableAt, htime, bind, Except.bind] at h
      cases hoth : settleFrom o routing' (settle o available index gpu row request arrivalS time).availableAtMs nextGpu' (index + 1)
        rest with
      | error e => simp [hoth] at h
      | ok others =>
        rw [hoth] at h
        exact ⟨gpu, routing', nextGpu', time, others, htime, hoth, (Except.ok.inj h).symm⟩

theorem arrivalMs_le_dispatchMs
    (h : settleFrom o routing available nextGpu index l = .ok settled) : ∀ s ∈ settled, s.arrivalMs ≤ s.dispatchMs := by
  induction l generalizing routing available nextGpu index settled with
  | nil =>
    obtain rfl := ok.inj h
    simp
  | cons e l ih =>
    obtain ⟨gpu, routing', nextGpu', time, others, -, hoth, rfl⟩ := settleFrom_cons h
    exact forall_mem_cons.2 ⟨le_max_left _ _, ih hoth⟩

theorem pairwise_settled
    (hservice : ∀ e ∈ l, 0 ≤ serviceMs o e.1 e.2.1) (h : settleFrom o routing available nextGpu index l = .ok settled) :
    settled.Pairwise (fun s s' => s.gpu = s'.gpu → s.finishMs ≤ s'.dispatchMs) ∧
      ∀ s ∈ settled, ∀ time, available[s.gpu]? = some time → time ≤ s.dispatchMs := by
  induction l generalizing routing available nextGpu index settled with
  | nil =>
    obtain rfl := ok.inj h
    exact ⟨.nil, by simp⟩
  | cons e l ih =>
    obtain ⟨row, request, arrivalS⟩ := e
    obtain ⟨gpu, routing', nextGpu', time, others, htime, hoth, rfl⟩ := settleFrom_cons h
    obtain ⟨hpairs, hfe⟩ := ih (fun e he => hservice e (mem_cons_of_mem _ he)) hoth
    obtain ⟨hlt, -⟩ := List.getElem?_eq_some_iff.1 htime
    have hset : ∀ g, (settle o available index gpu row request arrivalS time).availableAtMs[g]? =
        if gpu = g then some (settle o available index gpu row request arrivalS time).finishMs else available[g]? := by
      intro g
      show (available.set gpu _)[g]? = _
      rw [getElem?_set, if_pos hlt]
      rfl
    -- the GPU is free later than before, since the service takes no negative time
    have hlater : time ≤ (settle o available index gpu row request arrivalS time).finishMs := by
      have hnn := hservice _ mem_cons_self
      have hdispatch : time ≤ max (arrivalS * 1000) time := le_max_right _ _
      show time ≤ max (arrivalS * 1000) time + row.criticalPathMs + request.outputTokens * o.decodeMsPerToken
      unfold serviceMs at hnn
      linarith
    refine ⟨pairwise_cons.2 ⟨?_, hpairs⟩, forall_mem_cons.2 ⟨?_, ?_⟩⟩
    · intro s hs heq
      have hgpu : gpu = s.gpu := heq
      exact hfe s hs _ (by rw [hset, if_pos hgpu])
    · intro time' htime'
      obtain rfl := Option.some.inj (htime.symm.trans htime')
      exact le_max_right _ _
    · intro s hs time' htime'
      by_cases heq : gpu = s.gpu
      · subst heq
        obtain rfl := Option.some.inj (htime.symm.trans htime')
        exact hlater.trans (hfe s hs _ (by rw [hset, if_pos rfl]))
      · exact hfe s hs time' (by rw [hset, if_neg heq, htime'])

/-- The requests of a trace are routed as was decided. Settling them on the GPUs that they were routed to leaves the GPUs free
at the same times as the routing, after each request, with the queues that were predicted. No request starts before it arrives,
and where services take no negative time those on one GPU come one after another. -/
theorem settle_agrees_with_route {digit : Char → Option Nat} {t : Trace.Options} {layouts : Dict ℤ Trace.Layout}
    {text : List Char}
    {entries : List (List (List Char) × Trace.Request)} (htrace : Trace.loadTrace digit t layouts text = .ok entries)
    {rows : List Row} {decisions : List Decision} {arrivalsS : List ℚ} (hvalid : ∀ d ∈ decisions, d.Valid o)
    (hrows : rows.length = entries.length) (hdecisions : decisions.length = entries.length)
      (harrivals : arrivalsS.length = entries.length) :
    ∃ routed settled, route o rows (entries.map Prod.snd) decisions arrivalsS = .ok routed ∧
      applyOnlineTiming o rows (routed.map Routed.gpu) (entries.map Prod.snd) arrivalsS = .ok settled ∧
      List.Forall₂ (Follows o) decisions routed ∧ List.Forall₂ Agrees routed settled ∧
        (∀ s ∈ settled, s.arrivalMs ≤ s.dispatchMs) ∧
      ((∀ e ∈ rows.zip (entries.map Prod.snd), 0 ≤ serviceMs o e.1 e.2) →
        settled.Pairwise fun s s' => s.gpu = s'.gpu → s.finishMs ≤ s'.dispatchMs) := by
  have hids : (entries.map Prod.snd).map Trace.Request.requestId = range' 0 (entries.map Prod.snd).length := by
    rw [map_map, length_map]
    exact (Trace.loadTraceFrom_spec htrace).1
  have hbef : ([] : List ℚ).length = 0 := rfl
  have hrou : ([] : List Nat).length = 0 := rfl
  have hlen : (replicate o.gpus (0 : ℚ)).length = o.gpus := length_replicate
  obtain ⟨routed, settled, hroute, hset, hfol, hagr⟩ := settleFrom_agrees hvalid (hrows.trans (length_map _).symm)
    (hdecisions.trans (length_map _).symm) (harrivals.trans (length_map _).symm) hids hbef hrou hlen 0 0
  have happly : applyOnlineTiming o rows (routed.map Routed.gpu) (entries.map Prod.snd) arrivalsS = .ok settled := by
    unfold applyOnlineTiming
    rw [if_neg (by simp [hrows, harrivals])]
    exact hset
  refine ⟨routed, settled, hroute, happly, hfol, hagr, arrivalMs_le_dispatchMs hset,
    fun hservice => (pairwise_settled ?_ hset).1⟩
  rintro ⟨row, request, arrival⟩ he
  obtain ⟨i, hi⟩ := mem_iff_getElem?.1 he
  obtain ⟨hrow, hrs⟩ := getElem?_zip_eq_some.1 hi
  have hreq := (getElem?_zip_eq_some.1 hrs).1
  exact hservice (row, request) (mem_iff_getElem?.2 ⟨i, getElem?_zip_eq_some.2 ⟨hrow, hreq⟩⟩)

def twoGpus : Options := ⟨2, 1, 5, 0, 0⟩

def threeRequests : List Trace.Request := [⟨0, 0, 3, 2, 2⟩, ⟨1, 0, 4, 4, 4⟩, ⟨2, 0, 4, 4, 4⟩]

def threeRows : List Row := [⟨10, 4⟩, ⟨10, 4⟩, ⟨10, 4⟩]

/-- Three requests: the first on the second GPU, the second on the GPU with the shorter queue, the third on the second GPU. -/
def threeDecisions : List Decision := [.fixed 1, .among [⟨0, 10, 0⟩, ⟨1, 10, 0⟩], .among [⟨1, 10, 0⟩]]

/-- The third request waits four milliseconds for the first, as was predicted. -/
theorem settle_agrees_with_route_threeDecisions :
    ∃ routed settled, route twoGpus threeRows threeRequests threeDecisions [0, 0, 1 / 125] = .ok routed ∧
      applyOnlineTiming twoGpus threeRows (routed.map Routed.gpu) threeRequests [0, 0, 1 / 125] = .ok settled ∧
      routed.map (fun r => (r.gpu, r.predictedQueueMs)) = [(1, none), (0, some 0), (1, some 4)] ∧
      List.Forall₂ (Follows twoGpus) threeDecisions routed ∧ List.Forall₂ Agrees routed settled := by
  have hvld : ∀ d ∈ threeDecisions, d.Valid twoGpus := by simp [threeDecisions, Decision.Valid, twoGpus]
  have hrows : threeRows.length = 3 := rfl
  have harr : [(0 : ℚ), 0, 1 / 125].length = 3 := rfl
  obtain ⟨routed, settled, hroute, hset, hfol, hagr, -⟩ :=
    settle_agrees_with_route Trace.loadTrace_threeLines hvld hrows rfl harr
  refine ⟨routed, settled, hroute, hset, ?_, hfol, hagr⟩
  have hqueues : (route twoGpus threeRows threeRequests threeDecisions [0, 0, 1 / 125]).map
      (fun l => l.map fun r => (r.gpu, r.predictedQueueMs)) = .ok [(1, none), (0, some 0), (1, some 4)] := by decide +kernel
  have hroute' : route twoGpus threeRows threeRequests threeDecisions [0, 0, 1 / 125] = .ok routed := hroute
  rw [hroute'] at hqueues
  exact ok.inj hqueues

end ServerlessLLM.Simulator.Online
