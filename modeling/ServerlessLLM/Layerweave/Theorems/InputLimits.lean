import ServerlessLLM.Layerweave.Theorems.Reservation

/-!
# Input limits of a joint pool

`apply_joint_pool_input_limits` of `vllm_odkv_trace_bench.py` caps the inputs, so that the weights of a model and the KV blocks
of a request fit the pool together.
-/

namespace ServerlessLLM.Layerweave

open Option Dict Outcome State Engine

/-! ## What fits -/

def enginesPool (vmmPoolGib : ℚ) (engines : Dict Nat Engine) : ℤ :=
  poolPages vmmPoolGib ((engines.entries.head?.map fun e => e.2.pageSize).getD 0)

/-- The weights of a model and the KV blocks of so many tokens fit the pool. -/
def Engine.Fits (e : Engine) (pool : ℤ) (tokens : Nat) : Prop :=
  (e.requiredPages.card : ℤ) + ((tokens + e.blockSizeTokens - 1) / e.blockSizeTokens * e.pagesPerBlock : Nat) ≤ pool

instance (e : Engine) (pool : ℤ) (tokens : Nat) : Decidable (e.Fits pool tokens) := inferInstanceAs (Decidable (_ ≤ _))

def Feasible (vmmPoolGib : ℚ) (engines : Dict Nat Engine) (r : Request) : Prop :=
  1 ≤ r.inputTokens ∧ ∃ e, engines.get? r.modelId = some e ∧
    e.Fits (enginesPool vmmPoolGib engines) (r.inputTokens + r.outputTokens)

section

variable {e : Engine} {pool : ℤ} {modelId tokens : Nat} {limit : InputLimit} {vmmPoolGib : ℚ} {engines : Dict Nat Engine}
  {limits limits' : Dict Nat InputLimit} {truncate : Bool} {r r' : TraceRequest} {requests requests' : List TraceRequest}

theorem forall_mem_iff_of_forall₂ {α β : Type} {P : α → Prop} {Q : β → Prop} {l : List α} {l' : List β}
    (h : List.Forall₂ (fun a b => P a ↔ Q b) l l') : (∀ a ∈ l, P a) ↔ ∀ b ∈ l', Q b := by
  induction h with
  | nil => simp
  | cons hab _ ih => rw [List.forall_mem_cons, List.forall_mem_cons, hab, ih]

theorem blocks_le_iff {n b k : Nat} (hb : 0 < b) : (n + b - 1) / b ≤ k ↔ n ≤ k * b := by
  rw [← Nat.lt_succ_iff, Nat.div_lt_iff_lt_mul hb, Nat.succ_mul]
  omega

theorem Engine.fits_iff (hblk : 0 < e.pagesPerBlock) (htok : 0 < e.blockSizeTokens) :
    e.Fits pool tokens ↔ (tokens : ℤ) ≤ (pool - e.requiredPages.card) / e.pagesPerBlock * e.blockSizeTokens := by
  have hblk' : (0 : ℤ) < e.pagesPerBlock := by exact_mod_cast hblk
  have hbks : e.Fits pool tokens ↔
      (((tokens + e.blockSizeTokens - 1) / e.blockSizeTokens : Nat) : ℤ) ≤ (pool - e.requiredPages.card) / e.pagesPerBlock := by
    rw [Int.le_ediv_iff_mul_le hblk']
    unfold Fits
    push_cast
    constructor <;> intro h <;> linarith
  rw [hbks]
  generalize (pool - e.requiredPages.card) / (e.pagesPerBlock : ℤ) = k
  rcases Int.lt_or_le k 0 with hneg | hpos
  · have htok' : (0 : ℤ) < e.blockSizeTokens := by exact_mod_cast htok
    have hprod := Int.mul_neg_of_neg_of_pos hneg htok'
    have hbks : (0 : ℤ) ≤ ((tokens + e.blockSizeTokens - 1) / e.blockSizeTokens : Nat) := Int.natCast_nonneg _
    constructor <;> intro h <;> omega
  · obtain ⟨k, rfl⟩ := Int.eq_ofNat_of_zero_le hpos
    rw [Int.ofNat_le, blocks_le_iff htok]
    exact_mod_cast Iff.rfl

theorem Engine.limit_spec (h : e.limit pool modelId = .ok limit) :
    0 < e.blockSizeTokens ∧ 1 < limit.maxTotalTokens ∧ ∀ tokens : Nat, e.Fits pool tokens ↔
      (tokens : ℤ) ≤ limit.maxTotalTokens := by
  unfold Engine.limit at h
  split at h
  · cases h
  · split at h
    · cases h
    · rename_i hblk
      simp only at h
      split at h
      · cases h
      · rename_i htot
        cases h
        have htok : 0 < e.blockSizeTokens := by
          rcases Nat.eq_zero_or_pos e.blockSizeTokens with hzero | hpos
          · rw [hzero] at htot
            simp at htot
          · exact hpos
        exact ⟨htok, not_le.1 htot, fun tokens => fits_iff (Nat.pos_of_ne_zero hblk) htok⟩

def Limits (pool : ℤ) (engines : Dict Nat Engine) (limits : Dict Nat InputLimit) : Prop :=
  ∀ modelId limit, limits.get? modelId = some limit → ∃ e, engines.get? modelId = some e ∧
    0 < e.blockSizeTokens ∧ 1 < limit.maxTotalTokens ∧ ∀ tokens : Nat, e.Fits pool tokens ↔ (tokens : ℤ) ≤ limit.maxTotalTokens

theorem engineLimits_spec {l : List (Nat × Engine)} (hl : ∀ e ∈ l, e ∈ engines.entries) (h : Limits pool engines limits)
    (heq : engineLimits vmmPoolGib l (some pool) limits = .ok limits') : Limits pool engines limits' := by
  induction l generalizing limits with
  | nil =>
    cases heq
    exact h
  | cons e l ih =>
    obtain ⟨modelId, e⟩ := e
    unfold engineLimits at heq
    rw [if_neg (by simp)] at heq
    obtain ⟨limit, hlimit, heq⟩ := bind_eq_ok.1 heq
    refine ih (fun e he => hl e (List.mem_cons_of_mem _ he)) ?_ heq
    intro m limit' hget
    rw [get?_set] at hget
    split at hget
    · rename_i hm
      cases hget
      rw [hm]
      exact ⟨e, mem_entries_iff.1 (hl _ List.mem_cons_self), limit_spec hlimit⟩
    · exact h m limit' hget

theorem engineLimits_none (heq : engineLimits vmmPoolGib engines.entries none .empty = .ok limits) :
    Limits (enginesPool vmmPoolGib engines) engines limits := by
  have hemp : ∀ pool, Limits pool engines .empty := by
    intro pool m limit h
    cases h
  cases hent : engines.entries with
  | nil =>
    rw [hent] at heq
    cases heq
    exact hemp _
  | cons e l =>
    obtain ⟨modelId, e⟩ := e
    have hpo : enginesPool vmmPoolGib engines = poolPages vmmPoolGib e.pageSize := by
      unfold enginesPool
      rw [hent]
      rfl
    have hso : engineLimits vmmPoolGib engines.entries (some (poolPages vmmPoolGib e.pageSize)) .empty = .ok limits := by
      rw [hent] at heq ⊢
      unfold engineLimits at heq ⊢
      split at heq
      · cases heq
      · rw [if_neg (by simp)]
        exact heq
    rw [hpo]
    exact engineLimits_spec (fun e he => he) (hemp _) hso

theorem limitRequest_spec (hft : ∀ tokens : Nat, e.Fits pool tokens ↔ (tokens : ℤ) ≤ limit.maxTotalTokens)
    (h : limitRequest truncate limit r = .ok r') :
    r'.modelId = r.modelId ∧ (e.Fits pool (r.inputTokens + r.outputTokens) → r' = r) ∧
      (1 ≤ r'.inputTokens ∧ e.Fits pool (r'.inputTokens + r'.outputTokens) ↔
        1 ≤ r.inputTokens ∧ e.Fits pool (1 + r.outputTokens)) := by
  unfold limitRequest maxInputTokens at h
  simp only [hft]
  split at h
  · rename_i hlrg
    split at h
    · cases h
    · cases h
      refine ⟨rfl, fun hle => ?_, ?_⟩
      · omega
      · simp only
        omega
  · rename_i hsml
    cases h
    refine ⟨rfl, fun _ => rfl, ?_⟩
    omega

theorem limitRequests_spec (hlimits : Limits (enginesPool vmmPoolGib engines) engines limits)
    (h : limitRequests truncate requests limits = .ok (limits', requests')) :
    List.Forall₂ (fun r r' => (Feasible vmmPoolGib engines r.toRequest → r' = r) ∧
      (Feasible vmmPoolGib engines r'.toRequest ↔
        1 ≤ r.inputTokens ∧ Feasible vmmPoolGib engines { r.toRequest with inputTokens := 1 }) ∧
      ∀ e, engines.get? r'.modelId = some e → 0 < e.blockSizeTokens) requests requests' := by
  induction requests generalizing limits requests' with
  | nil =>
    cases h
    exact .nil
  | cons r requests ih =>
    unfold limitRequests at h
    split at h
    · cases h
    · rename_i limit hlimit
      obtain ⟨r', hr, h⟩ := bind_eq_ok.1 h
      obtain ⟨⟨limits'', rest⟩, hrs, h⟩ := bind_eq_ok.1 h
      cases h
      obtain ⟨e, he, htok, htot, hft⟩ := hlimits _ _ hlimit
      refine .cons ?_ (ih ?_ hrs)
      · obtain ⟨hmod, hsa, hiff⟩ := limitRequest_spec hft hr
        unfold Feasible
        rw [hmod]
        simp only [he, some.injEq, exists_eq_left', forall_eq']
        exact ⟨fun hfea => hsa hfea.2, hiff.trans (and_congr_right fun _ => (and_iff_right le_rfl).symm), htok⟩
      · intro m limit' hget
        rw [get?_set] at hget
        split at hget
        · rename_i hm
          cases hget
          exact ⟨e, by rwa [hm], htok, htot, hft⟩
        · exact hlimits m limit' hget

theorem planDispatch_of_feasible {policy : Policy} (s : State policy) (args : Arguments) {controller : Controller}
    {e : Engine} {r : Request}
    (hbat : args.batch = [r]) (hkv : args.currentKvPages = 0)
      (hact : policy.controllers.get? args.activeModelId = some controller)
    (hzero : ∀ e ∈ policy.controllers.entries, e.2.prefixCachePages .zero = ∅)
    (hmds : (policy.residencies args).keys.Perm policy.controllers.keys)
    (hres : ((policy.residencies args).entries.map fun e => e.2.card).sum ≤ policy.poolPages)
    (hins : pagesOf (policy.residencies args) args.activeModelId ⊆ controller.requiredPages) (htok : 0 < e.blockSizeTokens)
    (hsz : policy.pageSize = e.pageSize) (hpgs : controller.requiredPages = e.requiredPages)
    (hft : e.Fits policy.poolPages (r.inputTokens + r.outputTokens)) :
    ∃ report s', s.planDispatch args e.blockSizeTokens e.blockSizeBytes = (.ok report, s') := by
  have hro : controller.requiredPages.card + kvBlocks args.batch e.blockSizeTokens * kvPagesPerBlock policy e.blockSizeBytes +
      args.currentKvPages ≤ policy.poolPages := by
    unfold Engine.Fits pagesPerBlock at hft
    unfold kvBlocks kvPagesPerBlock
    rw [hbat, hkv, hsz, hpgs, List.map_singleton, List.sum_singleton, Nat.add_zero]
    exact_mod_cast hft
  obtain ⟨report, s', h, -⟩ := planDispatch_of_fits s args e.blockSizeTokens e.blockSizeBytes hact hzero hmds
    (by rwa [hkv, Nat.add_zero]) hins htok hro
  exact ⟨report, s', h⟩

/-- The requests are feasible afterwards just when each has an input, and would be feasible with an input of one token. A
request that was feasible is not changed, and one that is feasible is planned. -/
theorem joint_limits_feasible_iff {vmmPoolGib : ℚ} {engines : Dict Nat Engine} {truncate : Bool}
    {requests requests' : List TraceRequest}
    {limits : Dict Nat InputLimit}
    (h : applyJointPoolInputLimits "layerweave" truncate vmmPoolGib requests engines = .ok (limits, requests')) :
    ((∀ r ∈ requests', Feasible vmmPoolGib engines r.toRequest) ↔
      ∀ r ∈ requests, 1 ≤ r.inputTokens ∧ Feasible vmmPoolGib engines { r.toRequest with inputTokens := 1 }) ∧
    List.Forall₂ (fun r r' => Feasible vmmPoolGib engines r.toRequest → r' = r) requests requests' ∧
    ∀ r ∈ requests', Feasible vmmPoolGib engines r.toRequest → ∀ e, engines.get? r.modelId = some e →
      ∀ (policy : Policy) (s : State policy) (args : Arguments) (controller : Controller), args.batch = [r.toRequest] →
        args.currentKvPages = 0 → policy.controllers.get? args.activeModelId = some controller →
        (∀ e ∈ policy.controllers.entries, e.2.prefixCachePages .zero = ∅) →
        (policy.residencies args).keys.Perm policy.controllers.keys →
        ((policy.residencies args).entries.map fun e => e.2.card).sum ≤ policy.poolPages →
        pagesOf (policy.residencies args) args.activeModelId ⊆ controller.requiredPages →
        policy.pageSize = e.pageSize → (policy.poolPages : ℤ) = enginesPool vmmPoolGib engines →
          controller.requiredPages = e.requiredPages →
        ∃ report s', s.planDispatch args e.blockSizeTokens e.blockSizeBytes = (.ok report, s') := by
  unfold applyJointPoolInputLimits at h
  rw [if_neg (by simp)] at h
  obtain ⟨limits₀, hlimits, h⟩ := bind_eq_ok.1 h
  have hspec := engineLimits_none hlimits
  have hall := limitRequests_spec hspec h
  refine ⟨?_, hall.imp fun _ _ h => h.1, ?_⟩
  · exact (forall_mem_iff_of_forall₂ (hall.imp fun _ _ h => h.2.1.symm)).symm
  · intro r hr hfea e he policy s args controller hbat hkv hact hzero hmds hres hins hsz hpo hpgs
    have htok : ∀ e, engines.get? r.modelId = some e → 0 < e.blockSizeTokens :=
      (forall_mem_iff_of_forall₂ (P := fun _ => True) (Q := fun r' => ∀ e, engines.get? r'.modelId = some e →
        0 < e.blockSizeTokens)
        (hall.imp fun _ _ h => iff_of_true trivial h.2.2)).1 (fun _ _ => trivial) r hr
    obtain ⟨-, e', he', hft⟩ := hfea
    rw [he, some.injEq] at he'
    subst he'
    rw [← hpo] at hft
    exact planDispatch_of_feasible s args hbat hkv hact hzero hmds hres hins (htok e he) hsz hpgs hft

/-- A model of two pages in a pool of four, with KV blocks of one page and one token. -/
def smallEngine : Engine := ⟨1024 ^ 3, {0, 1}, 1024 ^ 3, 1⟩

def longOutput : TraceRequest := ⟨⟨0, 1, 2⟩, 7⟩

/-- Its input is longer than what fits beside an output of one token. -/
def longInput : TraceRequest := ⟨⟨0, 5, 1⟩, 8⟩

theorem joint_limits_feasible_iff_longInput : ∃ limits,
    applyJointPoolInputLimits "layerweave" true 4 [longInput] (Dict.empty.set 0 smallEngine) = .ok (limits, [⟨⟨0, 1, 1⟩, 8⟩]) ∧
      ((∀ r ∈ [(⟨⟨0, 1, 1⟩, 8⟩ : TraceRequest)], Feasible 4 (Dict.empty.set 0 smallEngine) r.toRequest) ↔
        ∀ r ∈ [longInput], 1 ≤ r.inputTokens ∧
          Feasible 4 (Dict.empty.set 0 smallEngine) { r.toRequest with inputTokens := 1 }) := by
  have h : ∃ limits, applyJointPoolInputLimits "layerweave" true 4 [longInput] (Dict.empty.set 0 smallEngine) =
      .ok (limits, [⟨⟨0, 1, 1⟩, 8⟩]) := ⟨Dict.empty.set 0 ⟨4, 2, 1, 2, 2, some 1⟩, by decide +kernel⟩
  obtain ⟨limits, h⟩ := h
  exact ⟨limits, h, (joint_limits_feasible_iff h).1⟩

def error? {ε α : Type} : Except ε α → Option ε
  | .error e => some e
  | .ok _ => none

theorem eq_error_of_error? {ε α : Type} {x : Except ε α} {e : ε} (h : error? x = some e) : x = .error e := by
  cases x with
  | error e' => rw [some.inj h]
  | ok a => cases h

/-- The request whose output takes all tokens is let through, and its dispatch fails. -/
theorem long_output_not_feasible : ∃ limits,
    applyJointPoolInputLimits "layerweave" true 4 [longOutput] (Dict.empty.set 0 smallEngine) = .ok (limits, [longOutput]) ∧
      ¬Feasible 4 (Dict.empty.set 0 smallEngine) longOutput.toRequest ∧
      ((init (oneModel (1024 ^ 3) (by decide))).planDispatch
        ⟨0, [longOutput.toRequest], [], 0, none, fun _ => []⟩ 1 (1024 ^ 3)).1 =
        .error (.notEnoughSoftPages 1 0) := by
  refine ⟨Dict.empty.set 0 ⟨4, 2, 1, 2, 2, some 1⟩, by decide +kernel, ?_, ?_⟩
  · rintro ⟨-, e, he, hft⟩
    cases he
    revert hft
    decide +kernel
  · refine eq_error_of_error? ?_
    decide +kernel

end

end ServerlessLLM.Layerweave
