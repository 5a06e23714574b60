import ServerlessLLM.Vram.Lemmas.LoadOps
import ServerlessLLM.Vram.Runs

/-!
# The invariants of the pools of a manager

Three invariants, each under its own condition on the registered models, along every run in which the device-to-device calls
succeed: the list is in order (`PoolTiled`), every entry of the index is a region with that fingerprint (`PoolSound`), and
every ALLOCATED region is entered in the index (`PoolComplete`).
-/

namespace ServerlessLLM

open Linked GPUTensorPool

def RegisteredModel.Positive (m : RegisteredModel) : Prop := ∀ tg ∈ m.tensorGroupIndexes, 0 < tg.size

def RegisteredModel.Named (m : RegisteredModel) : Prop := "" ∉ m.fingerprints

/-- The groups of the model have different fingerprints, none of which is that of a KV region. -/
def RegisteredModel.Distinct (m : RegisteredModel) : Prop :=
  m.fingerprints.Nodup ∧ ∀ n, kvFingerprint n ∉ m.fingerprints

def Region.BelongsTo (m : RegisteredModel) (r : Region) : Prop := r.fingerprint ∈ m.fingerprints

instance (m : RegisteredModel) : DecidablePred (Region.BelongsTo m) :=
  fun r => inferInstanceAs (Decidable (r.fingerprint ∈ m.fingerprints))

theorem RegisteredModel.distinct_of_not_kv {m : RegisteredModel} (hd : m.fingerprints.Nodup)
    (hk : ∀ fp ∈ m.fingerprints, isKv fp = false) : m.Distinct := by
  refine ⟨hd, ?_⟩
  intro n hn
  have := hk _ hn
  rw [isKv_kvFingerprint] at this
  exact absurd this (by decide)

/-- The list of regions is in order. -/
structure PoolTiled (p : GPUTensorPool) : Prop where
  base : 0 < p.gpuBaseAddr
  wellFormed : ∃ b, WellFormed p.gpuBaseAddr b p

/-- Every entry of the index is an ALLOCATED region with that fingerprint. -/
structure PoolSound (p : GPUTensorPool) : Prop extends PoolTiled p where
  named : Named p.view
  sound : IndexSound p.view

/-- Every ALLOCATED region is entered in the index. -/
structure PoolComplete (p : GPUTensorPool) : Prop extends PoolSound p where
  complete : IndexComplete p.view
  kvBelow : KvBelow p.allocatedBlockId p.view

section Pool

variable {P : Platform} {m : RegisteredModel} {p : GPUTensorPool} {strategy : Int}

theorem poolComplete_init {base total : Nat} (hb : 0 < base) (ht : 0 < total) (cpuBandwidth : ℚ) (bytes : Nat → UInt8) :
    PoolComplete (init base total cpuBandwidth bytes) := by
  have hno : allocatedOf (init base total cpuBandwidth bytes).cells = [] := by
    rw [(holds_init base total cpuBandwidth bytes).cells_eq]
    rfl
  refine ⟨⟨⟨hb, base + total, wellFormed_init ht cpuBandwidth bytes⟩, ?_, fun fp i hi => ?_⟩, ?_, fun n _ => ?_⟩
  · simp [Named, hno]
  · exact absurd hi (by simp [init])
  · simp [IndexComplete, hno]
  · simp [Absent, hno]

theorem PoolTiled.loadModel (hP : P.MovesSucceed) (hm : m.Positive) (h1 : 1 ≤ strategy) (h4 : strategy ≤ 4) (h : PoolTiled p) :
    PoolTiled (p.loadModel P m strategy).2 := by
  obtain ⟨b, hw⟩ := h.wellFormed
  obtain ⟨hw', hf⟩ := (hw.loadModel hP h.base h1 h4 hm fun _ _ => windowsOk_true).wellFormed hw
  refine ⟨?_, b, ?_⟩
  · rw [hf.base]
    exact h.base
  · rw [hf.base]
    exact hw'

theorem PoolTiled.allocateBlocks (h : PoolTiled p) (blockSize : Nat) (path : String) (n : Int) :
    PoolTiled (p.allocateBlocks P blockSize path n).2 := by
  obtain ⟨b, hw⟩ := h.wellFormed
  obtain ⟨q, hq, hc⟩ := hw.allocateBlocks (P := P) rfl blockSize path n
  have hba := hc.base.trans hq.frame.base
  refine ⟨?_, b, ?_⟩
  · rw [hba]
    exact h.base
  · rw [hba]
    exact hc.wellFormed

theorem Loads.view {S : Region → Prop} {a b : Nat} {r : LoadResult × GPUTensorPool} (h : WellFormed a b p)
    (hl : Loads P S m a b p r) :
    ∃ v addrs tgs, (tgs = [] ∨ tgs.Perm (p.requests m)) ∧ Evicted (fun _ => True) p.view (p.prepared m).view ∧
      (∃ w, Evicted (fun _ => True) (p.prepared m).view w ∧ Loading S m w (p.reused m) tgs v addrs) ∧
      r.2.view.cells = v.cells ∧ r.2.view.index = v.index := by
  have hprep : Evicted (fun _ => True) p.view (p.prepared m).view := ((h.prepared m).2.2.1).mono fun _ _ => trivial
  have hdrop : Evicted (fun _ => True) (p.prepared m).view (p.dropFor P m).2.view :=
    ((h.dropFor P m).1.evicted).mono fun _ _ => trivial
  cases hl with
  | cached _ => exact ⟨_, _, [], .inl rfl, hprep, ⟨_, .refl _, .nil _ _⟩, rfl, rfl⟩
  | refused _ => exact ⟨_, _, [], .inl rfl, hprep, ⟨_, hdrop, .nil _ _⟩, rfl, rfl⟩
  | stuck hp _ =>
    obtain ⟨tgs, hpm, hld⟩ := hp.loading
    exact ⟨_, _, tgs, .inr hpm, hprep, ⟨_, hdrop, hld⟩, rfl, rfl⟩
  | copied hp =>
    obtain ⟨tgs, hpm, hld⟩ := hp.loading
    exact ⟨_, _, tgs, .inr hpm, hprep, ⟨_, hdrop, hld⟩, rfl, rfl⟩

theorem PoolSound.loadModel (hP : P.MovesSucceed) (hm : m.Positive) (hn : m.Named) (h1 : 1 ≤ strategy) (h4 : strategy ≤ 4)
    (h : PoolSound p) : PoolSound (p.loadModel P m strategy).2 := by
  obtain ⟨b, hw⟩ := h.wellFormed
  have hl := hw.loadModel hP h.base h1 h4 hm fun _ _ => windowsOk_true
  obtain ⟨v, addrs, tgs, htgs, hprep, ⟨w, hdrop, hld⟩, hcls, hindex⟩ := hl.view hw
  have hfp : ∀ tg ∈ tgs, tg.tgIndex.fingerprint ≠ "" := by
    intro tg htg he
    rcases htgs with rfl | hpm
    · simp at htg
    · exact hn (List.mem_map.2 ⟨tg.tgIndex, (collected p m).mem tg (hpm.subset htg), he⟩)
  obtain ⟨e1, e2⟩ := hld.sound hfp (hdrop.named (hprep.named h.named)) (hdrop.indexSound (hprep.indexSound h.sound))
  refine ⟨h.toPoolTiled.loadModel hP hm h1 h4, ?_, ?_⟩
  · intro c hc
    rw [hcls] at hc
    exact e1 c hc
  · intro fp i hi
    rw [hindex] at hi
    rw [hcls]
    exact e2 fp i hi

theorem PoolSound.allocateBlocks (h : PoolSound p) (blockSize : Nat) (path : String) (n : Int) :
    PoolSound (p.allocateBlocks P blockSize path n).2 := by
  obtain ⟨b, hw⟩ := h.wellFormed
  obtain ⟨q, hq, hc⟩ := hw.allocateBlocks (P := P) rfl blockSize path n
  obtain ⟨h1, h2⟩ := hc.carved.sound (hq.evicted.named h.named) (hq.evicted.indexSound h.sound)
  exact ⟨h.toPoolTiled.allocateBlocks blockSize path n, h1, h2⟩

theorem KvBelow.evicted {E : Region → Prop} {k : Nat} {v v' : View} (h : KvBelow k v) (he : Evicted E v v') : KvBelow k v' :=
  fun n hn => he.absent (h n hn)

theorem IndexComplete.absent {v : View} (h : IndexComplete v) {fp : String} (hfp : v.index fp = none) : Absent fp v := by
  intro c hc he
  have := h c hc
  rw [he, hfp] at this
  exact absurd this (by simp)

theorem PoolComplete.loadModel (hP : P.MovesSucceed) (hm : m.Positive) (hn : m.Named) (hd : m.Distinct) (h1 : 1 ≤ strategy)
    (h4 : strategy ≤ 4) (h : PoolComplete p) : PoolComplete (p.loadModel P m strategy).2 := by
  obtain ⟨b, hw⟩ := h.wellFormed
  have hl := hw.loadModel hP h.base h1 h4 hm fun _ _ => windowsOk_true
  obtain ⟨-, hfrm⟩ := hl.wellFormed hw
  obtain ⟨v, addrs, tgs, htgs, hprep, ⟨w, hdrop, hld⟩, hcls, hindex⟩ := hl.view hw
  have hmem : ∀ tg ∈ tgs, tg ∈ p.requests m := by
    intro tg htg
    rcases htgs with rfl | hpm
    · simp at htg
    · exact hpm.subset htg
  have hin : ∀ tg ∈ tgs, tg.tgIndex.fingerprint ∈ m.fingerprints := fun tg htg =>
    List.mem_map.2 ⟨tg.tgIndex, (collected p m).mem tg (hmem tg htg), rfl⟩
  have hnd : (tgs.map fun tg => tg.tgIndex.fingerprint).Nodup := by
    rcases htgs with rfl | hpm
    · simp
    · exact (hpm.map _).nodup_iff.2 ((collected p m).nodup_fingerprints hd.1)
  -- a group is requested only when the index does not have it
  have hcomp := hprep.indexComplete hw.layout h.complete
  have habs : ∀ tg ∈ tgs, Absent tg.tgIndex.fingerprint w := fun tg htg =>
    hdrop.absent (hcomp.absent ((collected p m).absent tg (hmem tg htg)))
  have hcomp' := hdrop.indexComplete (hw.prepared m).1.layout hcomp
  have hc := hld.complete (fun tg htg he => hn (he ▸ hin tg htg)) hnd habs (hdrop.named (hprep.named h.named)) hcomp'
  refine ⟨h.toPoolSound.loadModel hP hm hn h1 h4, ?_, ?_⟩
  · intro c hc'
    rw [hcls] at hc'
    rw [hindex]
    exact hc c hc'
  · intro n hlt c hc'
    rw [hcls] at hc'
    rw [hfrm.blockId] at hlt
    have ha := ((h.kvBelow.evicted hprep).evicted hdrop) n hlt
    exact hld.absent ha (fun tg htg he => hd.2 n (he ▸ hin tg htg)) c hc'

theorem PoolComplete.allocateBlocks (h : PoolComplete p) (blockSize : Nat) (path : String) (n : Int) :
    PoolComplete (p.allocateBlocks P blockSize path n).2 := by
  obtain ⟨b, hw⟩ := h.wellFormed
  obtain ⟨q, hq, hc⟩ := hw.allocateBlocks (P := P) rfl blockSize path n
  have hk : KvBelow q.allocatedBlockId q.view := by
    rw [hq.frame.blockId]
    exact h.kvBelow.evicted hq.evicted
  exact ⟨h.toPoolSound.allocateBlocks blockSize path n,
    hc.carved.complete hk (hq.evicted.indexComplete hw.layout h.complete), hc.carved.kvBelow hk⟩

end Pool

/-! ## Along runs -/

section Run

variable {P : Platform} {v w : VRAMManager} {G : RegisteredModel → Prop}

theorem Reaches.poolTiled (hP : P.MovesSucceed) (hv : v.Fresh) (h : Reaches P (fun _ op => op.Allowed G) v w)
    (hG : ∀ m, G m → m.Positive) : Good G (fun _ p => PoolTiled p) w :=
  h.good (hv.good fun _ _ _ bw bytes hb ht _ => (poolComplete_init hb ht bw bytes).toPoolTiled)
    (fun _ m _ _ hm h1 h4 hp => hp.loadModel hP (hG m hm) h1 h4) fun _ _ bs path n hp => hp.allocateBlocks bs path n

theorem Reaches.poolComplete (hP : P.MovesSucceed) (hv : v.Fresh) (h : Reaches P (fun _ op => op.Allowed G) v w)
    (hG : ∀ m, G m → m.Positive ∧ m.Named ∧ m.Distinct) : Good G (fun _ p => PoolComplete p) w :=
  h.good (hv.good fun _ _ _ bw bytes hb ht _ => poolComplete_init hb ht bw bytes)
    (fun _ m _ _ hm h1 h4 hp => hp.loadModel hP (hG m hm).1 (hG m hm).2.1 (hG m hm).2.2 h1 h4)
    fun _ _ bs path n hp => hp.allocateBlocks bs path n

end Run

end ServerlessLLM
