import Mathlib.Data.List.Perm.Subperm
import ServerlessLLM.Vram.ReuseDisabled
import ServerlessLLM.Vram.Runs

/-!
# The GPU to load on

`GetGPUToLoad` keeps what it finds about the GPUs in two vectors with an element for each GPU, at the number of the GPU.
-/

namespace ServerlessLLM.MockAllocation

open List Option GPUTensorPool

namespace VRAMManager

/-- A GPU with the most bytes of a model, and of those with the most free bytes. -/
def IsBest (v : VRAMManager) (m : RegisteredModel) (id : Int) : Prop :=
  ∃ p, v.gpuTensorPools id = some p ∧ ∀ id' p', v.gpuTensorPools id' = some p' →
    cachedSize m p' < cachedSize m p ∨ cachedSize m p' = cachedSize m p ∧ p'.getFreeSize ≤ p.getFreeSize

variable {v : VRAMManager} {m : RegisteredModel} {ids : List Int} {cached free : List Nat}

/-! ## The vectors -/

theorem setElem?_eq_some {l l' : List Nat} {i : Int} {x : Nat} (h : setElem? l i x = some l') :
    (0 ≤ i ∧ i < l.length) ∧ l'.length = l.length ∧ ∀ j, elem? l' j = if j = i then some x else elem? l j := by
  unfold setElem? at h
  split at h
  · rename_i hi
    cases h
    refine ⟨hi, length_set, fun j => ?_⟩
    unfold elem?
    by_cases hj : 0 ≤ j
    · rw [if_pos hj, if_pos hj, getElem?_set, if_pos (by omega : i.toNat < l.length)]
      exact if_congr (by omega) rfl rfl
    · rw [if_neg hj, if_neg hj, if_neg (by omega)]
  · cases h

theorem sizesLoop_spec {s : List Nat × List Nat} (h : v.sizesLoop m ids cached free = some s) :
    (∀ id ∈ ids, 0 ≤ id ∧ id < cached.length) ∧ ∀ id p, v.gpuTensorPools id = some p →
      id ∈ ids ∨ elem? cached id = some (cachedSize m p) ∧ elem? free id = some p.getFreeSize →
        elem? s.1 id = some (cachedSize m p) ∧ elem? s.2 id = some p.getFreeSize := by
  induction ids generalizing cached free with
  | nil =>
    cases h
    exact ⟨by simp, fun id p _ hid => hid.resolve_left (by simp)⟩
  | cons a ids ih =>
    obtain ⟨q, hq, h⟩ := bind_eq_some_iff.1 h
    obtain ⟨cached', hc, h⟩ := bind_eq_some_iff.1 h
    obtain ⟨free', hf, h⟩ := bind_eq_some_iff.1 h
    obtain ⟨ha, hlen, hcached⟩ := setElem?_eq_some hc
    obtain ⟨-, -, hfree⟩ := setElem?_eq_some hf
    obtain ⟨hrange, hs⟩ := ih h
    refine ⟨forall_mem_cons.2 ⟨ha, fun id hid => hlen ▸ hrange id hid⟩, fun id p hp hid => hs id p hp ?_⟩
    rw [hcached, hfree]
    by_cases heq : id = a
    · subst heq
      obtain rfl := some.inj (hq.symm.trans hp)
      exact .inr ⟨if_pos rfl, if_pos rfl⟩
    · rw [if_neg heq, if_neg heq]
      exact hid.imp_left fun hid => (mem_cons.1 hid).resolve_left heq

theorem exists_sizesLoop (h : ∀ id ∈ ids, (v.gpuTensorPools id).isSome = true ∧ 0 ≤ id ∧ id < cached.length)
    (hlen : free.length = cached.length) : ∃ s, v.sizesLoop m ids cached free = some s := by
  induction ids generalizing cached free with
  | nil => exact ⟨_, rfl⟩
  | cons id ids ih =>
    obtain ⟨⟨hp, hid⟩, h⟩ := forall_mem_cons.1 h
    obtain ⟨p, hp⟩ := isSome_iff_exists.1 hp
    simp only [sizesLoop, hp, setElem?, hlen, if_pos hid, bind_some]
    exact ih (by simpa using h) (by simp [hlen])

/-! ## The search -/

/-- The best GPU of those that were seen, or the GPU 0 that the search starts from. -/
structure Leads (c f : Int → Nat) (seen : List Int) (max : Nat) (best : Int) : Prop where
  le : ∀ id ∈ seen, c id ≤ max
  free_le : ∀ id ∈ seen, c id = max → f id ≤ f best
  origin : best ∈ seen ∧ c best = max ∨ best = 0 ∧ max = 0

theorem Leads.bestLoop {c f : Int → Nat} {all : List Int} (h0 : 0 ∈ all)
    (hall : ∀ id ∈ all, elem? cached id = some (c id) ∧ elem? free id = some (f id)) {seen : List Int} {max : Nat} {best : Int}
    (h : Leads c f seen max best) (hseen : seen ++ ids = all) :
    ∃ max' best', bestLoop cached free ids max best = some best' ∧ Leads c f all max' best' := by
  induction ids generalizing seen max best with
  | nil =>
    obtain rfl : seen = all := by simpa using hseen
    exact ⟨max, best, rfl, h⟩
  | cons id ids ih =>
    have hid := hall id (by simp [← hseen])
    have hbest := hall best (h.origin.elim (fun hb => by simp [← hseen, hb.1]) fun hb => hb.1 ▸ h0)
    have hseen' : seen ++ [id] ++ ids = all := by simp [hseen]
    simp only [VRAMManager.bestLoop, hid.1, hid.2, hbest.2, bind_some]
    by_cases hlt : max < c id
    · rw [if_pos hlt]
      refine ih ⟨forall_mem_append.2 ⟨fun a ha => (h.le a ha).trans hlt.le, forall_mem_singleton.2 le_rfl⟩,
        forall_mem_append.2 ⟨fun a ha hc => ?_, forall_mem_singleton.2 fun _ => le_rfl⟩, .inl ⟨by simp, rfl⟩⟩ hseen'
      exact absurd (h.le a ha) (by omega)
    have hle : ∀ a ∈ seen ++ [id], c a ≤ max := forall_mem_append.2 ⟨h.le, forall_mem_singleton.2 (Nat.not_lt.1 hlt)⟩
    have horigin : best ∈ seen ++ [id] ∧ c best = max ∨ best = 0 ∧ max = 0 :=
      h.origin.imp_left fun hb => ⟨mem_append_left _ hb.1, hb.2⟩
    rw [if_neg hlt]
    by_cases heq : c id = max
    · rw [if_pos heq]
      by_cases hf : f best < f id
      · rw [if_pos hf]
        exact ih ⟨hle, forall_mem_append.2 ⟨fun a ha hc => (h.free_le a ha hc).trans hf.le,
          forall_mem_singleton.2 fun _ => le_rfl⟩,
          .inl ⟨by simp, heq⟩⟩ hseen'
      · rw [if_neg hf]
        exact ih ⟨hle, forall_mem_append.2 ⟨h.free_le, forall_mem_singleton.2 fun _ => Nat.not_lt.1 hf⟩, horigin⟩ hseen'
    · rw [if_neg heq]
      exact ih ⟨hle, forall_mem_append.2 ⟨h.free_le, forall_mem_singleton.2 fun hc => absurd hc heq⟩, horigin⟩ hseen'

theorem zero_mem (hnd : ids.Nodup) (hne : ids ≠ []) (h : ∀ id ∈ ids, 0 ≤ id ∧ id < ids.length) : 0 ∈ ids := by
  by_contra h0
  have hpos := length_pos_of_ne_nil hne
  have hsub : ids ⊆ (range (ids.length - 1)).map fun i : Nat => (i : Int) + 1 := by
    intro id hid
    have hne : id ≠ 0 := fun heq => h0 (heq ▸ hid)
    have hrange := h id hid
    exact mem_map.2 ⟨(id - 1).toNat, mem_range.2 (by omega), by omega⟩
  have hle := (subperm_of_subset hnd hsub).length_le
  rw [length_map, length_range] at hle
  omega

/-! ## The choice -/

/-- `GetGPUToLoad` stays in its vectors and returns a best GPU exactly when every number of a GPU is below the number of the
GPUs. -/
theorem getGPUToLoad_best_iff {path : String} (gpus : v.GpuIds) (hne : gpus.ids ≠ []) (hm : v.registeredModels path = some m)
    (random : Nat) : (∃ id, v.getGPUToLoad gpus path 1 random = some id ∧ v.IsBest m id) ↔
      ∀ id ∈ gpus.ids, 0 ≤ id ∧ id < gpus.ids.length := by
  have hrun : v.getGPUToLoad gpus path 1 random = (v.sizesLoop m gpus.ids (replicate gpus.ids.length 0)
      (replicate gpus.ids.length 0)).bind fun s => bestLoop s.1 s.2 gpus.ids 0 0 := by
    simp [getGPUToLoad, hne, hm]
  rw [hrun]
  constructor
  · rintro ⟨id, hid, -⟩
    obtain ⟨s, hs, -⟩ := bind_eq_some_iff.1 hid
    simpa using (sizesLoop_spec hs).1
  · intro hrange
    have hids : ∀ id ∈ gpus.ids, (v.gpuTensorPools id).isSome = true ∧ 0 ≤ id ∧ id < (replicate gpus.ids.length 0).length :=
      fun id hid => ⟨(gpus.mem_iff id).1 hid, by simpa using hrange id hid⟩
    obtain ⟨s, hs⟩ := exists_sizesLoop hids rfl
    have hall : ∀ id ∈ gpus.ids, elem? s.1 id = some (((v.gpuTensorPools id).map (cachedSize m)).getD 0) ∧
        elem? s.2 id = some (((v.gpuTensorPools id).map getFreeSize).getD 0) := by
      intro id hid
      obtain ⟨p, hp⟩ := isSome_iff_exists.1 ((gpus.mem_iff id).1 hid)
      simpa [hp] using (sizesLoop_spec hs).2 id p hp (.inl hid)
    have h0 := zero_mem gpus.nodup hne hrange
    obtain ⟨max, best, hbest, hlead⟩ := Leads.bestLoop h0 hall ⟨by simp, by simp, .inr ⟨rfl, rfl⟩⟩ (nil_append _)
    have hin : best ∈ gpus.ids ∧ ((v.gpuTensorPools best).map (cachedSize m)).getD 0 = max := by
      rcases hlead.origin with h | ⟨rfl, rfl⟩
      · exact h
      · exact ⟨h0, Nat.le_zero.1 (hlead.le 0 h0)⟩
    obtain ⟨p, hp⟩ := isSome_iff_exists.1 ((gpus.mem_iff best).1 hin.1)
    refine ⟨best, by rw [hs]; exact hbest, p, hp, fun id' p' hp' => ?_⟩
    have hid' := (gpus.mem_iff id').2 (by simp [hp'])
    have hle := hlead.le id' hid'
    have hfree := hlead.free_le id' hid'
    simp only [hp, hp', map_some, getD_some] at hin hle hfree
    rw [hin.2]
    exact hle.lt_or_eq.imp_right fun heq => ⟨heq, hfree heq⟩

def oneGroup : RegisteredModel := ⟨"model", [⟨0, 4, "group", []⟩], [some [1, 2, 3, 4]], 0⟩

/-- The pool of GPU 1 has the group, and the map has GPU 1 first. -/
def twoGpus : VRAMManager where
  registeredModels _ := some oneGroup
  gpuTensorPools id :=
    if id = 1 then some ((init 8 16 1 fun _ => 0).loadModel .reliable oneGroup 2).2
    else if id = 0 then some (.init 8 32 1 fun _ => 0) else none
  mockCopy := true

def twoGpuIds : twoGpus.GpuIds := ⟨[1, 0], by decide, fun id => by
  by_cases h1 : id = 1 <;> by_cases h0 : id = 0 <;> simp [twoGpus, h0, h1]⟩

theorem getGPUToLoad_best_twoGpus : twoGpus.getGPUToLoad twoGpuIds "model" 1 0 = some 1 ∧ twoGpus.IsBest oneGroup 1 := by
  have hiff := @getGPUToLoad_best_iff twoGpus oneGroup "model" twoGpuIds (by simp [twoGpuIds]) rfl 0
  obtain ⟨id, hid, hbest⟩ := hiff.2 (by simp [twoGpuIds])
  have hone : twoGpus.getGPUToLoad twoGpuIds "model" 1 0 = some 1 := by decide +kernel
  obtain rfl := some.inj (hid.symm.trans hone)
  exact ⟨hid, hbest⟩

def gpuOne : VRAMManager where
  registeredModels _ := some oneGroup
  gpuTensorPools id := if id = 1 then some (.init 8 16 1 fun _ => 0) else none
  mockCopy := true

/-- The only GPU has the number 1. -/
theorem getGPUToLoad_leaves_vector :
    gpuOne.getGPUToLoad ⟨[1], nodup_singleton 1, fun id => by simp [gpuOne]⟩ "model" 1 0 = none := by
  decide

end VRAMManager

end ServerlessLLM.MockAllocation
