import ServerlessLLM.Checkpoint.Placement
import ServerlessLLM.Library.InOrder

/-!
# The plan of the memory of the devices

The passes leave a tensor out when its `(offset, size)` was seen before, on whatever device. So the plan is right when tensors
with the same data are on one device, and only then.
-/

namespace ServerlessLLM

open InOrder List Dict CopyChunk OffsetVars
open Prod (fst snd)

theorem foldlM_concat_ok {α σ ε : Type} {step : σ → α → Except ε σ} {l : List α} {x : α} {s₀ s s' : σ}
    (hl : l.foldlM step s₀ = .ok s) (hx : step s x = .ok s') : (l ++ [x]).foldlM step s₀ = .ok s' := by
  rw [foldlM_append, hl]
  change step s x >>= pure = _
  rw [hx]
  rfl

theorem foldlM_concat_inv {α σ ε : Type} {step : σ → α → Except ε σ} {l : List α} {x : α} {s₀ s' : σ}
    (h : (l ++ [x]).foldlM step s₀ = .ok s') : ∃ s, l.foldlM step s₀ = .ok s ∧ step s x = .ok s' := by
  rw [foldlM_append] at h
  cases hl : l.foldlM step s₀ with
  | error e =>
    rw [hl] at h
    cases h
  | ok s =>
    refine ⟨s, rfl, ?_⟩
    rw [hl] at h
    cases hx : step s x with
    | error e =>
      change step s x >>= pure = _ at h
      rw [hx] at h
      cases h
    | ok s'' =>
      change step s x >>= pure = _ at h
      rw [hx] at h
      exact h

section Passes

variable (tensorIndex : TensorDataIndex)

def dataKey (entry : String × Nat) : Option (Nat × Nat) := tensorIndex.get? entry.1

def dataSize (entry : String × Nat) : Nat := ((tensorIndex.get? entry.1).map snd).getD 0

/-- The entries whose data comes for the first time. -/
def placed (l : List (String × Nat)) : List (String × Nat) := firstSeen (dataKey tensorIndex) l

def onDevice (l : List (String × Nat)) (device : Nat) : List (String × Nat) :=
    (placed tensorIndex l).filter fun e => e.2 = device

def startOn (l : List (String × Nat)) (device : Nat) (k : Option (Nat × Nat)) : Nat :=
  start (dataKey tensorIndex) (dataSize tensorIndex) (onDevice tensorIndex l device) k

def sizeOn (l : List (String × Nat)) (device : Nat) : Nat := total (dataSize tensorIndex) (onDevice tensorIndex l device)

def chunkOf (l : List (String × Nat)) (device : Nat) (entry : String × Nat) : CopyChunk :=
  ⟨((tensorIndex.get? entry.1).map fst).getD 0, dataSize tensorIndex entry,
    startOn tensorIndex l device (dataKey tensorIndex entry), 0⟩

variable {tensorIndex} {l : List (String × Nat)} {e : String × Nat}

theorem placed_concat_of_mem (h : dataKey tensorIndex e ∈ l.map (dataKey tensorIndex)) :
    placed tensorIndex (l ++ [e]) = placed tensorIndex l := by
  unfold placed
  rw [firstSeen_concat, add, if_pos ((keys_firstSeen l _).2 h)]

theorem placed_concat_of_not_mem (h : dataKey tensorIndex e ∉ l.map (dataKey tensorIndex)) :
    placed tensorIndex (l ++ [e]) = placed tensorIndex l ++ [e] := by
  unfold placed
  rw [firstSeen_concat, add, if_neg fun hk => h ((keys_firstSeen l _).1 hk)]

variable (tensorIndex) in
theorem exists_placed (h : e ∈ l) : ∃ f ∈ placed tensorIndex l, dataKey tensorIndex f = dataKey tensorIndex e := by
  have hk : dataKey tensorIndex e ∈ (placed tensorIndex l).map (dataKey tensorIndex) :=
    (keys_firstSeen l _).2 (mem_map_of_mem h)
  exact mem_map.1 hk

theorem placed_subset : placed tensorIndex l ⊆ l := firstSeen_subset l

theorem nodup_placed : ((placed tensorIndex l).map (dataKey tensorIndex)).Nodup := nodup_firstSeen l

variable (tensorIndex l) in
theorem nodup_onDevice (device : Nat) : ((onDevice tensorIndex l device).map (dataKey tensorIndex)).Nodup :=
  nodup_placed.sublist (List.Sublist.map _ filter_sublist)

variable {device : Nat}

theorem mem_onDevice : e ∈ onDevice tensorIndex l device ↔ e ∈ placed tensorIndex l ∧ e.2 = device := by
  unfold onDevice
  rw [mem_filter, decide_eq_true_iff]

theorem onDevice_concat_of_mem (h : dataKey tensorIndex e ∈ l.map (dataKey tensorIndex)) (device : Nat) :
    onDevice tensorIndex (l ++ [e]) device = onDevice tensorIndex l device := by
  unfold onDevice
  rw [placed_concat_of_mem h]

theorem onDevice_concat_self (h : dataKey tensorIndex e ∉ l.map (dataKey tensorIndex)) :
    onDevice tensorIndex (l ++ [e]) e.2 = onDevice tensorIndex l e.2 ++ [e] := by
  unfold onDevice
  rw [placed_concat_of_not_mem h, filter_append]
  simp

theorem onDevice_concat_of_ne (h : dataKey tensorIndex e ∉ l.map (dataKey tensorIndex))
    (hne : device ≠ e.2) : onDevice tensorIndex (l ++ [e]) device = onDevice tensorIndex l device := by
  unfold onDevice
  rw [placed_concat_of_not_mem h, filter_append]
  simp [Ne.symm hne]

theorem startOn_concat {f : String × Nat} (hf : f ∈ onDevice tensorIndex l device) :
    startOn tensorIndex (l ++ [e]) device (dataKey tensorIndex f) = startOn tensorIndex l device (dataKey tensorIndex f) := by
  unfold startOn
  by_cases hk : dataKey tensorIndex e ∈ l.map (dataKey tensorIndex)
  · rw [onDevice_concat_of_mem hk]
  · by_cases hd : device = e.2
    · subst hd
      rw [onDevice_concat_self hk]
      exact start_append_of_mem (mem_map_of_mem hf) _
    · rw [onDevice_concat_of_ne hk hd]

section

variable (h : dataKey tensorIndex e ∉ l.map (dataKey tensorIndex))

include h

theorem startOn_concat_self : startOn tensorIndex (l ++ [e]) e.2 (dataKey tensorIndex e) = sizeOn tensorIndex l e.2 := by
  unfold startOn sizeOn
  rw [onDevice_concat_self h]
  refine start_append_self ?_
  intro hk
  obtain ⟨f, hf, hfe⟩ := mem_map.1 hk
  exact h (hfe ▸ mem_map_of_mem (placed_subset (mem_onDevice.1 hf).1))

theorem sizeOn_concat_self : sizeOn tensorIndex (l ++ [e]) e.2 = sizeOn tensorIndex l e.2 + dataSize tensorIndex e := by
  unfold sizeOn
  rw [onDevice_concat_self h, total_append, total_cons, total_nil, Nat.add_zero]

theorem sizeOn_concat_of_ne (hne : device ≠ e.2) : sizeOn tensorIndex (l ++ [e]) device = sizeOn tensorIndex l device := by
  unfold sizeOn
  rw [onDevice_concat_of_ne h hne]

end

theorem sizeOn_concat_of_mem (h : dataKey tensorIndex e ∈ l.map (dataKey tensorIndex)) (device : Nat) :
    sizeOn tensorIndex (l ++ [e]) device = sizeOn tensorIndex l device := by
  unfold sizeOn
  rw [onDevice_concat_of_mem h]

theorem sizeOn_of_not_mem (h : device ∉ l.map snd) : sizeOn tensorIndex l device = 0 := by
  have hnil : onDevice tensorIndex l device = [] := by
    rw [eq_nil_iff_forall_not_mem]
    intro f hf
    rcases mem_onDevice.1 hf with ⟨hp, rfl⟩
    exact h (mem_map_of_mem (placed_subset hp))
  rw [sizeOn, hnil, total_nil]

theorem mem_devices_concat : device ∈ (l ++ [e]).map snd ↔ device ∈ l.map snd ∨ device = e.2 := by
  rw [map_append, mem_append, map_singleton, mem_singleton]

/-! ## The memory of the devices -/

variable (tensorIndex) in
/-- The variables of `calculate_device_memory` after the entries `l`. -/
structure MemoryVars.After (l : List (String × Nat)) (s : MemoryVars) : Prop where
  record : ∀ k, k ∈ s.tensorRecord.keys ↔ some k ∈ l.map (dataKey tensorIndex)
  memory : ∀ device, s.deviceMemory.get? device = if device ∈ l.map snd then some (sizeOn tensorIndex l device) else none

theorem MemoryVars.After.mem_keys {s : MemoryVars} (h : s.After tensorIndex l) {device : Nat} :
    device ∈ s.deviceMemory.keys ↔ device ∈ l.map snd := by
  rw [mem_keys_iff, h.memory]
  by_cases hd : device ∈ l.map snd
  · rw [if_pos hd]
    exact ⟨fun _ => hd, fun _ => ⟨_, rfl⟩⟩
  · rw [if_neg hd]
    refine ⟨?_, fun h => absurd h hd⟩
    rintro ⟨v, hv⟩
    cases hv

theorem MemoryVars.After.get?_open {s : MemoryVars} (h : s.After tensorIndex l) (new device : Nat) :
    (if new ∈ s.deviceMemory.keys then s.deviceMemory else s.deviceMemory.set new 0).get? device =
      if device ∈ l.map snd ∨ device = new then some (sizeOn tensorIndex l device) else none := by
  split
  · rename_i hnew
    rw [h.memory device]
    by_cases hd : device ∈ l.map snd
    · rw [if_pos hd, if_pos (.inl hd)]
    · have hne : device ≠ new := fun he => hd (he ▸ h.mem_keys.1 hnew)
      rw [if_neg hd, if_neg (not_or.2 ⟨hd, hne⟩)]
  · rename_i hnew
    have hnew : new ∉ l.map snd := fun hl => hnew (h.mem_keys.2 hl)
    rw [get?_set, h.memory device]
    by_cases hde : device = new
    · subst hde
      rw [if_pos rfl, if_pos (.inr rfl), sizeOn_of_not_mem hnew]
    · by_cases hd : device ∈ l.map snd
      · rw [if_neg hde, if_pos hd, if_pos (.inl hd)]
      · rw [if_neg hde, if_neg hd, if_neg (not_or.2 ⟨hd, hde⟩)]

theorem MemoryVars.After.step {s : MemoryVars} (h : s.After tensorIndex l) {v : Nat × Nat}
    (hv : tensorIndex.get? e.1 = some v) :
    ∃ s', memoryStep tensorIndex s e = .ok s' ∧ s'.After tensorIndex (l ++ [e]) := by
  obtain ⟨offset, size⟩ := v
  have hkey : dataKey tensorIndex e = some (offset, size) := hv
  have hsz : dataSize tensorIndex e = size := by simp [dataSize, hv]
  -- the memory after the lines that start a new device
  generalize hm : (if e.2 ∈ s.deviceMemory.keys then s.deviceMemory else s.deviceMemory.set e.2 0) = memory
  have hopen : ∀ device, memory.get? device =
      if device ∈ (l ++ [e]).map snd then some (sizeOn tensorIndex l device) else none := by
    intro device
    rw [← hm, h.get?_open]
    simp only [mem_devices_concat]
  unfold memoryStep
  simp only [hv, hm]
  by_cases hseen : (offset, size) ∈ s.tensorRecord.keys
  · have hk : dataKey tensorIndex e ∈ l.map (dataKey tensorIndex) := by
      rw [hkey]
      exact (h.record _).1 hseen
    refine ⟨_, by rw [if_pos hseen], ?_, ?_⟩
    · intro k
      rw [h.record, map_append, mem_append]
      refine ⟨.inl, ?_⟩
      rintro (hl | hl)
      · exact hl
      · rw [show some k = dataKey tensorIndex e by simpa using hl]
        exact hk
    · intro device
      rw [sizeOn_concat_of_mem hk]
      exact hopen device
  · have hk : dataKey tensorIndex e ∉ l.map (dataKey tensorIndex) := by
      rw [hkey]
      exact fun hl => hseen ((h.record _).2 hl)
    refine ⟨_, by rw [if_neg hseen], ?_, ?_⟩
    · intro k
      rw [mem_keys_set, h.record, map_append, mem_append, map_singleton, mem_singleton, hkey, Option.some.injEq, or_comm]
    · intro device
      rw [get?_set]
      by_cases hde : device = e.2
      · subst hde
        have he := mem_devices_concat.2 (.inr rfl : e.2 ∈ l.map snd ∨ e.2 = e.2)
        rw [if_pos rfl, hopen, if_pos he, if_pos he, sizeOn_concat_self hk, hsz, Option.getD_some]
      · rw [if_neg hde, hopen, sizeOn_concat_of_ne hk hde]

theorem foldlM_memoryStep (l : List (String × Nat)) (hidx : ∀ e ∈ l, e.1 ∈ tensorIndex.keys) :
    ∃ s, l.foldlM (memoryStep tensorIndex) ⟨.empty, .empty⟩ = .ok s ∧ s.After tensorIndex l := by
  induction l using List.reverseRecOn with
  | nil => exact ⟨_, rfl, ⟨by simp [Dict.keys], by simp⟩⟩
  | append_singleton l e ih =>
    obtain ⟨s, hs, haft⟩ := ih fun e' he' => hidx e' (mem_append_left _ he')
    obtain ⟨v, hv⟩ := mem_keys_iff.1 (hidx e (by simp))
    obtain ⟨s', hs', haft'⟩ := haft.step hv
    exact ⟨s', foldlM_concat_ok hs hs', haft'⟩

/-! ## The offsets and the chunks -/

/-- `tensor_device_offsets[device][tensor_name]`. -/
def offsetIn (offsets : Dict Nat (Dict String Nat)) (device : Nat) (tensorName : String) : Option Nat :=
  (offsets.get? device).bind fun o => o.get? tensorName

variable (tensorIndex) in
/-- The variables of `calculate_tensor_device_offsets` after the entries `l`. A tensor gets the place of the first one with its
data, on whatever device that is. -/
structure OffsetVars.After (l : List (String × Nat)) (s : OffsetVars) : Prop where
  devices : ∀ device, device ∈ s.tensorDeviceOffsets.keys ↔ device ∈ l.map snd
  chunkDevices : ∀ device, device ∈ s.tensorCopyChunks.keys → device ∈ l.map snd
  chunks : ∀ device, device ∈ l.map snd →
    s.tensorCopyChunks.get? device = some ((onDevice tensorIndex l device).map (chunkOf tensorIndex l device))
  ends : ∀ device, device ∈ l.map snd → s.deviceOffset.get? device = some (sizeOn tensorIndex l device)
  record : ∀ f ∈ placed tensorIndex l, ∀ k, dataKey tensorIndex f = some k →
    s.tensorRecord.get? k = some (startOn tensorIndex l f.2 (dataKey tensorIndex f))
  recorded : ∀ k, k ∈ s.tensorRecord.keys → some k ∈ l.map (dataKey tensorIndex)
  offsets : ∀ e ∈ l, ∀ f ∈ placed tensorIndex l, dataKey tensorIndex f = dataKey tensorIndex e →
    offsetIn s.tensorDeviceOffsets e.2 e.1 = some (startOn tensorIndex l f.2 (dataKey tensorIndex f))
  only : ∀ device tensorName, offsetIn s.tensorDeviceOffsets device tensorName ≠ none → (tensorName, device) ∈ l

theorem OffsetVars.After.opened {s : OffsetVars} (h : s.After tensorIndex l) (new : Nat) :
    (s.openDevice new).tensorRecord = s.tensorRecord ∧
      (∀ device, device ∈ (s.openDevice new).tensorDeviceOffsets.keys ↔ device ∈ l.map snd ∨ device = new) ∧
      (∀ device, device ∈ (s.openDevice new).tensorCopyChunks.keys → device ∈ l.map snd ∨ device = new) ∧
      (∀ device tensorName, offsetIn (s.openDevice new).tensorDeviceOffsets device tensorName =
        offsetIn s.tensorDeviceOffsets device tensorName) ∧
      (∀ device, device ∈ l.map snd ∨ device = new → (s.openDevice new).tensorCopyChunks.get? device =
        some ((onDevice tensorIndex l device).map (chunkOf tensorIndex l device))) ∧
      ∀ device, device ∈ l.map snd ∨ device = new →
        (s.openDevice new).deviceOffset.get? device = some (sizeOn tensorIndex l device) := by
  unfold openDevice
  by_cases hnew : new ∈ s.tensorDeviceOffsets.keys
  · have hin : ∀ device, device ∈ l.map snd ∨ device = new → device ∈ l.map snd := by
      rintro device (hd | rfl)
      · exact hd
      · exact (h.devices _).1 hnew
    rw [if_pos hnew]
    refine ⟨rfl, ?_, fun device hd => .inl (h.chunkDevices device hd), fun _ _ => rfl,
      fun device hd => h.chunks device (hin device hd), fun device hd => h.ends device (hin device hd)⟩
    intro device
    rw [h.devices]
    exact ⟨.inl, hin device⟩
  · have hout : new ∉ l.map snd := fun hl => hnew ((h.devices _).2 hl)
    have hnil : onDevice tensorIndex l new = [] := by
      rw [eq_nil_iff_forall_not_mem]
      intro f hf
      rcases mem_onDevice.1 hf with ⟨hp, rfl⟩
      exact hout (mem_map_of_mem (placed_subset hp))
    rw [if_neg hnew]
    refine ⟨rfl, ?_, ?_, ?_, ?_, ?_⟩
    · intro device
      rw [mem_keys_set, h.devices, or_comm]
    · intro device hd
      exact (mem_keys_set.1 hd).symm.imp_left (h.chunkDevices device)
    · intro device tensorName
      unfold offsetIn
      rw [get?_set]
      by_cases hd : device = new
      · subst hd
        rw [if_pos rfl, get?_eq_none_iff.2 hnew]
        rfl
      · rw [if_neg hd]
    · intro device hdev
      rw [get?_set]
      by_cases hd : device = new
      · subst hd
        rw [if_pos rfl, hnil]
        rfl
      · rw [if_neg hd]
        exact h.chunks device (hdev.resolve_right hd)
    · intro device hdev
      rw [get?_set]
      by_cases hd : device = new
      · subst hd
        rw [if_pos rfl, sizeOn_of_not_mem hout]
      · rw [if_neg hd]
        exact h.ends device (hdev.resolve_right hd)

theorem offsetIn_setOffset (s : OffsetVars) (device : Nat) (tensorName : String) (o device' : Nat) (tensorName' : String) :
    offsetIn (s.setOffset device tensorName o).tensorDeviceOffsets device' tensorName' =
      if device' = device ∧ tensorName' = tensorName then some o
      else offsetIn s.tensorDeviceOffsets device' tensorName' := by
  unfold offsetIn setOffset
  rw [get?_set]
  by_cases hd : device' = device
  · subst hd
    rw [if_pos rfl, Option.bind_some, get?_set]
    by_cases hn : tensorName' = tensorName
    · rw [if_pos hn, if_pos ⟨rfl, hn⟩]
    · rw [if_neg hn, if_neg fun h => hn h.2]
      cases s.tensorDeviceOffsets.get? device' with
      | none => rfl
      | some o => rfl
  · rw [if_neg hd, if_neg fun h => hd h.1]

theorem chunks_concat_of_same {device : Nat} (h : onDevice tensorIndex (l ++ [e]) device = onDevice tensorIndex l device) :
    (onDevice tensorIndex (l ++ [e]) device).map (chunkOf tensorIndex (l ++ [e]) device) =
      (onDevice tensorIndex l device).map (chunkOf tensorIndex l device) := by
  rw [h]
  refine map_congr_left ?_
  intro f hf
  rw [chunkOf, startOn_concat hf, chunkOf]

theorem chunks_concat_self (h : dataKey tensorIndex e ∉ l.map (dataKey tensorIndex)) :
    (onDevice tensorIndex (l ++ [e]) e.2).map (chunkOf tensorIndex (l ++ [e]) e.2) =
      (onDevice tensorIndex l e.2).map (chunkOf tensorIndex l e.2) ++
        [⟨((tensorIndex.get? e.1).map fst).getD 0, dataSize tensorIndex e, sizeOn tensorIndex l e.2, 0⟩] := by
  rw [onDevice_concat_self h, map_append, map_singleton]
  congr 1
  · refine map_congr_left ?_
    intro f hf
    rw [chunkOf, startOn_concat hf, chunkOf]
  · rw [chunkOf, startOn_concat_self h]

theorem OffsetVars.After.step_seen {s : OffsetVars} (h : s.After tensorIndex l) {k : Nat × Nat}
    (hk : dataKey tensorIndex e = some k) (hseen : dataKey tensorIndex e ∈ l.map (dataKey tensorIndex)) :
    ∃ s', offsetStep tensorIndex s e = .ok s' ∧ s'.After tensorIndex (l ++ [e]) := by
  obtain ⟨hrec, hdvs, hchunkDevices, hofs, hchs, hends⟩ := h.opened e.2
  obtain ⟨e₀, he₀, hke₀⟩ := mem_map.1 hseen
  obtain ⟨f, hf, hkf⟩ := exists_placed tensorIndex he₀
  have hkf : dataKey tensorIndex f = dataKey tensorIndex e := hkf.trans hke₀
  have hrecorded : s.tensorRecord.get? k = some (startOn tensorIndex l f.2 (dataKey tensorIndex f)) :=
    h.record f hf k (hkf.trans hk)
  have hpla := placed_concat_of_mem hseen
  have hstart : ∀ g ∈ placed tensorIndex l, startOn tensorIndex (l ++ [e]) g.2 (dataKey tensorIndex g) =
      startOn tensorIndex l g.2 (dataKey tensorIndex g) := fun g hg => startOn_concat (mem_onDevice.2 ⟨hg, rfl⟩)
  refine ⟨(s.openDevice e.2).setOffset e.2 e.1 (startOn tensorIndex l f.2 (dataKey tensorIndex f)), ?_, ?_⟩
  · have hget : tensorIndex.get? e.1 = some k := hk
    simp only [offsetStep, hget, hrec, hrecorded]
  constructor
  case devices =>
    intro device
    have hset : ((s.openDevice e.2).setOffset e.2 e.1
      (startOn tensorIndex l f.2 (dataKey tensorIndex f))).tensorDeviceOffsets.keys =
        _ := keys_set _ _ _
    rw [hset, if_pos ((hdvs e.2).2 (.inr rfl)), hdvs, mem_devices_concat]
  case chunkDevices =>
    intro device hd
    exact mem_devices_concat.2 (hchunkDevices device hd)
  case chunks =>
    intro device hd
    rw [chunks_concat_of_same (onDevice_concat_of_mem hseen device)]
    exact hchs device (mem_devices_concat.1 hd)
  case ends =>
    intro device hd
    rw [sizeOn_concat_of_mem hseen]
    exact hends device (mem_devices_concat.1 hd)
  case record =>
    intro g hg k' hk'
    rw [hpla] at hg
    rw [hstart g hg]
    exact (congrArg (fun r => r.get? k') hrec).trans (h.record g hg k' hk')
  case recorded =>
    intro k' hk'
    have hmem := h.recorded k' (hrec ▸ hk')
    rw [map_append]
    exact mem_append_left _ hmem
  case offsets =>
    intro e' he' g hg hge
    rw [hpla] at hg
    rw [hstart g hg, offsetIn_setOffset]
    by_cases hsa : e'.2 = e.2 ∧ e'.1 = e.1
    · -- the place that was recorded for the data is that of `g`
      obtain rfl : e' = e := Prod.ext hsa.2 hsa.1
      have hgf : g = f := inj_on_of_nodup_map nodup_placed hg hf (hge.trans hkf.symm)
      rw [if_pos hsa, hgf]
    · rw [if_neg hsa, hofs]
      have hl : e' ∈ l := by
        rcases mem_append.1 he' with hl | hl
        · exact hl
        · rw [mem_singleton] at hl
          exact absurd ⟨congrArg snd hl, congrArg fst hl⟩ hsa
      exact h.offsets e' hl g hg hge
  case only =>
    intro device tensorName ho
    rw [offsetIn_setOffset] at ho
    by_cases hsa : device = e.2 ∧ tensorName = e.1
    · rw [hsa.1, hsa.2]
      simp
    · rw [if_neg hsa, hofs] at ho
      exact mem_append_left _ (h.only device tensorName ho)

theorem OffsetVars.After.step_new {s : OffsetVars} (h : s.After tensorIndex l) {k : Nat × Nat}
    (hk : dataKey tensorIndex e = some k) (hnew : dataKey tensorIndex e ∉ l.map (dataKey tensorIndex)) :
    ∃ s', offsetStep tensorIndex s e = .ok s' ∧ s'.After tensorIndex (l ++ [e]) := by
  obtain ⟨hrec, hdvs, hchunkDevices, hofs, hchs, hends⟩ := h.opened e.2
  have hpla := placed_concat_of_not_mem hnew
  have hself := startOn_concat_self hnew
  have hstart : ∀ g ∈ placed tensorIndex l, startOn tensorIndex (l ++ [e]) g.2 (dataKey tensorIndex g) =
      startOn tensorIndex l g.2 (dataKey tensorIndex g) := fun g hg => startOn_concat (mem_onDevice.2 ⟨hg, rfl⟩)
  have hget : tensorIndex.get? e.1 = some k := hk
  have hfst : ((tensorIndex.get? e.1).map fst).getD 0 = k.1 := by rw [hget]; rfl
  have hsz : dataSize tensorIndex e = k.2 := by rw [dataSize, hget]; rfl
  have hno : s.tensorRecord.get? k = none := by
    rw [get?_eq_none_iff]
    intro hk'
    exact hnew (hk ▸ h.recorded k hk')
  refine ⟨{ (s.openDevice e.2).setOffset e.2 e.1 (sizeOn tensorIndex l e.2) with
    tensorRecord := s.tensorRecord.set k (sizeOn tensorIndex l e.2)
    tensorCopyChunks := (s.openDevice e.2).tensorCopyChunks.set e.2
      ((onDevice tensorIndex l e.2).map (chunkOf tensorIndex l e.2) ++ [⟨k.1, k.2, sizeOn tensorIndex l e.2, 0⟩])
    deviceOffset := (s.openDevice e.2).deviceOffset.set e.2 (sizeOn tensorIndex l e.2 + k.2) }, ?_, ?_⟩
  · simp only [offsetStep, hget, hrec, hno, hends e.2 (.inr rfl), hchs e.2 (.inr rfl), Option.getD_some]
  constructor
  case devices =>
    intro device
    have hset : ((s.openDevice e.2).setOffset e.2 e.1 (sizeOn tensorIndex l e.2)).tensorDeviceOffsets.keys = _ :=
      keys_set _ _ _
    rw [hset, if_pos ((hdvs e.2).2 (.inr rfl)), hdvs, mem_devices_concat]
  case chunkDevices =>
    intro device hd
    rcases mem_keys_set.1 hd with hde | hd
    · exact mem_devices_concat.2 (.inr hde)
    · exact mem_devices_concat.2 (hchunkDevices device hd)
  case chunks =>
    intro device hd
    rw [get?_set]
    by_cases hde : device = e.2
    · subst hde
      rw [if_pos rfl, chunks_concat_self hnew, hfst, hsz]
    · rw [if_neg hde, chunks_concat_of_same (onDevice_concat_of_ne hnew hde)]
      exact hchs device (mem_devices_concat.1 hd)
  case ends =>
    intro device hd
    rw [get?_set]
    by_cases hde : device = e.2
    · subst hde
      rw [if_pos rfl, sizeOn_concat_self hnew, hsz]
    · rw [if_neg hde, sizeOn_concat_of_ne hnew hde]
      exact hends device (mem_devices_concat.1 hd)
  case record =>
    intro g hg k' hk'
    rw [hpla] at hg
    rw [get?_set]
    rcases mem_append.1 hg with hg | hg
    · have hne : k' ≠ k := by
        rintro rfl
        exact hnew ((hk'.trans hk.symm) ▸ mem_map_of_mem (placed_subset hg))
      rw [if_neg hne, hstart g hg]
      exact h.record g hg k' hk'
    · rw [mem_singleton] at hg
      subst hg
      obtain rfl := Option.some.inj (hk'.symm.trans hk)
      rw [if_pos rfl, hself]
  case recorded =>
    intro k' hk'
    rw [map_append, mem_append]
    rcases mem_keys_set.1 hk' with rfl | hk'
    · exact .inr (by rw [map_singleton, mem_singleton, hk])
    · exact .inl (h.recorded k' hk')
  case offsets =>
    intro e' he' g hg hge
    rw [hpla] at hg
    rw [offsetIn_setOffset]
    by_cases hsa : e'.2 = e.2 ∧ e'.1 = e.1
    · obtain rfl : e' = e := Prod.ext hsa.2 hsa.1
      rw [if_pos hsa]
      rcases mem_append.1 hg with hg | hg
      · exact absurd (hge ▸ mem_map_of_mem (placed_subset hg)) hnew
      · rw [mem_singleton] at hg
        rw [hg, hself]
    · rw [if_neg hsa, hofs]
      have hl : e' ∈ l := by
        rcases mem_append.1 he' with hl | hl
        · exact hl
        · rw [mem_singleton] at hl
          exact absurd ⟨congrArg snd hl, congrArg fst hl⟩ hsa
      rcases mem_append.1 hg with hg | hg
      · rw [hstart g hg]
        exact h.offsets e' hl g hg hge
      · rw [mem_singleton] at hg
        subst hg
        exact absurd (hge ▸ mem_map_of_mem hl) hnew
  case only =>
    intro device tensorName ho
    rw [offsetIn_setOffset] at ho
    by_cases hsa : device = e.2 ∧ tensorName = e.1
    · rw [hsa.1, hsa.2]
      simp
    · rw [if_neg hsa, hofs] at ho
      exact mem_append_left _ (h.only device tensorName ho)

theorem foldlM_offsetStep (l : List (String × Nat)) (hidx : ∀ e ∈ l, e.1 ∈ tensorIndex.keys) :
    ∃ s, l.foldlM (offsetStep tensorIndex) ⟨.empty, .empty, .empty, .empty⟩ = .ok s ∧ s.After tensorIndex l := by
  induction l using List.reverseRecOn with
  | nil =>
    refine ⟨_, rfl, ?_⟩
    constructor <;> simp [Dict.keys, placed, firstSeen, offsetIn]
  | append_singleton l e ih =>
    obtain ⟨s, hs, haft⟩ := ih fun e' he' => hidx e' (mem_append_left _ he')
    obtain ⟨k, hk⟩ := mem_keys_iff.1 (hidx e (by simp))
    by_cases hseen : dataKey tensorIndex e ∈ l.map (dataKey tensorIndex)
    · obtain ⟨s', hs', haft'⟩ := haft.step_seen hk hseen
      exact ⟨s', foldlM_concat_ok hs hs', haft'⟩
    · obtain ⟨s', hs', haft'⟩ := haft.step_new hk hseen
      exact ⟨s', foldlM_concat_ok hs hs', haft'⟩

end Passes

theorem plan_spec (deviceMap : DeviceMap) (tensorIndex : TensorDataIndex)
    (hidx : ∀ name ∈ deviceMap.keys, name ∈ tensorIndex.keys) :
    ∃ (s : MemoryVars) (t : OffsetVars), calculateDeviceMemory deviceMap tensorIndex = .ok s.deviceMemory ∧
      calculateTensorDeviceOffsets deviceMap tensorIndex = .ok (t.tensorDeviceOffsets, t.tensorCopyChunks) ∧
      s.After tensorIndex deviceMap.entries ∧ t.After tensorIndex deviceMap.entries := by
  have hidx' : ∀ e ∈ deviceMap.entries, e.1 ∈ tensorIndex.keys := fun e he => hidx e.1 (mem_map_of_mem he)
  obtain ⟨s, hs, hmem⟩ := foldlM_memoryStep deviceMap.entries hidx'
  obtain ⟨t, ht, hoff⟩ := foldlM_offsetStep deviceMap.entries hidx'
  refine ⟨s, t, ?_, ?_, hmem, hoff⟩
  · rw [calculateDeviceMemory, hs]
    rfl
  · rw [calculateTensorDeviceOffsets, ht]
    rfl

/-! ## Layouts -/

/-- The ranges that two chunks write do not overlap. -/
def CopyChunk.Apart (c c' : CopyChunk) : Prop :=
  c.dstOffset + c.size ≤ c'.dstOffset ∨ c'.dstOffset + c'.size ≤ c.dstOffset

/-- What a plan has to satisfy. -/
structure DeviceLayout (deviceMap : DeviceMap) (tensorIndex : TensorDataIndex) (deviceMemory : Dict Nat Nat)
    (tensorDeviceOffsets : Dict Nat (Dict String Nat)) (tensorCopyChunks : Dict Nat (List CopyChunk)) : Prop where
  /-- Every tensor has a range within the memory of its device, and a chunk copies its data there. -/
  tensor : ∀ name device, (name, device) ∈ deviceMap.entries → ∀ offset size, tensorIndex.get? name = some (offset, size) →
    ∃ o memory chunks, offsetIn tensorDeviceOffsets device name = some o ∧ deviceMemory.get? device = some memory ∧
      tensorCopyChunks.get? device = some chunks ∧ o + size ≤ memory ∧
      ∃ c ∈ chunks, c.srcOffset = offset ∧ c.size = size ∧ c.dstOffset = o
  /-- The chunks of a device do not overlap, and their sizes are the memory of the device. -/
  chunks : ∀ device chunks, tensorCopyChunks.get? device = some chunks →
    chunks.Pairwise Apart ∧ deviceMemory.get? device = some (chunks.map size).sum

def TiedTogether (deviceMap : DeviceMap) (tensorIndex : TensorDataIndex) : Prop :=
  ∀ e ∈ deviceMap.entries, ∀ e' ∈ deviceMap.entries, tensorIndex.get? e.1 = tensorIndex.get? e'.1 → e.2 = e'.2

section Chunks

variable {tensorIndex : TensorDataIndex} {l : List (String × Nat)}

theorem chunks_apart (device : Nat) :
    ((onDevice tensorIndex l device).map (chunkOf tensorIndex l device)).Pairwise Apart := by
  rw [pairwise_map]
  have hnd := nodup_onDevice tensorIndex l device
  rw [List.Nodup, pairwise_map] at hnd
  refine hnd.imp_of_mem ?_
  intro e f he hf hne
  exact start_apart (nodup_onDevice tensorIndex l device) he hf hne

theorem sum_chunks (device : Nat) :
    (((onDevice tensorIndex l device).map (chunkOf tensorIndex l device)).map size).sum =
      sizeOn tensorIndex l device := by
  rw [map_map]
  rfl

theorem startOn_add_le {f : String × Nat} {device : Nat} (hf : f ∈ onDevice tensorIndex l device) :
    startOn tensorIndex l device (dataKey tensorIndex f) + dataSize tensorIndex f ≤ sizeOn tensorIndex l device :=
  start_add_width_le (nodup_onDevice tensorIndex l device) hf

end Chunks

theorem deviceLayout_of_tied {deviceMap : DeviceMap} {tensorIndex : TensorDataIndex} {s : MemoryVars} {t : OffsetVars}
    (hmem : s.After tensorIndex deviceMap.entries) (hoff : t.After tensorIndex deviceMap.entries)
    (h : TiedTogether deviceMap tensorIndex) :
    DeviceLayout deviceMap tensorIndex s.deviceMemory t.tensorDeviceOffsets t.tensorCopyChunks := by
  constructor
  case tensor =>
    intro name device he offset size hk
    have hdev : device ∈ deviceMap.entries.map snd := mem_map_of_mem (f := snd) he
    obtain ⟨f, hf, hfe⟩ := exists_placed tensorIndex he
    obtain rfl : f.2 = device := h f (placed_subset hf) _ he hfe
    have hfon : f ∈ onDevice tensorIndex deviceMap.entries f.2 := mem_onDevice.2 ⟨hf, rfl⟩
    have hfk : tensorIndex.get? f.1 = some (offset, size) := hfe.trans hk
    have hfsize : dataSize tensorIndex f = size := by
      rw [dataSize, hfk]
      rfl
    have hend := startOn_add_le hfon
    rw [hfsize] at hend
    refine ⟨_, _, _, hoff.offsets _ he f hf hfe, ?_, hoff.chunks f.2 hdev, hend, _, mem_map_of_mem hfon, ?_, hfsize, rfl⟩
    · rw [hmem.memory, if_pos hdev]
    · rw [chunkOf, hfk]
      rfl
  case chunks =>
    intro device chunks hchs
    have hdev := hoff.chunkDevices device (mem_keys_iff.2 ⟨chunks, hchs⟩)
    rw [hoff.chunks device hdev] at hchs
    obtain rfl := Option.some.inj hchs
    refine ⟨chunks_apart device, ?_⟩
    rw [hmem.memory, if_pos hdev, sum_chunks]

instance (deviceMap : DeviceMap) (tensorIndex : TensorDataIndex) : Decidable (TiedTogether deviceMap tensorIndex) :=
  inferInstanceAs (Decidable (∀ e ∈ deviceMap.entries, ∀ e' ∈ deviceMap.entries, _ → _))

theorem eq_of_chunk {tensorIndex : TensorDataIndex} {l : List (String × Nat)} {e f g : String × Nat} {device offset size : Nat}
    (he : dataKey tensorIndex e = some (offset, size))
    (hf : f ∈ placed tensorIndex l) (hfe : dataKey tensorIndex f = dataKey tensorIndex e)
    (hg : g ∈ onDevice tensorIndex l device) (hgi : g.1 ∈ tensorIndex.keys)
    (hsrc : (chunkOf tensorIndex l device g).srcOffset = offset) (hsz : (chunkOf tensorIndex l device g).size = size) :
    g = f := by
  obtain ⟨k, hk⟩ := mem_keys_iff.1 hgi
  have hgk : dataKey tensorIndex g = some k := hk
  refine inj_on_of_nodup_map nodup_placed (mem_onDevice.1 hg).1 hf ?_
  rw [hfe, he, hgk]
  simp only [chunkOf, dataSize, hk, Option.map_some, Option.getD_some] at hsrc hsz
  rw [← hsrc, ← hsz]

/-- For every device map whose tensors are in the index, both functions return, and what they return is a layout exactly when
tensors with the same data are on one device. -/
theorem deviceLayout_iff (deviceMap : DeviceMap) (tensorIndex : TensorDataIndex)
    (hidx : ∀ name ∈ deviceMap.keys, name ∈ tensorIndex.keys) :
    ∃ deviceMemory tensorDeviceOffsets tensorCopyChunks,
      calculateDeviceMemory deviceMap tensorIndex = .ok deviceMemory ∧
      calculateTensorDeviceOffsets deviceMap tensorIndex = .ok (tensorDeviceOffsets, tensorCopyChunks) ∧
      (DeviceLayout deviceMap tensorIndex deviceMemory tensorDeviceOffsets tensorCopyChunks ↔
        TiedTogether deviceMap tensorIndex) := by
  obtain ⟨s, t, hs, ht, hmem, hoff⟩ := plan_spec deviceMap tensorIndex hidx
  refine ⟨s.deviceMemory, t.tensorDeviceOffsets, t.tensorCopyChunks, hs, ht, ?_, deviceLayout_of_tied hmem hoff⟩
  have hidx' : ∀ e ∈ deviceMap.entries, e.1 ∈ tensorIndex.keys := fun e he => hidx e.1 (mem_map_of_mem he)
  intro h
  -- the data of a tensor has its chunk on the device of the entry that was placed for it
  have hdev : ∀ e ∈ deviceMap.entries, ∀ f ∈ placed tensorIndex deviceMap.entries,
      dataKey tensorIndex f = dataKey tensorIndex e → e.2 = f.2 := by
    intro e he f hf hfe
    obtain ⟨⟨offset, size⟩, hk⟩ := mem_keys_iff.1 (hidx' e he)
    obtain ⟨o, memory, chunks, -, -, hchs, -, c, hc, hsrc, hsz, -⟩ := h.tensor e.1 e.2 he offset size hk
    rw [hoff.chunks e.2 (mem_map_of_mem he)] at hchs
    obtain rfl := Option.some.inj hchs
    obtain ⟨g, hg, rfl⟩ := mem_map.1 hc
    obtain ⟨hgp, hgd⟩ := mem_onDevice.1 hg
    rw [← eq_of_chunk hk hf hfe hg (hidx' g (placed_subset hgp)) hsrc hsz, hgd]
  intro e he e' he' hkey
  obtain ⟨f, hf, hfe⟩ := exists_placed tensorIndex he
  rw [hdev e he f hf hfe, hdev e' he' f hf (hfe.trans hkey)]

/-- Two tensors with the same data on the first device, and another tensor on the second. -/
def tiedMap : DeviceMap := ⟨[("embed", 0), ("head", 0), ("norm", 1)], by decide⟩

/-- The same tensors, with the data of the first one on both devices. -/
def splitMap : DeviceMap := ⟨[("embed", 0), ("norm", 0), ("head", 1)], by decide⟩

def tiedIndex : TensorDataIndex := ⟨[("embed", (0, 16)), ("norm", (16, 8)), ("head", (0, 16))], by decide⟩

theorem deviceLayout_tiedMap : TiedTogether tiedMap tiedIndex ∧
    ∃ deviceMemory tensorDeviceOffsets tensorCopyChunks,
      calculateDeviceMemory tiedMap tiedIndex = .ok deviceMemory ∧
      calculateTensorDeviceOffsets tiedMap tiedIndex = .ok (tensorDeviceOffsets, tensorCopyChunks) ∧
      DeviceLayout tiedMap tiedIndex deviceMemory tensorDeviceOffsets tensorCopyChunks := by
  have htied : TiedTogether tiedMap tiedIndex := by decide
  obtain ⟨m, o, c, hm, ho, h⟩ := deviceLayout_iff tiedMap tiedIndex (by decide)
  exact ⟨htied, m, o, c, hm, ho, h.2 htied⟩

/-- The second device has no memory and no chunk for the tensor that it has to hold. -/
theorem tied_across_devices :
    (∀ name ∈ splitMap.keys, name ∈ tiedIndex.keys) ∧
      ∃ deviceMemory tensorDeviceOffsets tensorCopyChunks,
        calculateDeviceMemory splitMap tiedIndex = .ok deviceMemory ∧
        calculateTensorDeviceOffsets splitMap tiedIndex = .ok (tensorDeviceOffsets, tensorCopyChunks) ∧
        deviceMemory.get? 1 = some 0 ∧ tensorCopyChunks.get? 1 = some [] ∧
        ¬DeviceLayout splitMap tiedIndex deviceMemory tensorDeviceOffsets tensorCopyChunks := by
  refine ⟨by decide, _, _, _, rfl, rfl, by decide, by decide, ?_⟩
  intro h
  obtain ⟨o, memory, chunks, -, hmry, -, hend, -⟩ := h.tensor "head" 1 (by decide) 0 16 (by decide)
  obtain rfl : 0 = memory := Option.some.inj ((by decide : some 0 = _).trans hmry)
  omega

end ServerlessLLM
