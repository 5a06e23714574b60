import ServerlessLLM.Checkpoint.Theorems.GroupIndex
import ServerlessLLM.Checkpoint.Theorems.Placement
import ServerlessLLM.Checkpoint.Restore

/-!
# The round trip of a state dict

The index has the storage of a tensor but not its storage offset, so a tensor is restored as the view that starts at the first
element of its storage.
-/

namespace ServerlessLLM

open Bytes List Option Dict Except Prod

/-! ## The copies -/

section Copies

variable (data : List UInt8) (base : Nat)

theorem length_chunkData (c : CopyChunk) : ((data.drop c.srcOffset).take c.size).length ≤ c.size := by
  rw [length_take]
  exact Nat.min_le_left _ _

theorem read_copyChunks_apart {chunks : List CopyChunk} {c : CopyChunk} (h : ∀ c' ∈ chunks, c.Apart c') (gpu : Nat → UInt8) :
    read (copyChunks data base chunks gpu) (base + c.dstOffset) c.size = read gpu (base + c.dstOffset) c.size := by
  induction chunks generalizing gpu with
  | nil => rfl
  | cons c' chunks ih =>
    have hap := h c' mem_cons_self
    have hlen := length_chunkData data c'
    refine (ih (fun d hd => h d (mem_cons_of_mem _ hd)) _).trans (read_copyIn_apart gpu ?_)
    unfold CopyChunk.Apart at hap
    omega

theorem read_copyChunks {chunks : List CopyChunk} (hap : chunks.Pairwise CopyChunk.Apart) {c : CopyChunk} (hc : c ∈ chunks)
    (hdata : ((data.drop c.srcOffset).take c.size).length = c.size) (gpu : Nat → UInt8) :
    read (copyChunks data base chunks gpu) (base + c.dstOffset) c.size = (data.drop c.srcOffset).take c.size := by
  induction chunks generalizing gpu with
  | nil => cases hc
  | cons c' chunks ih =>
    rw [pairwise_cons] at hap
    rcases mem_cons.1 hc with rfl | hc
    · refine (read_copyChunks_apart data base hap.1 _).trans ?_
      conv_lhs => rw [← hdata]
      exact read_copyIn_self gpu _ _
    · exact ih hap.2 hc _

end Copies

/-! ## The tensors -/

theorem stringToScalarType_str (t : DType) :
    stringToScalarType t.str = if t.Known then .ok t else .error ("Unknown dtype string: " ++ t.str) := by
  have hlu : DType.dtypeMap.lookup t.str = if t.Known then some t else none := by
    cases t <;> decide
  rw [stringToScalarType, hlu]
  by_cases ht : t.Known
  · rw [if_pos ht, if_pos ht]
  · rw [if_neg ht, if_neg ht]

section Tensors

variable (metaStateDict : Dict String (List Nat × List Nat × String)) (memoryBaseAddress : Dict Nat Nat)

def IsBlob (item : Nat × String × Nat) (t : BlobTensor) : Prop :=
  ∃ base typeStr, memoryBaseAddress.get? item.1 = some base ∧
    metaStateDict.get? item.2.1 = some (t.sizes, t.strides, typeStr) ∧ stringToScalarType typeStr = .ok t.dtype ∧
    t.addr = base + item.2.2 ∧ t.device = item.1

variable {metaStateDict memoryBaseAddress} {s s' : Dict String BlobTensor × List Nat} {item : Nat × String × Nat}

theorem restoreStep_inv (h : restoreStep metaStateDict memoryBaseAddress s item = .ok s') :
    ∃ t, IsBlob metaStateDict memoryBaseAddress item t ∧ s'.1 = s.1.set item.2.1 t := by
  unfold restoreStep at h
  cases hba : memoryBaseAddress.get? item.1 with
  | none =>
    simp only [hba] at h
    cases h
  | some base =>
    cases hmeta : metaStateDict.get? item.2.1 with
    | none =>
      simp only [hba, hmeta] at h
      cases h
    | some m =>
      obtain ⟨sizes, strides, typeStr⟩ := m
      cases htype : stringToScalarType typeStr with
      | error e =>
        simp only [hba, hmeta, htype] at h
        cases h
      | ok dtype =>
        simp only [hba, hmeta, htype, bind, bind] at h
        split at h
        · cases h
          exact ⟨_, ⟨base, typeStr, hba, hmeta, htype, rfl, rfl⟩, rfl⟩
        · cases h
          exact ⟨_, ⟨base, typeStr, hba, hmeta, htype, rfl, rfl⟩, rfl⟩

theorem restoreStep_ok {t : BlobTensor} (h : IsBlob metaStateDict memoryBaseAddress item t)
    (s : Dict String BlobTensor × List Nat) : ∃ s', restoreStep metaStateDict memoryBaseAddress s item = .ok s' := by
  obtain ⟨base, typeStr, hba, hmeta, htype, -⟩ := h
  unfold restoreStep
  simp only [hba, hmeta, htype, bind, bind]
  split
  · exact ⟨_, rfl⟩
  · exact ⟨_, rfl⟩

theorem foldlM_restoreStep_ok {l : List (Nat × String × Nat)}
    (h : ∀ item ∈ l, ∃ t, IsBlob metaStateDict memoryBaseAddress item t) :
    ∃ s, l.foldlM (restoreStep metaStateDict memoryBaseAddress) (.empty, []) = .ok s := by
  induction l using reverseRecOn with
  | nil => exact ⟨_, rfl⟩
  | append_singleton l item ih =>
    obtain ⟨s, hs⟩ := ih fun i hi => h i (mem_append_left _ hi)
    obtain ⟨t, ht⟩ := h item (by simp)
    obtain ⟨s', hs'⟩ := restoreStep_ok ht s
    exact ⟨s', foldlM_concat_ok hs hs'⟩

theorem foldlM_restoreStep_inv {l : List (Nat × String × Nat)} {s : Dict String BlobTensor × List Nat}
    (h : l.foldlM (restoreStep metaStateDict memoryBaseAddress) (.empty, []) = .ok s) :
    (∀ item ∈ l, ∃ t, IsBlob metaStateDict memoryBaseAddress item t) ∧
      ∀ item ∈ l, ∃ i ∈ l, i.2.1 = item.2.1 ∧ ∃ t, IsBlob metaStateDict memoryBaseAddress i t ∧ s.1.get? item.2.1 = some t := by
  induction l using reverseRecOn generalizing s with
  | nil => simp
  | append_singleton l item ih =>
    obtain ⟨s₁, hs₁, hitem⟩ := foldlM_concat_inv h
    obtain ⟨hblobs, hnms⟩ := ih hs₁
    obtain ⟨t, ht, hset⟩ := restoreStep_inv hitem
    constructor
    · intro i hi
      rcases mem_append.1 hi with hi | hi
      · exact hblobs i hi
      · rw [mem_singleton] at hi
        subst hi
        exact ⟨t, ht⟩
    · intro i hi
      rw [hset, get?_set]
      by_cases hnm : i.2.1 = item.2.1
      · exact ⟨item, by simp, hnm.symm, t, ht, by rw [if_pos hnm]⟩
      · rcases mem_append.1 hi with hi | hi
        · obtain ⟨j, hj, hji, t', ht', hget⟩ := hnms i hi
          exact ⟨j, mem_append_left _ hj, hji, t', ht', by rw [if_neg hnm, hget]⟩
        · rw [mem_singleton] at hi
          exact absurd (congrArg (fun i => i.2.1) hi) hnm

theorem mem_restoreItems {offsets : Dict Nat (Dict String Nat)} :
    item ∈ restoreItems offsets ↔ offsetIn offsets item.1 item.2.1 = some item.2.2 := by
  obtain ⟨device, name, o⟩ := item
  unfold restoreItems offsetIn
  rw [mem_flatMap, bind_eq_some_iff]
  constructor
  · rintro ⟨⟨d, m⟩, hd, he⟩
    obtain ⟨⟨n, o'⟩, hn, heq⟩ := mem_map.1 he
    obtain ⟨rfl, rfl, rfl⟩ : d = device ∧ n = name ∧ o' = o := by simpa using heq
    exact ⟨m, mem_entries_iff.1 hd, mem_entries_iff.1 hn⟩
  · rintro ⟨m, hm, ho⟩
    exact ⟨(device, m), mem_entries_iff.2 hm, mem_map.2 ⟨(name, o), mem_entries_iff.2 ho, rfl⟩⟩

end Tensors

/-! ## The whole way -/

theorem ViewDict.param_mem {sd : ViewDict} {v : TensorView} (hv : v ∈ sd.views) : v.param ∈ sd.toStateDict.params :=
  mem_map_of_mem hv

/-- The names before the first one with the storage of a view have other storages. -/
theorem ViewDict.first_with_storage (sd : ViewDict) {v : TensorView} (hv : v ∈ sd.views) :
    ∃ front name rest, sd.toStateDict.names = front ++ name :: rest ∧
      sd.toStateDict.tensorDataIndex name = (v.dataPtr, v.size) ∧
      ∀ n ∈ front, ∃ w ∈ sd.views, sd.toStateDict.tensorDataIndex n = (w.dataPtr, w.size) ∧ w.dataPtr ≠ v.dataPtr := by
  have hview : ∀ n ∈ sd.toStateDict.names, ∃ w ∈ sd.views, sd.toStateDict.tensorDataIndex n = (w.dataPtr, w.size) := by
    intro n hn
    obtain ⟨q, hq, rfl⟩ := mem_map.1 hn
    obtain ⟨w, hw, rfl⟩ := mem_map.1 hq
    exact ⟨w, hw, sd.toStateDict.tensorDataIndex_eq hq⟩
  have hmem : v.dataPtr ∈ sd.toStateDict.names.map fun n => (sd.toStateDict.tensorDataIndex n).1 :=
    mem_map.2 ⟨v.name, mem_map_of_mem (ViewDict.param_mem hv),
      congrArg fst (sd.toStateDict.tensorDataIndex_eq (ViewDict.param_mem hv))⟩
  obtain ⟨name, rest, hnames, hname⟩ := InOrder.before_split hmem
  refine ⟨_, name, rest, hnames, ?_, ?_⟩
  · obtain ⟨w, hw, hdata⟩ := hview name (by rw [hnames]; simp)
    rw [hdata] at hname ⊢
    exact Prod.ext hname (sd.oneSize w hw v hv hname)
  · intro n hn
    obtain ⟨w, hw, hdata⟩ := hview n (by rw [hnames]; exact mem_append_left _ hn)
    refine ⟨w, hw, hdata, ?_⟩
    rintro heq
    exact InOrder.not_mem_before (mem_map.2 ⟨n, hn, by rw [hdata, heq]⟩)

structure OneDevice (sd : ViewDict) (device : Nat) (deviceMap : DeviceMap) : Prop where
  names : ∀ name, name ∈ deviceMap.keys ↔ name ∈ sd.views.map TensorView.name
  device : ∀ e ∈ deviceMap.entries, e.2 = device

section Load

variable {sd : ViewDict} {v : TensorView} (hv : v ∈ sd.views)

include hv

theorem saveDict_index (K : WriterSizes) {os : Os} (hos : os.WritesAll) (old : List (List UInt8)) (mem : Nat → UInt8) :
    (saveDict K os mem sd ⟨old, 0, []⟩).1.get? v.name =
      some ⟨recordStart sd.toStateDict.storages v.dataPtr, v.size, v.shape, v.stride, v.dtype.str⟩ := by
  have hoff := (sd.toStateDict.save_over_spec K hos old mem (ViewDict.param_mem hv)).1
  rw [← mem_entries_iff]
  refine mem_map.2 ⟨v, hv, Prod.ext rfl ?_⟩
  exact congrArg (fun o => IndexEntry.mk (Option.getD o 0) v.size v.shape v.stride v.dtype.str) hoff

theorem saveDict_length (K : WriterSizes) {os : Os} (hos : os.WritesAll) (old : List (List UInt8)) (mem : Nat → UInt8) :
    recordStart sd.toStateDict.storages v.dataPtr + v.size ≤ (saveDict K os mem sd ⟨old, 0, []⟩).2.files.flatten.length := by
  obtain ⟨parts, hfiles, -, -, -, -, hhe⟩ :=
    saveTensors_spec K hos old mem sd.toStateDict.tensorDataIndex sd.toStateDict.names
  rw [sd.toStateDict.map_tensorDataIndex] at hhe
  have hle := (hhe _ (sd.toStateDict.storage_mem (ViewDict.param_mem hv))).add_le_length
  rw [length_read] at hle
  rw [saveDict, hfiles]
  exact hle.trans (length_le_overlay old parts)

theorem saveDict_data (K : WriterSizes) {os : Os} (hos : os.WritesAll) (old : List (List UInt8)) (mem : Nat → UInt8)
    (hplace : InPlace K old sd.toStateDict.storages v.dataPtr) :
    ((saveDict K os mem sd ⟨old, 0, []⟩).2.files.flatten.drop (recordStart sd.toStateDict.storages v.dataPtr)).take v.size =
      read mem v.dataPtr v.size := by
  have h := ((sd.toStateDict.save_over_spec K hos old mem (ViewDict.param_mem hv)).2 fun _ => hplace).take_drop
  rwa [length_read] at h

end Load

section OneDevice

variable {sd : ViewDict} {device : Nat} {deviceMap : DeviceMap} (hdm : OneDevice sd device deviceMap)

include hdm

theorem OneDevice.exists_view {name : String} (h : name ∈ deviceMap.keys) : ∃ v ∈ sd.views, v.name = name :=
  mem_map.1 ((hdm.names name).1 h)

theorem OneDevice.mem_entries {v : TensorView} (hv : v ∈ sd.views) : (v.name, device) ∈ deviceMap.entries := by
  obtain ⟨e, he, hnm⟩ := mem_map.1 ((hdm.names v.name).2 (mem_map_of_mem hv))
  rw [← hnm, ← hdm.device e he]
  exact he

theorem OneDevice.tied (tensorIndex : TensorDataIndex) : TiedTogether deviceMap tensorIndex := by
  intro e he e' he' _
  rw [hdm.device e he, hdm.device e' he']

variable (K : WriterSizes) {os : Os} (hos : os.WritesAll) (old : List (List UInt8)) (mem : Nat → UInt8)

include hos

theorem OneDevice.indexed : ∀ name ∈ deviceMap.keys, name ∈ (dataIndexOf (saveDict K os mem sd ⟨old, 0, []⟩).1).keys := by
  intro name hnm
  obtain ⟨v, hv, rfl⟩ := hdm.exists_view hnm
  rw [dataIndexOf, keys_mapValues, mem_keys_iff]
  exact ⟨_, saveDict_index hv K hos old mem⟩

theorem OneDevice.load_spec (hkn : ∀ v ∈ sd.views, v.dtype.Known) (cudaMemoryPtr : Nat → Nat) (gpu : Nat → Nat → UInt8) :
    ∃ stateDict gpu', loadDict cudaMemoryPtr gpu (saveDict K os mem sd ⟨old, 0, []⟩).1
      (saveDict K os mem sd ⟨old, 0, []⟩).2.files.flatten deviceMap =
        .ok (stateDict, gpu') ∧
      ∀ v ∈ sd.views, ∃ t, stateDict.get? v.name = some t ∧ t.sizes = v.shape ∧ t.strides = v.stride ∧ t.dtype = v.dtype ∧
        read (gpu' t.device) t.addr v.size = ((saveDict K os mem sd ⟨old, 0, []⟩).2.files.flatten.drop
          (recordStart sd.toStateDict.storages v.dataPtr)).take v.size := by
  obtain ⟨s, t, hs, ht, hmem, hoff⟩ := plan_spec deviceMap _ (hdm.indexed K hos old mem)
  have hlay := deviceLayout_of_tied hmem hoff (hdm.tied _)
  generalize hptrs : s.deviceMemory.mapValues (fun d _ => cudaMemoryPtr d) = ptrs
  -- every item of the plan is a tensor of the dict, on the device
  have hitem : ∀ item ∈ restoreItems t.tensorDeviceOffsets, ∃ v ∈ sd.views, v.name = item.2.1 ∧ item.1 = device ∧
      ptrs.get? item.1 = some (cudaMemoryPtr device) ∧
      (metaIndexOf (saveDict K os mem sd ⟨old, 0, []⟩).1).get? item.2.1 = some (v.shape, v.stride, v.dtype.str) := by
    intro item hi
    have ho := mem_restoreItems.1 hi
    have he := hoff.only item.1 item.2.1 (by rw [ho]; exact some_ne_none _)
    obtain ⟨v, hv, hnm⟩ := hdm.exists_view (mem_map_of_mem (f := Prod.fst) he)
    have hdev : item.1 = device := hdm.device _ he
    refine ⟨v, hv, hnm, hdev, ?_, ?_⟩
    · rw [← hptrs, Dict.get?_mapValues, hmem.memory, if_pos (mem_map_of_mem (f := Prod.snd) he), map_some, hdev]
    · rw [metaIndexOf, Dict.get?_mapValues, ← hnm, saveDict_index hv K hos old mem]
      rfl
  have hblobs : ∀ item ∈ restoreItems t.tensorDeviceOffsets,
      ∃ b, IsBlob (metaIndexOf (saveDict K os mem sd ⟨old, 0, []⟩).1) ptrs item b := by
    intro item hi
    obtain ⟨v, hv, hnm, hdev, hba, hmeta⟩ := hitem item hi
    refine ⟨⟨item.1, cudaMemoryPtr device + item.2.2, v.shape, v.stride, v.dtype, false⟩, _, _, hba, hmeta, ?_, rfl, rfl⟩
    rw [stringToScalarType_str, if_pos (hkn v hv)]
  obtain ⟨r, hr⟩ := foldlM_restoreStep_ok hblobs
  refine ⟨r.1, fun d => copyChunks (saveDict K os mem sd ⟨old, 0, []⟩).2.files.flatten (cudaMemoryPtr d)
    ((t.tensorCopyChunks.get? d).getD []) (gpu d), ?_, ?_⟩
  · simp only [loadDict, hs, ht, restoreTensors, hptrs, hr, bind, Except.bind]
    rfl
  · intro v hv
    have hindex : (dataIndexOf (saveDict K os mem sd ⟨old, 0, []⟩).1).get? v.name =
        some (recordStart sd.toStateDict.storages v.dataPtr, v.size) := by
      rw [dataIndexOf, Dict.get?_mapValues, saveDict_index hv K hos old mem]
      rfl
    obtain ⟨o, -, chunks, ho, -, hchs, -, c, hc, hsrc, hsz, hdst⟩ := hlay.tensor v.name device (hdm.mem_entries hv) _ _ hindex
    obtain ⟨i, hi, hnm, b, hb, hget⟩ := (foldlM_restoreStep_inv hr).2 (device, v.name, o) (mem_restoreItems.2 ho)
    obtain ⟨w, hw, hwname, hdev, hba, hmeta⟩ := hitem i hi
    obtain rfl : w = v := inj_on_of_nodup_map sd.names_nodup hw hv (hwname.trans hnm)
    obtain ⟨base, typeStr, hba', hmeta', htype, haddr, hdevice⟩ := hb
    obtain rfl : cudaMemoryPtr device = base := Option.some.inj (hba.symm.trans hba')
    obtain ⟨hshp, hstride, rfl⟩ : w.shape = b.sizes ∧ w.stride = b.strides ∧ w.dtype.str = typeStr := by
      simpa using hmeta.symm.trans hmeta'
    rw [stringToScalarType_str, if_pos (hkn w hw)] at htype
    have hoffset : i.2.2 = o := by
      have hi := mem_restoreItems.1 hi
      rw [hdev, hnm, ho] at hi
      exact (Option.some.inj hi).symm
    refine ⟨b, hget, hshp.symm, hstride.symm, (Except.ok.inj htype).symm, ?_⟩
    have hlen := saveDict_length hw K hos old mem
    have hrd := read_copyChunks (saveDict K os mem sd ⟨old, 0, []⟩).2.files.flatten (cudaMemoryPtr device)
      (hlay.chunks device chunks hchs).1 hc (by rw [hsrc, hsz, length_take, length_drop]; omega) (gpu device)
    rw [hsrc, hsz, hdst] at hrd
    simp only [hdevice, hdev, hchs, getD_some, haddr, hoffset]
    exact hrd

theorem OneDevice.load_known {cudaMemoryPtr : Nat → Nat} {gpu : Nat → Nat → UInt8}
    {r : Dict String BlobTensor × (Nat → Nat → UInt8)}
    (h : loadDict cudaMemoryPtr gpu (saveDict K os mem sd ⟨old, 0, []⟩).1
      (saveDict K os mem sd ⟨old, 0, []⟩).2.files.flatten deviceMap = .ok r) :
    ∀ v ∈ sd.views, v.dtype.Known := by
  obtain ⟨s, t, hs, ht, hmem, hoff⟩ := plan_spec deviceMap _ (hdm.indexed K hos old mem)
  have hlay := deviceLayout_of_tied hmem hoff (hdm.tied _)
  intro v hv
  have hindex := saveDict_index hv K hos old mem
  have hdata : (dataIndexOf (saveDict K os mem sd ⟨old, 0, []⟩).1).get? v.name =
      some (recordStart sd.toStateDict.storages v.dataPtr, v.size) := by
    rw [dataIndexOf, Dict.get?_mapValues, hindex]
    rfl
  obtain ⟨o, -, -, ho, -⟩ := hlay.tensor v.name device (hdm.mem_entries hv) _ _ hdata
  simp only [loadDict, hs, ht, restoreTensors, bind, Except.bind] at h
  split at h
  · cases h
  · rename_i stateDict hr
    split at hr
    · cases hr
    · rename_i q hq
      obtain ⟨b, base, typeStr, -, hmeta, htype, -⟩ := (foldlM_restoreStep_inv hq).1 (device, v.name, o) (mem_restoreItems.2 ho)
      rw [metaIndexOf, Dict.get?_mapValues, hindex] at hmeta
      obtain ⟨-, -, rfl⟩ : v.shape = b.sizes ∧ v.stride = b.strides ∧ v.dtype.str = typeStr := by simpa using hmeta
      by_contra hunknown
      rw [stringToScalarType_str, if_neg hunknown] at htype
      cases htype

end OneDevice

structure SameTensor (mem gpu : Nat → UInt8) (v : TensorView) (t : BlobTensor) : Prop where
  shape : t.sizes = v.shape
  dtype : t.dtype = v.dtype
  elements : ∀ index ∈ indices v.shape,
    read gpu (t.elementAddr index) t.dtype.itemsize = read mem (v.elementAddr index) v.dtype.itemsize

/-- The dict is saved to a directory with these partition files, and every tensor of it is restored. -/
def RoundTrips (K : WriterSizes) (os : Os) (cudaMemoryPtr : Nat → Nat) (gpu : Nat → Nat → UInt8) (deviceMap : DeviceMap)
    (sd : ViewDict) (old : List (List UInt8)) (mem : Nat → UInt8) : Prop :=
  ∃ stateDict gpu',
    loadDict cudaMemoryPtr gpu (saveDict K os mem sd ⟨old, 0, []⟩).1 (saveDict K os mem sd ⟨old, 0, []⟩).2.files.flatten
      deviceMap = .ok (stateDict, gpu') ∧
    ∀ v ∈ sd.views, ∃ t, stateDict.get? v.name = some t ∧ SameTensor mem (gpu' t.device) v t

/-- The element of the storage that is the storage offset before that with the index. -/
def TensorView.elementFromStart (v : TensorView) (index : List Nat) : Nat :=
  v.dataPtr + v.dtype.itemsize * elementOffset v.stride index

/-- Different storages do not overlap. -/
def ViewDict.Apart (sd : ViewDict) : Prop :=
  ∀ v ∈ sd.views, ∀ w ∈ sd.views, v.dataPtr ≠ w.dataPtr → v.dataPtr + v.size ≤ w.dataPtr ∨ w.dataPtr + w.size ≤ v.dataPtr

theorem indices_eq_nil_iff (shape : List Nat) : indices shape = [] ↔ 0 ∈ shape := by
  induction shape with
  | nil => simp [indices]
  | cons n shape ih =>
    rw [indices, flatMap_eq_nil_iff, mem_cons, ← ih]
    constructor
    · intro h
      rcases Nat.eq_zero_or_pos n with rfl | hn
      · exact .inl rfl
      · exact .inr (by simpa using h 0 (mem_range.2 hn))
    · rintro (rfl | h)
      · simp
      · simp [h]

theorem reliable_writesAll : Os.reliable.WritesAll := fun _ _ => rfl

theorem DType.itemsize_pos (t : DType) : 0 < t.itemsize := by cases t <;> decide

section

variable (K : WriterSizes) {os : Os} (hos : os.WritesAll) (old : List (List UInt8)) {sd : ViewDict} {v : TensorView}
  (hv : v ∈ sd.views)

include hv in
theorem fromStart_le {index : List Nat} (hi : index ∈ indices v.shape) :
    v.dtype.itemsize * elementOffset v.stride index + v.dtype.itemsize ≤ v.size := by
  have hbd := sd.inside v hv index hi
  rw [Nat.mul_add] at hbd
  omega

include hos

/-- What is restored of an element is what the files have at its place from the start of the storage. -/
theorem roundTrips_bytes_iff (cudaMemoryPtr : Nat → Nat) (gpu : Nat → Nat → UInt8) {device : Nat} {deviceMap : DeviceMap}
    (hdm : OneDevice sd device deviceMap) (mem : Nat → UInt8) :
    RoundTrips K os cudaMemoryPtr gpu deviceMap sd old mem ↔ ∀ v ∈ sd.views, v.dtype.Known ∧ ∀ index ∈ indices v.shape,
      ((saveDict K os mem sd ⟨old, 0, []⟩).2.files.flatten.drop (recordStart sd.toStateDict.storages v.dataPtr +
        v.dtype.itemsize * elementOffset v.stride index)).take v.dtype.itemsize =
          read mem (v.elementAddr index) v.dtype.itemsize := by
  -- the bytes that were copied, at the place of the element
  have helement : ∀ {v : TensorView} {t : BlobTensor} {gpu : Nat → UInt8}, v ∈ sd.views → t.strides = v.stride →
      t.dtype = v.dtype → read gpu t.addr v.size = ((saveDict K os mem sd ⟨old, 0, []⟩).2.files.flatten.drop
        (recordStart sd.toStateDict.storages v.dataPtr)).take v.size → ∀ index ∈ indices v.shape,
      read gpu (t.elementAddr index) t.dtype.itemsize = ((saveDict K os mem sd ⟨old, 0, []⟩).2.files.flatten.drop
        (recordStart sd.toStateDict.storages v.dataPtr + v.dtype.itemsize * elementOffset v.stride index)).take
          v.dtype.itemsize := by
    intro v t gpu hv hsds hdtype hcopy index hi
    have hfit := fromStart_le hv hi
    rw [BlobTensor.elementAddr, hsds, hdtype, ← take_drop_read _ _ hfit, hcopy, drop_take, take_take, drop_drop,
      Nat.min_eq_left (by omega)]
  constructor
  · rintro ⟨stateDict, gpu', hld, htns⟩ v hv
    have hkn := hdm.load_known K hos old mem hld
    refine ⟨hkn v hv, ?_⟩
    obtain ⟨stateDict₁, gpu₁, hld₁, hspec⟩ := hdm.load_spec K hos old mem hkn cudaMemoryPtr gpu
    obtain ⟨rfl, rfl⟩ : stateDict₁ = stateDict ∧ gpu₁ = gpu' := by simpa using hld₁.symm.trans hld
    obtain ⟨t, ht, -, hsds, hdtype, hcopy⟩ := hspec v hv
    obtain ⟨t', ht', hsa⟩ := htns v hv
    obtain rfl := some.inj (ht.symm.trans ht')
    intro index hi
    rw [← helement hv hsds hdtype hcopy index hi]
    exact hsa.elements index hi
  · intro h
    obtain ⟨stateDict, gpu', hld, hspec⟩ := hdm.load_spec K hos old mem (fun v hv => (h v hv).1) cudaMemoryPtr gpu
    refine ⟨stateDict, gpu', hld, ?_⟩
    intro v hv
    obtain ⟨t, ht, hshp, hsds, hdtype, hcopy⟩ := hspec v hv
    refine ⟨t, ht, hshp, hdtype, ?_⟩
    intro index hi
    rw [helement hv hsds hdtype hcopy index hi]
    exact (h v hv).2 index hi

theorem roundTrips_content_iff (cudaMemoryPtr : Nat → Nat) (gpu : Nat → Nat → UInt8) {device : Nat} {deviceMap : DeviceMap}
    (hdm : OneDevice sd device deviceMap) (mem : Nat → UInt8)
    (hplace : ∀ v ∈ sd.views, 0 ∈ v.shape ∨ InPlace K old sd.toStateDict.storages v.dataPtr) :
    RoundTrips K os cudaMemoryPtr gpu deviceMap sd old mem ↔
      ∀ v ∈ sd.views, v.dtype.Known ∧ ∀ index ∈ indices v.shape,
        read mem (v.elementFromStart index) v.dtype.itemsize = read mem (v.elementAddr index) v.dtype.itemsize := by
  rw [roundTrips_bytes_iff K hos old cudaMemoryPtr gpu hdm]
  refine forall₂_congr fun v hv => and_congr_right fun _ => forall₂_congr fun index hi => ?_
  have hin := (hplace v hv).resolve_left fun hemp => by
    rw [(indices_eq_nil_iff _).2 hemp] at hi
    cases hi
  have hfit := fromStart_le hv hi
  have hbytes : ((saveDict K os mem sd ⟨old, 0, []⟩).2.files.flatten.drop (recordStart sd.toStateDict.storages v.dataPtr +
      v.dtype.itemsize * elementOffset v.stride index)).take v.dtype.itemsize =
        read mem (v.elementFromStart index) v.dtype.itemsize := by
    rw [TensorView.elementFromStart, ← take_drop_read _ _ hfit, ← saveDict_data hv K hos old mem hin, drop_take, take_take,
      drop_drop, Nat.min_eq_left (by omega)]
  rw [hbytes]

include hv

/-- A byte that is restored in place of another one, or from a shifted record, was there before that one was written. -/
theorem take_files_congr (hap : sd.Apart) {index : List Nat} (hi : index ∈ indices v.shape)
    (h : 0 < v.storageOffset ∨ ¬InPlace K old sd.toStateDict.storages v.dataPtr) {mem mem' : Nat → UInt8}
    (hmem : ∀ a, a ≠ v.elementAddr index → mem a = mem' a) :
    (saveDict K os mem sd ⟨old, 0, []⟩).2.files.flatten.take
        (recordStart sd.toStateDict.storages v.dataPtr + v.dtype.itemsize * elementOffset v.stride index + 1) =
      (saveDict K os mem' sd ⟨old, 0, []⟩).2.files.flatten.take
        (recordStart sd.toStateDict.storages v.dataPtr + v.dtype.itemsize * elementOffset v.stride index + 1) := by
  obtain ⟨front, name, rest, hnames, hdata, hfront⟩ := sd.first_with_storage hv
  have haddr : v.elementAddr index = v.dataPtr +
      (v.dtype.itemsize * v.storageOffset + v.dtype.itemsize * elementOffset v.stride index) := by
    rw [TensorView.elementAddr, Nat.mul_add]
  have hbd := sd.inside v hv index hi
  have hfit := fromStart_le hv hi
  have hsize := v.dtype.itemsize_pos
  rw [Nat.mul_add] at hbd
  have hread : ∀ {addr n : Nat}, (addr + n ≤ v.elementAddr index ∨ v.elementAddr index < addr) →
      read mem addr n = read mem' addr n := by
    intro addr n hor
    refine map_congr_left fun i hi => hmem _ ?_
    have := mem_range.1 hi
    omega
  -- the storages that were written before hold other bytes
  have hagree : ∀ n ∈ front, read mem (sd.toStateDict.tensorDataIndex n).1 (sd.toStateDict.tensorDataIndex n).2 =
      read mem' (sd.toStateDict.tensorDataIndex n).1 (sd.toStateDict.tensorDataIndex n).2 := by
    intro n hn
    obtain ⟨w, hw, hwd, hne⟩ := hfront n hn
    rw [hwd]
    refine hread ?_
    have := hap v hv w hw hne.symm
    omega
  have hwritten : ∀ k, k ≤ v.size → v.dataPtr + k ≤ v.elementAddr index → ∃ parts parts',
      (saveDict K os mem sd ⟨old, 0, []⟩).2.files = overlay old parts ∧
      (saveDict K os mem' sd ⟨old, 0, []⟩).2.files = overlay old parts' ∧ parts.map length = parts'.map length ∧
      parts.flatten.take (recordStart sd.toStateDict.storages v.dataPtr + k) =
        parts'.flatten.take (recordStart sd.toStateDict.storages v.dataPtr + k) ∧
      parts.map length = partitionSizes K.kPartitionMaxSize (sizesOf sd.toStateDict.storages) := by
    intro k hk hle
    have hnew : (sd.toStateDict.tensorDataIndex name).1 ∉ (front.map sd.toStateDict.tensorDataIndex).map fst := by
      intro hin
      obtain ⟨r, hr, heq⟩ := mem_map.1 hin
      obtain ⟨n, hn, rfl⟩ := mem_map.1 hr
      obtain ⟨w, -, hwd, hne⟩ := hfront n hn
      rw [hwd, hdata] at heq
      exact hne heq
    have hk' : k ≤ (sd.toStateDict.tensorDataIndex name).2 := by rwa [hdata]
    have h := @take_flatten_congr os _ K hos old _ _ _ rest _ hnew hagree _ hk' (by rw [hdata]; exact hread (.inl hle))
    rwa [← hnames, sd.toStateDict.map_tensorDataIndex, hdata] at h
  rcases Nat.eq_zero_or_pos v.storageOffset with hzero | hpos
  · have hshift := h.resolve_left (by omega)
    obtain ⟨parts, parts', hf, hf', hlens, htake, hsizes⟩ :=
      hwritten (v.dtype.itemsize * elementOffset v.stride index) (by omega) (by omega)
    rw [hf, hf']
    refine take_succ_overlay_congr hlens htake ?_
    rw [hsizes]
    exact fun hu => hshift (Unshifted.mono hu (Nat.le_add_right _ _))
  · have hoff := Nat.mul_pos hsize hpos
    obtain ⟨parts, parts', hf, hf', hlens, htake, -⟩ :=
      hwritten (v.dtype.itemsize * elementOffset v.stride index + 1) (by omega) (by omega)
    rw [hf, hf']
    exact take_overlay_congr hlens htake old

end

/-- Every dict on every device and every directory that it is saved to. Where no storage with an element is shifted by older
files, the dict is restored exactly when all dtypes are known and the elements at the start of the storages are those of the
views. When all dtypes are known, no tensor with elements has a storage offset and no storage of one is shifted, it is restored
whatever the storages hold; and only then, when the storages do not overlap. -/
theorem roundTrips_iff (K : WriterSizes) {os : Os} (hos : os.WritesAll) (cudaMemoryPtr : Nat → Nat) (gpu : Nat → Nat → UInt8)
    {sd : ViewDict} {device : Nat} {deviceMap : DeviceMap} (hdm : OneDevice sd device deviceMap) (old : List (List UInt8)) :
    (∀ mem, (∀ v ∈ sd.views, 0 ∈ v.shape ∨ InPlace K old sd.toStateDict.storages v.dataPtr) →
      (RoundTrips K os cudaMemoryPtr gpu deviceMap sd old mem ↔
        ∀ v ∈ sd.views, v.dtype.Known ∧ ∀ index ∈ indices v.shape,
          read mem (v.elementFromStart index) v.dtype.itemsize = read mem (v.elementAddr index) v.dtype.itemsize)) ∧
    ((∀ v ∈ sd.views, v.dtype.Known ∧
        (0 ∈ v.shape ∨ v.storageOffset = 0 ∧ InPlace K old sd.toStateDict.storages v.dataPtr)) →
      ∀ mem, RoundTrips K os cudaMemoryPtr gpu deviceMap sd old mem) ∧
    (sd.Apart → (∀ mem, RoundTrips K os cudaMemoryPtr gpu deviceMap sd old mem) →
      ∀ v ∈ sd.views, v.dtype.Known ∧
        (0 ∈ v.shape ∨ v.storageOffset = 0 ∧ InPlace K old sd.toStateDict.storages v.dataPtr)) := by
  have hiff := roundTrips_bytes_iff K hos old cudaMemoryPtr gpu hdm
  have hcontent := roundTrips_content_iff K hos old cudaMemoryPtr gpu hdm
  refine ⟨hcontent, ?_, ?_⟩
  · intro h mem
    refine (hcontent mem fun v hv => (h v hv).2.imp_right And.right).2 fun v hv => ⟨(h v hv).1, ?_⟩
    intro index hi
    rcases (h v hv).2 with hemp | ⟨hzero, -⟩
    · rw [(indices_eq_nil_iff _).2 hemp] at hi
      cases hi
    · rw [TensorView.elementFromStart, TensorView.elementAddr, hzero, Nat.zero_add]
  · intro hap h v hv
    refine ⟨((hiff fun _ => 0).1 (h _) v hv).1, ?_⟩
    by_contra hne
    rw [not_or, ← indices_eq_nil_iff, not_and_or] at hne
    obtain ⟨index, hi⟩ := exists_mem_of_ne_nil _ hne.1
    -- contents that differ only in the first byte of the element
    obtain ⟨mem, hfst, hmem⟩ : ∃ mem : UInt8 → Nat → UInt8, (∀ b, mem b (v.elementAddr index) = b) ∧
        ∀ a, a ≠ v.elementAddr index → mem 0 a = mem 1 a :=
      ⟨fun b a => if a = v.elementAddr index then b else 0, by simp, fun a ha => by simp [ha]⟩
    have hbyte : ∀ b, (saveDict K os (mem b) sd ⟨old, 0, []⟩).2.files.flatten[
        recordStart sd.toStateDict.storages v.dataPtr + v.dtype.itemsize * elementOffset v.stride index]? = some b := by
      intro b
      have helement := congrArg (·[0]?) (((hiff _).1 (h (mem b)) v hv).2 index hi)
      simpa [Bytes.read, v.dtype.itemsize_pos, hfst] using helement
    have hsame := take_files_congr K hos old hv hap hi (hne.2.imp Nat.pos_of_ne_zero id) hmem
    have hcongr :=
      congrArg (·[recordStart sd.toStateDict.storages v.dataPtr + v.dtype.itemsize * elementOffset v.stride index]?) hsame
    simp only [getElem?_take_of_lt (Nat.lt_succ_self _), hbyte] at hcongr
    cases hcongr

def matrixDict : ViewDict where
  views := [⟨"w", 4096, 16, 0, [2, 2], [2, 1], .int32⟩, ⟨"wt", 4096, 16, 0, [2, 2], [1, 2], .int32⟩,
    ⟨"b", 8192, 4, 0, [1], [1], .float32⟩]
  names_nodup := by decide
  oneSize := by decide
  inside := by decide

def matrixMap : DeviceMap := ⟨[("wt", 3), ("w", 3), ("b", 3)], by decide⟩

/-- The bias comes into a second partition, behind a first one that is longer than the file that was there. -/
theorem roundTrips_matrixDict : OneDevice matrixDict 3 matrixMap ∧
    ∀ mem, RoundTrips smallPartitions .reliable (fun _ => 512) (fun _ _ => 0) matrixMap matrixDict [[1, 2, 3]] mem := by
  have hdm : OneDevice matrixDict 3 matrixMap := ⟨by simp [Dict.keys, matrixMap, matrixDict, or_left_comm], by decide⟩
  have hsizes : partitionSizes smallPartitions.kPartitionMaxSize (sizesOf matrixDict.toStateDict.storages) =
    [16, 8] := by decide
  refine ⟨hdm, (roundTrips_iff smallPartitions reliable_writesAll _ _ hdm [[1, 2, 3]]).2.1 fun v hv => ⟨?_, .inr ⟨?_, ?_⟩⟩⟩
  · exact (by decide : ∀ v ∈ matrixDict.views, v.dtype.Known) v hv
  · exact (by decide : ∀ v ∈ matrixDict.views, v.storageOffset = 0) v hv
  · exact inPlace_of_short hsizes (by decide)

/-- A tensor that is the second half of a storage. -/
def halfDict : ViewDict where
  views := [⟨"half", 100, 8, 1, [1], [1], .int32⟩]
  names_nodup := by decide
  oneSize := by decide
  inside := by decide

/-- The first half is restored in its place. -/
theorem storage_offset_lost :
    OneDevice halfDict 0 ⟨[("half", 0)], by decide⟩ ∧
      ¬RoundTrips .source .reliable (fun _ => 512) (fun _ _ => 0) ⟨[("half", 0)], by decide⟩ halfDict [] UInt8.ofNat := by
  have hdm : OneDevice halfDict 0 ⟨[("half", 0)], by decide⟩ := ⟨by simp [Dict.keys, halfDict], by decide⟩
  refine ⟨hdm, ?_⟩
  rw [roundTrips_content_iff .source reliable_writesAll [] _ _ hdm _ fun v hv => .inr fun i _ => by simp]
  decide

end ServerlessLLM
