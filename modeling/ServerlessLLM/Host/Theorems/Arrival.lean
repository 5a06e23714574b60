import ServerlessLLM.Checkpoint.Theorems.Placement
import ServerlessLLM.Checkpoint.Theorems.Writer
import ServerlessLLM.Host.Theorems.Dispatch
import ServerlessLLM.Host.Theorems.Reader

/-!
# The tensors arrive

From `SaveTensors` over the partitions, the chunks of the host memory and the queues to the memory of the devices.
-/

namespace ServerlessLLM

open Buckets Bytes List Dict Function GpuBatch MemCopyChunk CopyChunk

section

variable {chunkSize numChunks : Nat} {partitions : List (List UInt8)} {s : ReadState}

/-- A batch that ends within the partitions copies their bytes. -/
theorem HostLoaded.bytes_batch (h : HostLoaded partitions chunkSize numChunks s) {b : GpuBatch}
    (hb : b.InChunk chunkSize numChunks)
    (hend : b.chunkId * chunkSize + b.chunkOffset + b.size ≤ partitions.flatten.length) :
    ((s.hostBuffers.getD b.chunkId []).drop b.chunkOffset).take b.size =
      (partitions.flatten.drop (b.chunkId * chunkSize + b.chunkOffset)).take b.size := by
  have hcut : ∀ (l : List UInt8) (n : Nat), b.chunkOffset + b.size ≤ n →
      ((l.take n).drop b.chunkOffset).take b.size = (l.drop b.chunkOffset).take b.size := by
    intro l n hn
    rw [drop_take, take_take, Nat.min_eq_left (by omega)]
  have hins := hb.inside
  rw [← hcut _ _ (by omega : _ ≤ min chunkSize (partitions.flatten.length - b.chunkId * chunkSize)), h.bytes b.chunkId hb.chunk,
    hcut _ _ hins, drop_drop]

/-- After all batches a byte is the one that a batch copies there, when no other byte is copied there. -/
theorem copied_byte {file : List UInt8} {hostBuffers : List (List UInt8)} {batches : List GpuBatch}
    (hdata : ∀ b ∈ batches, ((hostBuffers.getD b.chunkId []).drop b.chunkOffset).take b.size =
      (file.drop (b.chunkId * chunkSize + b.chunkOffset)).take b.size)
    (hend : ∀ b ∈ batches, b.chunkId * chunkSize + b.chunkOffset + b.size ≤ file.length) {src handle dst : Nat}
    (hmem : (src, handle, dst) ∈ batches.flatMap (copies chunkSize))
    (huniq : ∀ src', (src', handle, dst) ∈ batches.flatMap (copies chunkSize) → src' = src) (memory : Nat → Nat → UInt8) :
    file[src]? = some (batches.foldl (copyTo hostBuffers) memory handle dst) := by
  induction batches using reverseRecOn with
  | nil => cases hmem
  | append_singleton batches b ih =>
    rw [flatMap_append, flatMap_singleton] at hmem huniq
    rw [foldl_append, foldl_cons, foldl_nil]
    generalize hbe : batches.foldl (copyTo hostBuffers) memory = before at ih ⊢
    by_cases hlast : ∃ i < b.size, handle = b.handleIdx ∧ dst = b.gpuOffset + i
    · -- the last batch writes the byte
      obtain ⟨i, hi, rfl, rfl⟩ := hlast
      have hend' := hend b (by simp)
      have hin : (b.chunkId * chunkSize + b.chunkOffset + i, b.handleIdx, b.gpuOffset + i) ∈ b.copies chunkSize :=
        mem_map.2 ⟨i, mem_range.2 hi, rfl⟩
      rw [← huniq _ (mem_append_right _ hin), copyTo, update_self, copyIn, if_pos (Nat.le_add_right _ _),
        Nat.add_sub_cancel_left, hdata b (by simp), getElem?_take_of_lt hi, getElem?_drop,
        getElem?_eq_getElem (show b.chunkId * chunkSize + b.chunkOffset + i < file.length by omega), Option.getD_some]
    · have hno : ∀ src', (src', handle, dst) ∉ b.copies chunkSize := by
        intro src' hin
        obtain ⟨i, hi, heq⟩ := mem_map.1 hin
        rw [Prod.mk.injEq, Prod.mk.injEq] at heq
        exact hlast ⟨i, mem_range.1 hi, heq.2.1.symm, heq.2.2.symm⟩
      have hsame : copyTo hostBuffers before b handle dst = before handle dst := by
        unfold copyTo
        by_cases hh : handle = b.handleIdx
        · subst hh
          rw [update_self, copyIn]
          split
          · rw [getElem?_eq_none, Option.getD_none]
            rw [length_take]
            have : ¬dst - b.gpuOffset < b.size := fun hlt => hlast ⟨_, hlt, rfl, by omega⟩
            omega
          · rfl
        · rw [update_of_ne hh]
      rw [hsame]
      exact ih (fun b' hb' => hdata b' (mem_append_left _ hb')) (fun b' hb' => hend b' (mem_append_left _ hb'))
        ((mem_append.1 hmem).resolve_right (hno src)) fun src' hin => huniq src' (mem_append_left _ hin)

/-- The requests write ranges that do not overlap. -/
def ApartRequests (requests : List MemCopyChunk) : Prop :=
  requests.Pairwise fun r r' => r.dstOffset + r.size ≤ r'.dstOffset ∨ r'.dstOffset + r'.size ≤ r.dstOffset

theorem mem_copies {r : MemCopyChunk} {src handle dst : Nat} :
    (src, handle, dst) ∈ r.copies ↔ ∃ i < r.size, src = r.srcOffset + i ∧ handle = r.handleIdx ∧ dst = r.dstOffset + i := by
  simp only [MemCopyChunk.copies, byteCopies, mem_map, mem_range, Prod.mk.injEq]
  exact exists_congr fun i => and_congr_right fun _ => by rw [eq_comm, eq_comm (a := handle), eq_comm (a := dst)]

theorem ApartRequests.src_eq {requests : List MemCopyChunk} (h : ApartRequests requests) {src src' handle dst : Nat}
    (hmem : (src, handle, dst) ∈ requests.flatMap copies)
    (hmem' : (src', handle, dst) ∈ requests.flatMap copies) : src' = src := by
  obtain ⟨r, hr, hrc⟩ := mem_flatMap.1 hmem
  obtain ⟨r', hr', hrc'⟩ := mem_flatMap.1 hmem'
  obtain ⟨i, hi, rfl, -, rfl⟩ := mem_copies.1 hrc
  obtain ⟨i', hi', rfl, -, hd⟩ := mem_copies.1 hrc'
  by_cases heq : r = r'
  · subst heq
    omega
  · have hsymm : Std.Symm fun r r' : MemCopyChunk => r.dstOffset + r.size ≤ r'.dstOffset ∨
      r'.dstOffset + r'.size ≤ r.dstOffset :=
      ⟨fun _ _ => Or.symm⟩
    have := List.Pairwise.forall h hr hr' heq
    omega

/-- A queue that is `Dispatched`, over a host memory that is `HostLoaded`, brings every request to its place. -/
theorem Dispatched.arrived {requests : List MemCopyChunk} {queue : List GpuBatch}
    (h : Dispatched chunkSize numChunks requests queue)
    (hhost : HostLoaded partitions chunkSize numChunks s)
      (hin : ∀ r ∈ requests, r.srcOffset + r.size ≤ partitions.flatten.length)
    (hap : ApartRequests requests) {r : MemCopyChunk} (hr : r ∈ requests) (memory : Nat → Nat → UInt8) :
    read (copyQueue s.hostBuffers memory queue r.handleIdx) r.dstOffset r.size =
      (partitions.flatten.drop r.srcOffset).take r.size := by
  have hend : ∀ b ∈ consume queue, b.chunkId * chunkSize + b.chunkOffset + b.size ≤ partitions.flatten.length := by
    intro b hb
    have hpos := (h.inChunk b hb).pos
    -- the last byte of the batch is one that is requested
    have hla : (b.chunkId * chunkSize + b.chunkOffset + (b.size - 1), b.handleIdx, b.gpuOffset + (b.size - 1)) ∈
        requests.flatMap MemCopyChunk.copies :=
      h.copies.subset (mem_flatMap.2 ⟨b, hb, mem_map.2 ⟨b.size - 1, mem_range.2 (by omega), rfl⟩⟩)
    obtain ⟨r', hr', hrc⟩ := mem_flatMap.1 hla
    obtain ⟨i, hi, hsrc, -⟩ := mem_copies.1 hrc
    have := hin r' hr'
    omega
  have hlen := hin r hr
  refine ext_getElem (by rw [length_read, length_take, length_drop]; omega) fun i h1 h2 => ?_
  rw [length_read] at h1
  have hreq : (r.srcOffset + i, r.handleIdx, r.dstOffset + i) ∈ requests.flatMap MemCopyChunk.copies :=
    mem_flatMap.2 ⟨r, hr, mem_copies.2 ⟨i, h1, rfl, rfl, rfl⟩⟩
  have hbyte := copied_byte (fun b hb => hhost.bytes_batch (h.inChunk b hb) (hend b hb)) hend (h.copies.symm.subset hreq)
    (fun src' hsrc' => hap.src_eq hreq (h.copies.subset hsrc')) memory
  rw [getElem?_eq_getElem (by omega), Option.some.injEq] at hbyte
  simp only [Bytes.read, getElem_map, getElem_range, getElem_take, getElem_drop]
  exact hbyte.symm

/-! ## From the tensors to the devices -/

theorem mem_converted {deviceId : Nat → Int} (hinj : Function.Injective deviceId) {tensorCopyChunks : Dict Nat (List CopyChunk)}
    {pair : Int × List MemCopyChunk} : pair ∈ (convertedMemCopyChunks hinj tensorCopyChunks).entries ↔
      ∃ device chunks, tensorCopyChunks.get? device = some chunks ∧ pair = (deviceId device, chunks.map message) := by
  unfold convertedMemCopyChunks
  rw [mem_map]
  constructor
  · rintro ⟨e, he, rfl⟩
    exact ⟨e.1, e.2, mem_entries_iff.1 he, rfl⟩
  · rintro ⟨device, chunks, hget, rfl⟩
    exact ⟨(device, chunks), mem_entries_iff.2 hget, rfl⟩

theorem toHostStart_eq {numThreads : Nat} {buffers : List (List UInt8)} {R : ReadPlan}
    (h : toHostStart true chunkSize numThreads ⟨.allocated, partitions, some buffers, none⟩ = .inr (R, s)) :
    R = ⟨partitions, chunkSize, buffers.length, numThreads⟩ ∧ s = startState R buffers := by
  cases buffers with
  | nil => cases h
  | cons buffer buffers =>
    cases h
    exact ⟨rfl, rfl⟩

theorem le_mul_chunks (hpos : 0 < chunkSize) (n : Nat) : n ≤ (n + chunkSize - 1) / chunkSize * chunkSize := by
  have hdiv := Nat.div_add_mod' (n + chunkSize - 1) chunkSize
  have hmod := Nat.mod_lt (n + chunkSize - 1) hpos
  omega

/-- Tensors that `SaveTensors` has written, none of them shifted by older files of the directory, and that are read into the
host memory by threads in any order, are on their devices once the consumers have copied what `DispatchToGpu` gave them: behind
the offset that the client has for a tensor stand its bytes. -/
theorem tensors_arrive (K : WriterSizes) {os : Os} (hos : os.WritesAll) (mem : Nat → UInt8) (tensorData : String → Nat × Nat)
    (names : List String) (hsize : OneSize tensorData names) (old : List (List UInt8))
    (hplace : ∀ name ∈ names, 0 < (tensorData name).2 → InPlace K old (names.map tensorData) (tensorData name).1)
      {tensorIndex : TensorDataIndex}
    (hindex : ∀ name offset size, tensorIndex.get? name = some (offset, size) → name ∈ names ∧
      (saveTensors K os mem tensorData names ⟨old, 0, []⟩).1 name = some offset ∧ (tensorData name).2 = size)
    {deviceMap : DeviceMap} (hmap : ∀ name ∈ deviceMap.keys, name ∈ tensorIndex.keys)
      (htied : TiedTogether deviceMap tensorIndex)
    (hpos : 0 < chunkSize) {numThreads : Nat} (hthreads : 0 < numThreads) {buffers : List (List UInt8)}
    (hpartitions : (saveTensors K os mem tensorData names ⟨old, 0, []⟩).2.files = partitions)
    (hbuffers : buffers.length = (partitions.flatten.length + chunkSize - 1) / chunkSize)
    {deviceId : Nat → Int} (hinj : Injective deviceId) :
    ∃ tensorDeviceOffsets tensorCopyChunks,
      calculateTensorDeviceOffsets deviceMap tensorIndex = .ok (tensorDeviceOffsets, tensorCopyChunks) ∧
      ∀ R s, toHostStart true chunkSize numThreads ⟨.allocated, partitions, some buffers, none⟩ = .inr (R, s) →
      ∀ schedule rets, (s.run R schedule).returns = some rets → toHostResult rets = 0 →
      ∀ memCopyHandles gpuLoadingQueue, (∀ d ∈ (convertedMemCopyChunks hinj tensorCopyChunks).keys,
        (∃ handle handles, memCopyHandles.get? d = some (handle :: handles)) ∧ gpuLoadingQueue.get? d = some []) →
      ∃ queues, dispatchToGpu hpos buffers.length (s.run R schedule).hostPtrVector.items
          (convertedMemCopyChunks hinj tensorCopyChunks) memCopyHandles gpuLoadingQueue = .ok queues ∧
        ∀ name device, (name, device) ∈ deviceMap.entries → ∃ o queue, offsetIn tensorDeviceOffsets device name = some o ∧
          queues.get? (deviceId device) = some queue ∧ ∀ memory,
            read (copyQueue (s.run R schedule).hostBuffers memory queue 0) o (tensorData name).2 =
              read mem (tensorData name).1 (tensorData name).2 := by
  obtain ⟨-, -, -, hoff, -⟩ := saveTensors_spec K hos old mem tensorData names
  obtain ⟨m, t, -, ht, hmem, haft⟩ := plan_spec deviceMap tensorIndex hmap
  have hlay := deviceLayout_of_tied hmem haft htied
  -- a tensor of the index is held by the partitions
  have hheld : ∀ name offset size, tensorIndex.get? name = some (offset, size) →
      HeldAt partitions offset (read mem (tensorData name).1 size) := by
    intro name offset size hget
    obtain ⟨hn, ho, rfl⟩ := hindex name offset size hget
    rw [hoff name hn, Option.some.injEq] at ho
    rw [← ho, ← hpartitions]
    exact heldAt_of_inPlace hos hsize mem hn (hplace name hn)
  have hchunk : ∀ device chunks, t.tensorCopyChunks.get? device = some chunks → ∀ c ∈ chunks,
      c.handleIdx = 0 ∧ c.srcOffset + c.size ≤ partitions.flatten.length := by
    intro device chunks hchs c hc
    rw [haft.chunks device (haft.chunkDevices device (mem_keys_iff.2 ⟨chunks, hchs⟩)), Option.some.injEq] at hchs
    obtain ⟨f, hf, rfl⟩ := mem_map.1 (hchs ▸ hc)
    have hfe := placed_subset (mem_onDevice.1 hf).1
    obtain ⟨⟨offset, size⟩, hget⟩ := mem_keys_iff.1 (hmap f.1 (mem_map_of_mem hfe))
    have hend := (hheld f.1 offset size hget).add_le_length
    rw [length_read] at hend
    refine ⟨rfl, ?_⟩
    unfold chunkOf dataSize
    rw [hget]
    exact hend
  refine ⟨t.tensorDeviceOffsets, t.tensorCopyChunks, ht, ?_⟩
  intro R s hstart schedule rets hrets hzero memCopyHandles gpuLoadingQueue hdevices
  obtain ⟨hR, rfl⟩ := toHostStart_eq hstart
  have hfit : R.Fits := by
    subst hR
    refine ⟨hpos, hthreads, ?_⟩
    rw [← ReadPlan.length_data]
    exact hbuffers.le
  have hloaded : HostLoaded partitions chunkSize buffers.length ((startState R buffers).run R schedule) := by
    obtain ⟨c, hc⟩ := (readInv_start (by rw [hR])).run hfit schedule
    have hldd := hc.hostLoaded (returns_iff.1 hrets) hfit (toHostResult_eq_zero.1 hzero)
    rwa [hR] at hldd ⊢
  have hroom : partitions.flatten.length ≤ buffers.length * chunkSize := hbuffers ▸ le_mul_chunks hpos _
  have hfits : ∀ pair ∈ (convertedMemCopyChunks hinj t.tensorCopyChunks).entries,
      DeviceFits chunkSize buffers.length memCopyHandles pair := by
    intro pair hpair
    obtain ⟨⟨handle, handles, hhs⟩, -⟩ := hdevices pair.1 (mem_map_of_mem hpair)
    obtain ⟨device, chunks, hchs, rfl⟩ := (mem_converted hinj).1 hpair
    refine ⟨_, hhs, ?_⟩
    intro r hr
    obtain ⟨c, hc, rfl⟩ := mem_map.1 hr
    obtain ⟨hz, hend⟩ := hchunk device chunks hchs c hc
    exact ⟨hend.trans hroom, by rw [message, hz]; exact Nat.succ_pos _⟩
  have hids : ((((startState R buffers).run R schedule).hostPtrVector.items).map Batch.chunkId).Perm
    (range buffers.length) := by
    have hpm := hloaded.enqueued.map Batch.chunkId
    rwa [map_map, show Batch.chunkId ∘ _ = id from rfl, map_id] at hpm
  obtain ⟨queues, hdis, hque⟩ := dispatchToGpu_ok hpos hfits (fun d hd => mem_keys_iff.2 ⟨_, (hdevices d hd).2⟩) hids
  refine ⟨queues, hdis, ?_⟩
  intro name device he
  obtain ⟨⟨offset, size⟩, hget⟩ := mem_keys_iff.1 (hmap name (mem_map_of_mem (f := Prod.fst) he))
  obtain ⟨o, -, chunks, ho, -, hchs, -, c, hc, rfl, rfl, rfl⟩ := hlay.tensor name device he offset size hget
  have hreq := mem_entries_iff.1 ((mem_converted hinj).2 ⟨device, chunks, hchs, rfl⟩)
  obtain ⟨queue, hq, hdispatched⟩ := hque _ (hdevices _ (mem_keys_iff.2 ⟨_, hreq⟩)).2
  rw [hreq, Option.getD_some] at hdispatched
  refine ⟨_, queue, ho, hq, ?_⟩
  intro memory
  have hap : ApartRequests (chunks.map message) := pairwise_map.2 (hlay.chunks device chunks hchs).1
  have hin : ∀ r ∈ chunks.map message, r.srcOffset + r.size ≤ partitions.flatten.length := by
    intro r hr
    obtain ⟨c', hc', rfl⟩ := mem_map.1 hr
    exact (hchunk device chunks hchs c' hc').2
  have harr : read (copyQueue _ memory queue c.handleIdx) c.dstOffset c.size =
    (partitions.flatten.drop c.srcOffset).take c.size :=
    hdispatched.arrived hloaded hin hap (mem_map_of_mem hc) memory
  have hbytes := (hheld name c.srcOffset c.size hget).take_drop
  rw [length_read] at hbytes
  rw [(hindex name _ _ hget).2.2, ← hbytes, ← harr, (hchunk device chunks hchs c hc).1]

end

def threeIndex : TensorDataIndex := ⟨[("a", (0, 3)), ("b", (8, 9)), ("c", (0, 3))], by decide⟩

/-- The tensors with shared data go to one device, and the other to another. -/
def threeMap : DeviceMap := ⟨[("b", 1), ("a", 0), ("c", 0)], by decide⟩

/-- What `SaveTensors` leaves of them, over a file of three bytes. -/
def threePartitions : List (List UInt8) :=
  (saveTensors .source .reliable (fun i => UInt8.ofNat i) threeTensors ["a", "b", "c"] ⟨[[1, 2, 3]], 0, []⟩).2.files

theorem tensors_arrive_threeTensors :
    ∃ tensorDeviceOffsets tensorCopyChunks, calculateTensorDeviceOffsets threeMap threeIndex =
      .ok (tensorDeviceOffsets, tensorCopyChunks) ∧
      ∃ R s, toHostStart true 8 2 ⟨.allocated, threePartitions, some (replicate 3 []), none⟩ = .inr (R, s) ∧
      ∃ queues, dispatchToGpu (by decide : 0 < 8) 3 (s.run R (replicate 11 1 ++ replicate 11 0)).hostPtrVector.items
          (convertedMemCopyChunks Nat.cast_injective tensorCopyChunks) ⟨[(0, [⟨"first"⟩]), (1, [⟨"second"⟩])], by decide⟩
          ⟨[(0, []), (1, [])], by decide⟩ = .ok queues ∧
        ∃ o queue, offsetIn tensorDeviceOffsets 1 "b" = some o ∧ queues.get? 1 = some queue ∧
          ∀ memory, read (copyQueue (s.run R (replicate 11 1 ++ replicate 11 0)).hostBuffers memory queue 0) o 9 =
            [200, 201, 202, 203, 204, 205, 206, 207, 208] := by
  have hindex : ∀ e ∈ threeIndex.entries, e.1 ∈ ["a", "b", "c"] ∧
      (saveTensors .source .reliable (fun i => UInt8.ofNat i) threeTensors ["a", "b", "c"]
        ⟨[[1, 2, 3]], 0, []⟩).1 e.1 = some e.2.1 ∧
      (threeTensors e.1).2 = e.2.2 := by decide +kernel
  have hsizes : partitionSizes WriterSizes.source.kPartitionMaxSize (sizesOf (["a", "b", "c"].map threeTensors)) = [24] := by
    decide +kernel
  obtain ⟨offsets, chunks, hcalc, h⟩ :=
    @tensors_arrive 8 threePartitions .source .reliable (fun _ _ => rfl) (fun i => UInt8.ofNat i) threeTensors
    ["a", "b", "c"] (by unfold OneSize; decide) [[1, 2, 3]] (fun _ _ _ => inPlace_of_short hsizes (by decide)) threeIndex
      (fun name offset size hget => hindex _ (mem_entries_iff.2 hget))
    threeMap (by decide) (by decide) (by decide) 2 (by decide) (replicate 3 []) rfl (by decide +kernel) _ Nat.cast_injective
  have hkeys : [1, 0] = chunks.keys :=
    Except.ok.inj (congrArg (Except.map fun p : Dict Nat (Dict String Nat) × Dict Nat (List CopyChunk) => p.2.keys) hcalc)
  have hdevices : ∀ d ∈ (convertedMemCopyChunks Nat.cast_injective chunks).keys, d = (1 : Int) ∨ d = 0 := by
    intro d hd
    obtain ⟨pair, hpair, rfl⟩ := mem_map.1 hd
    obtain ⟨device, requests, hget, rfl⟩ := (mem_converted _).1 hpair
    have hdev := hkeys ▸ mem_keys_iff.2 ⟨_, hget⟩
    rw [mem_cons, mem_singleton] at hdev
    obtain rfl | rfl := hdev
    · exact .inl rfl
    · exact .inr rfl
  refine ⟨offsets, chunks, hcalc, _, _, rfl, ?_⟩
  obtain ⟨queues, hdis, harr⟩ := h _ _ rfl (replicate 11 1 ++ replicate 11 0) [0, 0] (by decide +kernel) rfl
    ⟨[(0, [⟨"first"⟩]), (1, [⟨"second"⟩])], by decide⟩ ⟨[(0, []), (1, [])], by decide⟩ (by
      intro d hd
      obtain rfl | rfl := hdevices d hd
      · exact ⟨⟨_, _, rfl⟩, rfl⟩
      · exact ⟨⟨_, _, rfl⟩, rfl⟩)
  obtain ⟨o, queue, ho, hq, hread⟩ := harr "b" 1 (by decide)
  exact ⟨queues, hdis, o, queue, ho, hq, hread⟩

end ServerlessLLM
