import ServerlessLLM.Host.Dispatch
import ServerlessLLM.Library.Sorting

/-!
# Every request is copied

Whatever the order in which the chunks become available, the batches in the queue of a device copy the bytes that are requested
for it, each once, and the consumer stops behind the last of them.
-/

namespace ServerlessLLM

open Buckets List Dict Prod GpuBatch MemCopyChunk

/-! ## Bytes -/

/-- Copies of single bytes: the byte of the host memory, the handle, and the byte behind it. -/
def byteCopies (src handle dst size : Nat) : List (Nat × Nat × Nat) :=
  (range size).map fun i => (src + i, handle, dst + i)

theorem byteCopies_add (src handle dst m n : Nat) :
    byteCopies src handle dst (m + n) = byteCopies src handle dst m ++ byteCopies (src + m) handle (dst + m) n := by
  simp [byteCopies, range_add, Nat.add_assoc]

/-- What is requested. -/
def MemCopyChunk.copies (r : MemCopyChunk) : List (Nat × Nat × Nat) :=
  byteCopies r.srcOffset r.handleIdx r.dstOffset r.size

def GpuBatch.copies (chunkSize : Nat) (b : GpuBatch) : List (Nat × Nat × Nat) :=
  byteCopies (b.chunkId * chunkSize + b.chunkOffset) b.handleIdx b.gpuOffset b.size

structure GpuBatch.InChunk (chunkSize numChunks : Nat) (b : GpuBatch) : Prop where
  pos : 0 < b.size
  chunk : b.chunkId < numChunks
  inside : b.chunkOffset + b.size ≤ chunkSize

/-! ## The pieces of a request -/

def toBatch (e : Nat × GpuChunk) : GpuBatch := ⟨e.1, e.2.chunkOffset, e.2.size, e.2.gpuOffset, e.2.handleIdx⟩

/-- The pieces with their chunks, when they go one behind the other from an offset on. -/
def piecesFrom (deviceId : Int) (handleIdx : Nat) : Nat → List (Nat × Nat × Nat) → List (Nat × GpuChunk)
  | _, [] => []
  | gpuOffset, p :: ps =>
    (p.1, ⟨deviceId, p.2.1, p.2.2, gpuOffset, handleIdx⟩) :: piecesFrom deviceId handleIdx (gpuOffset + p.2.2) ps

theorem deviceId_of_mem_piecesFrom {deviceId : Int} {handleIdx gpuOffset : Nat} {ps : List (Nat × Nat × Nat)}
    {e : Nat × GpuChunk} (h : e ∈ piecesFrom deviceId handleIdx gpuOffset ps) : e.2.deviceId = deviceId := by
  induction ps generalizing gpuOffset with
  | nil => cases h
  | cons p ps ih =>
    rcases mem_cons.1 h with rfl | h
    · rfl
    · exact ih h

theorem map_fst_piecesFrom (deviceId : Int) (handleIdx gpuOffset : Nat) (ps : List (Nat × Nat × Nat)) :
    (piecesFrom deviceId handleIdx gpuOffset ps).map fst = ps.map fst := by
  induction ps generalizing gpuOffset with
  | nil => rfl
  | cons p ps ih => rw [piecesFrom, map_cons, ih, map_cons]

section

variable {chunkSize : Nat}

def requestPieces (hpos : 0 < chunkSize) (deviceId : Int) (r : MemCopyChunk) : List (Nat × GpuChunk) :=
  piecesFrom deviceId r.handleIdx r.dstOffset (mapDataToChunks hpos r.srcOffset r.size)

/-- The first byte that is left, when the loop has come to a chunk. -/
def firstByte (chunkSize offset chunkId : Nat) : Nat := if chunkId = offset / chunkSize then offset else chunkId * chunkSize

theorem firstByte_eq (offset chunkId : Nat) :
    chunkId * chunkSize + (if chunkId = offset / chunkSize then offset % chunkSize else 0) =
      firstByte chunkSize offset chunkId := by
  unfold firstByte
  split
  · rename_i h
    rw [h, Nat.div_add_mod']
  · rfl

theorem firstByte_succ (hpos : 0 < chunkSize) (offset : Nat) {chunkId remainingData : Nat} (hge : offset / chunkSize ≤ chunkId)
    (h : chunkDataSize chunkSize offset chunkId remainingData < remainingData) :
    firstByte chunkSize offset chunkId + chunkDataSize chunkSize offset chunkId remainingData =
      firstByte chunkSize offset (chunkId + 1) := by
  have hmod := Nat.mod_lt offset hpos
  have hdiv := Nat.div_add_mod' offset chunkSize
  have hne : chunkId + 1 ≠ offset / chunkSize := by omega
  unfold firstByte chunkDataSize at *
  rw [if_neg hne, Nat.succ_mul]
  split
  · rename_i heq
    rw [if_pos heq] at h
    rw [heq]
    omega
  · rename_i heq
    rw [if_neg heq] at h
    omega

theorem chunkDataSize_le (hpos : 0 < chunkSize) (offset chunkId remainingData : Nat) :
    (if chunkId = offset / chunkSize then offset % chunkSize else 0) + chunkDataSize chunkSize offset chunkId remainingData ≤
      chunkSize ∧ chunkDataSize chunkSize offset chunkId remainingData ≤ remainingData := by
  have hmod := Nat.mod_lt offset hpos
  unfold chunkDataSize
  split
  · omega
  · omega

variable (hpos : 0 < chunkSize) (deviceId : Int) (handleIdx : Nat)

theorem copies_mapLoop (offset chunkId remainingData gpuOffset : Nat) (hge : offset / chunkSize ≤ chunkId) :
    (piecesFrom deviceId handleIdx gpuOffset (mapLoop hpos offset chunkId remainingData)).flatMap
        (fun e => (toBatch e).copies chunkSize) =
      byteCopies (firstByte chunkSize offset chunkId) handleIdx gpuOffset remainingData := by
  induction chunkId, remainingData using mapLoop.induct hpos offset generalizing gpuOffset with
  | case1 chunkId =>
    rw [mapLoop]
    rfl
  | case2 chunkId remainingData h ih =>
    rw [mapLoop, dif_neg h, piecesFrom, flatMap_cons, ih _ (by omega)]
    have hle := (chunkDataSize_le hpos offset chunkId remainingData).2
    simp only [toBatch, GpuBatch.copies, firstByte_eq]
    rcases Nat.lt_or_ge (chunkDataSize chunkSize offset chunkId remainingData) remainingData with hlt | hge'
    · rw [← firstByte_succ hpos offset hge hlt, ← byteCopies_add, Nat.add_sub_cancel' hle]
    · rw [Nat.sub_eq_zero_of_le hge', Nat.le_antisymm hle hge']
      simp [byteCopies]

theorem inChunk_mapLoop (offset numChunks chunkId remainingData gpuOffset : Nat) (hge : offset / chunkSize ≤ chunkId)
    (hfit : firstByte chunkSize offset chunkId + remainingData ≤ numChunks * chunkSize) :
    ∀ e ∈ piecesFrom deviceId handleIdx gpuOffset (mapLoop hpos offset chunkId remainingData),
      (toBatch e).InChunk chunkSize numChunks := by
  induction chunkId, remainingData using mapLoop.induct hpos offset generalizing gpuOffset with
  | case1 chunkId =>
    rw [mapLoop]
    simp [piecesFrom]
  | case2 chunkId remainingData h ih =>
    rw [mapLoop, dif_neg h, piecesFrom]
    obtain ⟨hins, hle⟩ := chunkDataSize_le hpos offset chunkId remainingData
    have hsz := chunkDataSize_pos hpos offset chunkId (Nat.pos_of_ne_zero h)
    intro e he
    rcases mem_cons.1 he with rfl | he
    · refine ⟨hsz, ?_, hins⟩
      rw [← firstByte_eq] at hfit
      refine Nat.lt_of_mul_lt_mul_right (a := chunkSize) ?_
      dsimp only [toBatch]
      omega
    · rcases Nat.lt_or_ge (chunkDataSize chunkSize offset chunkId remainingData) remainingData with hlt | hge'
      · refine ih _ (by omega) ?_ e he
        rw [← firstByte_succ hpos offset hge hlt]
        omega
      · rw [Nat.sub_eq_zero_of_le hge', mapLoop, dif_pos rfl] at he
        cases he

theorem copies_requestPieces (r : MemCopyChunk) :
    (requestPieces hpos deviceId r).flatMap (fun e => (toBatch e).copies chunkSize) = r.copies := by
  have h := copies_mapLoop hpos deviceId r.handleIdx r.srcOffset (r.srcOffset / chunkSize) r.size r.dstOffset (Nat.le_refl _)
  rwa [firstByte, if_pos rfl] at h

variable {numChunks : Nat}

theorem inChunk_requestPieces {r : MemCopyChunk} (h : r.srcOffset + r.size ≤ numChunks * chunkSize) :
    ∀ e ∈ requestPieces hpos deviceId r, (toBatch e).InChunk chunkSize numChunks :=
  inChunk_mapLoop hpos deviceId r.handleIdx r.srcOffset numChunks _ r.size r.dstOffset (Nat.le_refl _)
    (by rwa [firstByte, if_pos rfl])

/-! ## The first loop -/

theorem foldlM_cons_ok {ε σ α : Type} {f : σ → α → Except ε σ} {s s' : σ} {a : α} (h : f s a = .ok s') (l : List α) :
    (a :: l).foldlM f s = l.foldlM f s' := by
  rw [foldlM_cons, h]
  rfl

theorem foldlM_pushPiece {ps : List (Nat × Nat × Nat)} (hps : ∀ p ∈ ps, p.1 < numChunks)
    (l : List (Nat × GpuChunk)) {offsets : List Nat} {gpuOffset : Nat} (h : offsets[handleIdx]? = some gpuOffset) :
    ∃ offsets' : List Nat, offsets'.length = offsets.length ∧
      ps.foldlM (pushPiece deviceId handleIdx) ⟨buckets numChunks l, offsets⟩ =
        .ok ⟨buckets numChunks (l ++ piecesFrom deviceId handleIdx gpuOffset ps), offsets'⟩ := by
  induction ps generalizing l offsets gpuOffset with
  | nil => exact ⟨offsets, rfl, by rw [piecesFrom, append_nil]; rfl⟩
  | cons p ps ih =>
    have hchunk := hps p mem_cons_self
    have hlt : handleIdx < offsets.length := (List.getElem?_eq_some_iff.1 h).1
    have hpush : pushPiece deviceId handleIdx ⟨buckets numChunks l, offsets⟩ p =
        .ok ⟨buckets numChunks (l ++ [(p.1, ⟨deviceId, p.2.1, p.2.2, gpuOffset, handleIdx⟩)]),
          offsets.set handleIdx (gpuOffset + p.2.2)⟩ := by
      simp only [pushPiece, getElem?_buckets hchunk, h, set_buckets hchunk]
    obtain ⟨offsets', hlen, hfold⟩ := ih (fun p' hp' => hps p' (mem_cons_of_mem _ hp'))
      (l ++ [(p.1, ⟨deviceId, p.2.1, p.2.2, gpuOffset, handleIdx⟩)])
      (getElem?_set_self (a := gpuOffset + p.2.2) hlt)
    refine ⟨offsets', by rw [hlen, length_set], ?_⟩
    rw [foldlM_cons_ok hpush, hfold, piecesFrom, append_assoc, singleton_append]

/-- A request that fits the chunks and the handles of the device. -/
structure MemCopyChunk.Fits (chunkSize numChunks numHandles : Nat) (r : MemCopyChunk) : Prop where
  src : r.srcOffset + r.size ≤ numChunks * chunkSize
  handle : r.handleIdx < numHandles

theorem foldlM_mapRequest {rs : List MemCopyChunk} {offsets : List Nat}
    (hrs : ∀ r ∈ rs, r.Fits chunkSize numChunks offsets.length) (l : List (Nat × GpuChunk)) :
    ∃ offsets' : List Nat, rs.foldlM (mapRequest hpos deviceId) ⟨buckets numChunks l, offsets⟩ =
      .ok ⟨buckets numChunks (l ++ rs.flatMap (requestPieces hpos deviceId)), offsets'⟩ := by
  induction rs generalizing l offsets with
  | nil => exact ⟨offsets, by rw [flatMap_nil, append_nil]; rfl⟩
  | cons r rs ih =>
    obtain ⟨hsrc, hhdl⟩ := hrs r mem_cons_self
    have hchs : ∀ p ∈ mapDataToChunks hpos r.srcOffset r.size, p.1 < numChunks := by
      intro p hp
      have hfst : p.1 ∈ (requestPieces hpos deviceId r).map fst := by
        rw [requestPieces, map_fst_piecesFrom]
        exact mem_map_of_mem hp
      obtain ⟨e, he, heq⟩ := mem_map.1 hfst
      exact heq ▸ (inChunk_requestPieces hpos deviceId hsrc e he).chunk
    obtain ⟨offsets', hlen, hpush⟩ := foldlM_pushPiece deviceId r.handleIdx hchs l
      (getElem?_set_self (a := r.dstOffset) hhdl)
    rw [length_set] at hlen
    have hrest : ∀ r' ∈ rs, r'.Fits chunkSize numChunks offsets'.length := fun r' hr' => hlen ▸ hrs r' (mem_cons_of_mem _ hr')
    obtain ⟨offsets'', hfold⟩ := ih hrest (l ++ requestPieces hpos deviceId r)
    have hmap : mapRequest hpos deviceId ⟨buckets numChunks l, offsets⟩ r =
        .ok ⟨buckets numChunks (l ++ requestPieces hpos deviceId r), offsets'⟩ := by
      rw [mapRequest, if_pos hhdl, hpush]
      rfl
    exact ⟨offsets'', by rw [foldlM_cons_ok hmap, hfold, flatMap_cons, append_assoc]⟩

def DeviceFits (chunkSize numChunks : Nat) (memCopyHandles : Dict Int (List MemCopyHandle))
    (pair : Int × List MemCopyChunk) : Prop :=
  ∃ handles, memCopyHandles.get? pair.1 = some handles ∧ ∀ r ∈ pair.2, r.Fits chunkSize numChunks handles.length

def allPieces (hpos : 0 < chunkSize) (entries : List (Int × List MemCopyChunk)) : List (Nat × GpuChunk) :=
  entries.flatMap fun pair => pair.2.flatMap (requestPieces hpos pair.1)

theorem foldlM_mapDevice {memCopyHandles : Dict Int (List MemCopyHandle)}
    {entries : List (Int × List MemCopyChunk)} (h : ∀ pair ∈ entries, DeviceFits chunkSize numChunks memCopyHandles pair)
    (l : List (Nat × GpuChunk)) :
    entries.foldlM (mapDevice hpos memCopyHandles) (buckets numChunks l) =
      .ok (buckets numChunks (l ++ allPieces hpos entries)) := by
  induction entries generalizing l with
  | nil =>
    rw [allPieces, flatMap_nil, append_nil]
    rfl
  | cons pair entries ih =>
    obtain ⟨handles, hhs, hft⟩ := h pair mem_cons_self
    have hlen : (replicate handles.length 0).length = handles.length := length_replicate
    obtain ⟨offsets, hfold⟩ := foldlM_mapRequest hpos pair.1 (hlen.symm ▸ hft) l
    have hmap : mapDevice hpos memCopyHandles (buckets numChunks l) pair =
        .ok (buckets numChunks (l ++ pair.2.flatMap (requestPieces hpos pair.1))) := by
      simp only [mapDevice, hhs, hfold]
      rfl
    rw [foldlM_cons_ok hmap, ih fun pair' hp' => h pair' (mem_cons_of_mem _ hp'), allPieces, allPieces, flatMap_cons,
      append_assoc]

end

/-! ## The second loop -/

def batchesOf (d : Int) (l : List (Nat × GpuChunk)) : List GpuBatch := (l.filter fun e => e.2.deviceId = d).map toBatch

theorem batchesOf_append (d : Int) (l l' : List (Nat × GpuChunk)) : batchesOf d (l ++ l') = batchesOf d l ++
    batchesOf d l' := by
  simp [batchesOf]

/-- The queues, when the batches of some pieces were put into them. -/
def QueuesAfter (queues : Dict Int (List GpuBatch)) (l : List (Nat × GpuChunk)) (queues' : Dict Int (List GpuBatch)) : Prop :=
  ∀ d, queues'.get? d = (queues.get? d).map fun queue => queue ++ batchesOf d l

theorem foldlM_enqueuePiece {chunkId : Nat} {queues : Dict Int (List GpuBatch)} {cs : List (Nat × GpuChunk)}
    (hid : ∀ e ∈ cs, e.1 = chunkId) (hdev : ∀ e ∈ cs, e.2.deviceId ∈ queues.keys) {l : List (Nat × GpuChunk)}
    {queues' : Dict Int (List GpuBatch)} (h : QueuesAfter queues l queues') :
    ∃ queues'', (cs.map snd).foldlM (enqueuePiece chunkId) queues' = .ok queues'' ∧
      QueuesAfter queues (l ++ cs) queues'' := by
  induction cs generalizing l queues' with
  | nil => exact ⟨queues', rfl, by rwa [append_nil]⟩
  | cons e cs ih =>
    obtain ⟨queue, hque⟩ := mem_keys_iff.1 (hdev e mem_cons_self)
    have hget := h e.2.deviceId
    rw [hque, Option.map_some] at hget
    have hpush : enqueuePiece chunkId queues' e.2 =
        .ok (queues'.set e.2.deviceId ((queue ++ batchesOf e.2.deviceId l) ++ [toBatch e])) := by
      simp only [enqueuePiece, hget, toBatch, hid e mem_cons_self]
    have haft : QueuesAfter queues (l ++ [e])
        (queues'.set e.2.deviceId ((queue ++ batchesOf e.2.deviceId l) ++ [toBatch e])) := by
      intro d
      rw [get?_set, batchesOf_append]
      split
      · rename_i hd
        subst hd
        simp [hque, batchesOf]
      · rename_i hd
        simp [h d, batchesOf, Ne.symm hd]
    obtain ⟨queues'', hfold, hla⟩ := ih (fun e' he' => hid e' (mem_cons_of_mem _ he'))
      (fun e' he' => hdev e' (mem_cons_of_mem _ he')) haft
    refine ⟨queues'', ?_, ?_⟩
    · rw [map_cons, foldlM_cons_ok hpush, hfold]
    · rwa [append_assoc, singleton_append] at hla

theorem foldlM_enqueueChunk {numChunks : Nat} {queues : Dict Int (List GpuBatch)} {all : List (Nat × GpuChunk)}
    (hdev : ∀ e ∈ all, e.2.deviceId ∈ queues.keys) {arrived : List Batch} (harv : ∀ b ∈ arrived, b.chunkId < numChunks)
    {l : List (Nat × GpuChunk)} {queues' : Dict Int (List GpuBatch)} (h : QueuesAfter queues l queues') :
    ∃ queues'', arrived.foldlM (enqueueChunk (buckets numChunks all)) queues' = .ok queues'' ∧
      QueuesAfter queues (l ++ (arrived.map Batch.chunkId).flatMap (items all)) queues'' := by
  induction arrived generalizing l queues' with
  | nil => exact ⟨queues', rfl, by simpa using h⟩
  | cons b arrived ih =>
    obtain ⟨queues₁, hpush, haft⟩ := foldlM_enqueuePiece
      (fun e (he : e ∈ items all b.chunkId) => (mem_items.1 he).2) (fun e he => hdev e (mem_items.1 he).1) h
    have hchunk : enqueueChunk (buckets numChunks all) queues' b = .ok queues₁ := by
      simp only [enqueueChunk, getElem?_buckets (harv b mem_cons_self), hpush]
    obtain ⟨queues₂, hfold, hla⟩ := ih (fun b' hb' => harv b' (mem_cons_of_mem _ hb')) haft
    refine ⟨queues₂, by rw [foldlM_cons_ok hchunk, hfold], ?_⟩
    rwa [append_assoc, ← flatMap_cons, ← map_cons] at hla

/-- The queue of a device: data batches, each of some bytes of one chunk, that copy what is requested and nothing else; then one
batch of no bytes. The consumer copies the data batches. -/
structure Dispatched (chunkSize numChunks : Nat) (requests : List MemCopyChunk) (queue : List GpuBatch) : Prop where
  consumed : queue = consume queue ++ [GpuBatch.empty]
  inChunk : ∀ b ∈ consume queue, b.InChunk chunkSize numChunks
  copies : ((consume queue).flatMap (copies chunkSize)).Perm (requests.flatMap copies)

theorem consume_append_end {data : List GpuBatch} (h : ∀ b ∈ data, 0 < b.size) : consume (data ++ [GpuBatch.empty]) = data := by
  induction data with
  | nil => rfl
  | cons b data ih =>
    have hb := h b mem_cons_self
    rw [cons_append, consume, if_neg (by omega), ih fun b' hb' => h b' (mem_cons_of_mem _ hb')]

section

variable {chunkSize numChunks : Nat} (hpos : 0 < chunkSize)

theorem filter_requestPieces (d deviceId : Int) (rs : List MemCopyChunk) :
    (rs.flatMap (requestPieces hpos deviceId)).filter (fun e => e.2.deviceId = d) =
      if deviceId = d then rs.flatMap (requestPieces hpos deviceId) else [] := by
  have hdev : ∀ e ∈ rs.flatMap (requestPieces hpos deviceId), e.2.deviceId = deviceId := by
    intro e he
    obtain ⟨r, -, he⟩ := mem_flatMap.1 he
    exact deviceId_of_mem_piecesFrom he
  split
  · rename_i h
    exact filter_eq_self.2 fun e he => decide_eq_true ((hdev e he).trans h)
  · rename_i h
    refine filter_eq_nil_iff.2 ?_
    intro e he
    rw [decide_eq_true_iff, hdev e he]
    exact h

theorem filter_allPieces (d : Int) {entries : List (Int × List MemCopyChunk)} (hnd : (entries.map Prod.fst).Nodup) :
    (allPieces hpos entries).filter (fun e => e.2.deviceId = d) =
      ((entries.lookup d).getD []).flatMap (requestPieces hpos d) := by
  induction entries with
  | nil => rfl
  | cons pair entries ih =>
    rw [map_cons, nodup_cons] at hnd
    rw [allPieces, flatMap_cons, filter_append, filter_requestPieces, ← allPieces, ih hnd.2, lookup_cons]
    by_cases hd : pair.1 = d
    · subst hd
      rw [if_pos rfl, lookup_eq_none_iff.2 hnd.1]
      simp
    · have hbeq : (d == pair.1) = false := beq_false_of_ne (Ne.symm hd)
      rw [if_neg hd, nil_append, hbeq]

theorem copies_batchesOf (d : Int) (memCopyChunks : Dict Int (List MemCopyChunk)) :
    (batchesOf d (allPieces hpos memCopyChunks.entries)).flatMap (copies chunkSize) =
      ((memCopyChunks.get? d).getD []).flatMap copies := by
  rw [batchesOf, filter_allPieces hpos d memCopyChunks.nodup, flatMap_map, flatMap_assoc]
  exact flatMap_congr fun r _ => copies_requestPieces hpos d r

/-- When requests fit and their devices have queues, `DispatchToGpu` fills the empty queues as `Dispatched` says. -/
theorem dispatchToGpu_ok {hostPtrVector : List Batch} {memCopyChunks : Dict Int (List MemCopyChunk)}
    {memCopyHandles : Dict Int (List MemCopyHandle)} {gpuLoadingQueue : Dict Int (List GpuBatch)}
    (hfits : ∀ pair ∈ memCopyChunks.entries, DeviceFits chunkSize numChunks memCopyHandles pair)
    (hqueues : ∀ d ∈ memCopyChunks.keys, d ∈ gpuLoadingQueue.keys)
    (harrived : (hostPtrVector.map Batch.chunkId).Perm (range numChunks)) :
    ∃ queues, dispatchToGpu hpos numChunks hostPtrVector memCopyChunks memCopyHandles gpuLoadingQueue = .ok queues ∧
      ∀ d, gpuLoadingQueue.get? d = some [] → ∃ queue, queues.get? d = some queue ∧
        Dispatched chunkSize numChunks ((memCopyChunks.get? d).getD []) queue := by
  have hdev : ∀ e ∈ allPieces hpos memCopyChunks.entries, e.2.deviceId ∈ gpuLoadingQueue.keys ∧
      (toBatch e).InChunk chunkSize numChunks := by
    intro e he
    obtain ⟨pair, hpair, he⟩ := mem_flatMap.1 he
    obtain ⟨r, hr, he⟩ := mem_flatMap.1 he
    obtain ⟨handles, -, hrs⟩ := hfits pair hpair
    refine ⟨?_, inChunk_requestPieces hpos pair.1 (hrs r hr).src e he⟩
    rw [deviceId_of_mem_piecesFrom he]
    exact hqueues _ (mem_map_of_mem hpair)
  have hids : ∀ b ∈ hostPtrVector, b.chunkId < numChunks := by
    intro b hb
    exact mem_range.1 (harrived.subset (mem_map_of_mem hb))
  have hfst := foldlM_mapDevice hpos hfits []
  rw [buckets_nil, nil_append] at hfst
  have hstart : QueuesAfter gpuLoadingQueue [] gpuLoadingQueue := by
    intro d
    simp [batchesOf]
  obtain ⟨queues, hsec, haft⟩ := foldlM_enqueueChunk (fun e he => (hdev e he).1) hids hstart
  refine ⟨queues.mapValues fun _ queue => queue ++ [GpuBatch.empty], ?_, fun d hque => ?_⟩
  · rw [dispatchToGpu, hfst]
    exact congrArg (fun x => x >>= fun q : Dict Int (List GpuBatch) => pure (q.mapValues _)) hsec
  -- the buckets have all pieces, in another order
  have hpm : ((hostPtrVector.map Batch.chunkId).flatMap (items (allPieces hpos memCopyChunks.entries))).Perm
      (allPieces hpos memCopyChunks.entries) := by
    refine flatMap_items_perm (harrived.nodup_iff.2 nodup_range) ?_
    intro e he
    exact harrived.symm.subset (mem_range.2 (hdev e he).2.chunk)
  generalize (hostPtrVector.map Batch.chunkId).flatMap (items (allPieces hpos memCopyChunks.entries)) = sent at haft hpm
  have hbatches : (batchesOf d sent).Perm (batchesOf d (allPieces hpos memCopyChunks.entries)) := (hpm.filter _).map _
  have hdata : ∀ b ∈ batchesOf d sent, b.InChunk chunkSize numChunks := by
    intro b hb
    obtain ⟨e, he, rfl⟩ := mem_map.1 hb
    exact (hdev e (hpm.subset (mem_of_mem_filter he))).2
  have hconsume := consume_append_end fun b hb => (hdata b hb).pos
  refine ⟨batchesOf d sent ++ [GpuBatch.empty], ?_, ?_⟩
  · rw [get?_mapValues, haft d, hque]
    rfl
  · refine ⟨by rw [hconsume], by rwa [hconsume], ?_⟩
    rw [hconsume, ← copies_batchesOf hpos]
    exact hbatches.flatMap_right _

/-- For every chunk size, all devices with their requests and every order in which the chunks become available, `DispatchToGpu`
succeeds, and fills the queue of every device as `Dispatched` says. -/
theorem dispatchToGpu_dispatched (hostPtrVector : List Batch) (memCopyChunks : Dict Int (List MemCopyChunk))
    (memCopyHandles : Dict Int (List MemCopyHandle)) (gpuLoadingQueue : Dict Int (List GpuBatch))
    (hfits : ∀ pair ∈ memCopyChunks.entries, DeviceFits chunkSize numChunks memCopyHandles pair)
    (hqueues : ∀ d ∈ memCopyChunks.keys, d ∈ gpuLoadingQueue.keys)
    (hempty : ∀ d queue, gpuLoadingQueue.get? d = some queue → queue = [])
    (harrived : (hostPtrVector.map Batch.chunkId).Perm (range numChunks)) :
    ∃ queues, dispatchToGpu hpos numChunks hostPtrVector memCopyChunks memCopyHandles gpuLoadingQueue = .ok queues ∧
      ∀ d, d ∈ gpuLoadingQueue.keys → ∃ queue, queues.get? d = some queue ∧
        Dispatched chunkSize numChunks ((memCopyChunks.get? d).getD []) queue := by
  obtain ⟨queues, hok, hall⟩ := dispatchToGpu_ok hpos hfits hqueues harrived
  refine ⟨queues, hok, fun d hd => ?_⟩
  obtain ⟨queue, hque⟩ := mem_keys_iff.1 hd
  obtain rfl := hempty d queue hque
  exact hall d hque

end

/-- A request over two chunks and one of no bytes, for two devices. -/
def twoDevices : Dict Int (List MemCopyChunk) := (Dict.empty.set 0 [⟨2, 7, 1, 0⟩]).set 1 [⟨12, 0, 5, 1⟩]

def twoDeviceHandles : Dict Int (List MemCopyHandle) := (Dict.empty.set 0 [⟨"a"⟩]).set 1 [⟨"b"⟩, ⟨"c"⟩]

theorem dispatchToGpu_twoDevices :
    ∃ queues, dispatchToGpu (show 0 < 4 by decide) 3 [⟨2, 4⟩, ⟨0, 4⟩, ⟨1, 4⟩] twoDevices twoDeviceHandles
        ((Dict.empty.set 0 []).set 1 []) = .ok queues ∧
      ∀ d, d ∈ (((Dict.empty.set 0 []).set 1 []) : Dict Int (List GpuBatch)).keys → ∃ queue, queues.get? d = some queue ∧
        Dispatched 4 3 ((twoDevices.get? d).getD []) queue := by
  refine dispatchToGpu_dispatched (by decide) _ twoDevices twoDeviceHandles _ ?_ (by decide) ?_ (by decide)
  · intro pair hpair
    have hent : twoDevices.entries = [(0, [⟨2, 7, 1, 0⟩]), (1, [⟨12, 0, 5, 1⟩])] := by decide
    simp only [hent, mem_cons, not_mem_nil, or_false] at hpair
    rcases hpair with rfl | rfl
    · exact ⟨[⟨"a"⟩], rfl, by simpa using ⟨by decide, by decide⟩⟩
    · exact ⟨[⟨"b"⟩, ⟨"c"⟩], rfl, by simpa using ⟨by decide, by decide⟩⟩
  · intro d queue h
    simp only [get?_set, get?_empty] at h
    split at h
    · simpa using h.symm
    · split at h
      · simpa using h.symm
      · cases h

end ServerlessLLM
