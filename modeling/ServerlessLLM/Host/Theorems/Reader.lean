import ServerlessLLM.Host.Reader

/-!
# The chunks are read

When the threads of `ToHost` have returned 0, every chunk has its bytes and is in the vector once, whatever the order of their
steps.
-/

namespace ServerlessLLM

open List Function

/-! ## Buffers -/

theorem take_writeAt_zero (buffer bytes : List UInt8) : (writeAt buffer 0 bytes).take bytes.length = bytes := by
  simp [writeAt]

theorem take_writeAt {buffer : List UInt8} {offset : Nat} (h : offset ≤ buffer.length) (bytes : List UInt8) :
    (writeAt buffer offset bytes).take (offset + bytes.length) = buffer.take offset ++ bytes := by
  have hlen : (buffer.take offset ++ bytes).length = offset + bytes.length := by
    rw [length_append, length_take, Nat.min_eq_left h]
  rw [writeAt, ← hlen, take_left]

theorem length_pread (file : List UInt8) (size offset : Nat) :
    (pread file size offset).length = min size (file.length - offset) := by
  simp [pread]

namespace ReadPlan

variable (R : ReadPlan)

/-! ## Positions in the partitions -/

/-- The partitions, one behind the other. -/
def data : List UInt8 := R.partitions.flatten

def chunkBytes (chunkIdx : Nat) : List UInt8 := (R.data.drop (chunkIdx * R.chunkSize)).take R.chunkSize

def before (partitionId : Nat) : Nat := (R.partitionSizes.take partitionId).sum

theorem length_data : R.data.length = R.modelSize := by simp [data, modelSize, partitionSizes, length_flatten]

theorem length_chunkBytes (chunkIdx : Nat) : (R.chunkBytes chunkIdx).length = R.sizeOf chunkIdx := by
  rw [chunkBytes, length_take, length_drop, length_data, sizeOf]

theorem chunkBytes_eq (chunkIdx : Nat) :
    R.chunkBytes chunkIdx = (R.data.drop (chunkIdx * R.chunkSize)).take (R.sizeOf chunkIdx) := by
  rw [chunkBytes, take_eq_take_iff, length_drop, length_data, sizeOf]
  omega

theorem before_length : R.before R.partitions.length = R.modelSize := by
  rw [before, modelSize, take_of_length_le]
  simp [partitionSizes]

variable {R}

theorem getElem?_partitionSizes {partitionId : Nat} (h : partitionId < R.partitions.length) :
    R.partitionSizes[partitionId]? = some (R.file partitionId).length := by
  simp [partitionSizes, file, h]

theorem before_succ {partitionId : Nat} (h : partitionId < R.partitions.length) :
    R.before (partitionId + 1) = R.before partitionId + (R.file partitionId).length := by
  rw [before, take_add_one, getElem?_partitionSizes h]
  simp [before]

/-- The offset in the file of a partition is a position in the partitions, one behind the other. -/
structure At (R : ReadPlan) (partitionId fileOffset pos : Nat) : Prop where
  lt : partitionId < R.partitions.length
  le : fileOffset ≤ (R.file partitionId).length
  eq : R.before partitionId + fileOffset = pos

namespace At

variable {partitionId fileOffset pos : Nat} (h : R.At partitionId fileOffset pos)

include h

theorem drop_data :
    R.data.drop pos = (R.file partitionId).drop fileOffset ++ (R.partitions.drop (partitionId + 1)).flatten := by
  have hlt := h.lt
  have hfile : R.partitions[partitionId] = R.file partitionId := by simp [file, hlt]
  have hspl : R.data = (R.partitions.take partitionId).flatten ++
      (R.file partitionId ++ (R.partitions.drop (partitionId + 1)).flatten) := by
    conv_lhs => rw [data, ← take_append_drop partitionId R.partitions, drop_eq_getElem_cons h.lt]
    rw [flatten_append, flatten_cons, hfile]
  have hbef : (R.partitions.take partitionId).flatten.length = R.before partitionId := by
    simp [before, partitionSizes, length_flatten, map_take]
  rw [hspl, ← h.eq, ← hbef, drop_length_add_append, drop_append_of_le_length h.le]

theorem pread_eq (size : Nat) :
    pread (R.file partitionId) size fileOffset =
      (R.data.drop pos).take (min size ((R.file partitionId).length - fileOffset)) := by
  rw [h.drop_data, take_append_of_le_length (by rw [length_drop]; omega), pread, take_eq_take_iff, length_drop]
  omega

theorem advance {k : Nat} (hk : k ≤ (R.file partitionId).length - fileOffset) :
    R.At partitionId (fileOffset + k) (pos + k) := by
  have hle := h.le
  have heq := h.eq
  exact ⟨h.lt, by omega, by omega⟩

theorem next (hnx : partitionId + 1 < R.partitions.length) :
    R.At (partitionId + 1) 0 (pos + ((R.file partitionId).length - fileOffset)) := by
  have hle := h.le
  have heq := h.eq
  refine ⟨hnx, Nat.zero_le _, ?_⟩
  rw [before_succ h.lt]
  omega

theorem le_modelSize : pos ≤ R.modelSize := by
  have hle := h.le
  have heq := h.eq
  have hsucc := before_succ h.lt
  have htake := congrArg sum (take_append_drop (partitionId + 1) R.partitionSizes)
  rw [sum_append, ← before, ← modelSize] at htake
  omega

theorem last (hla : ¬partitionId + 1 < R.partitions.length) : (R.file partitionId).length - fileOffset = R.modelSize - pos := by
  have hle := h.le
  have heq := h.eq
  have hlt := h.lt
  have hend : partitionId + 1 = R.partitions.length := by omega
  have hsucc := before_succ h.lt
  rw [hend, before_length] at hsucc
  omega

end At

theorem seek_spec (sizes : List Nat) (offset : Nat) :
    (seek sizes offset).1 ≤ sizes.length ∧ (sizes.take (seek sizes offset).1).sum + (seek sizes offset).2 = offset ∧
      ∀ size ∈ sizes[(seek sizes offset).1]?, (seek sizes offset).2 < size := by
  induction sizes generalizing offset with
  | nil => simp [seek]
  | cons size sizes ih =>
    rw [seek]
    split
    · rename_i h
      obtain ⟨h1, h2, h3⟩ := ih (offset - size)
      refine ⟨Nat.succ_le_succ h1, ?_, ?_⟩
      · rw [take_succ_cons, sum_cons]
        omega
      · rwa [getElem?_cons_succ]
    · rename_i h
      refine ⟨Nat.zero_le _, by simp, ?_⟩
      rintro size' hsz
      rw [getElem?_cons_zero, Option.mem_some_iff] at hsz
      omega

/-! ## The chunks of a thread -/

/-- The chunks of the pinned memory are chunks of the model. -/
structure Fits (R : ReadPlan) : Prop where
  chunkSize_pos : 0 < R.chunkSize
  numThreads_pos : 0 < R.numThreads
  numChunks_le : R.numChunks ≤ (R.modelSize + R.chunkSize - 1) / R.chunkSize

/-- Every partition but the last has the bytes of a chunk. -/
def Wide (R : ReadPlan) : Prop := ∀ partitionId, partitionId + 1 < R.partitions.length →
    R.chunkSize ≤ (R.file partitionId).length

def first (R : ReadPlan) (t : Nat) : Nat := t * R.chunkPerThread

def last (R : ReadPlan) (t : Nat) : Nat := max (R.first t) (min ((t + 1) * R.chunkPerThread) R.numChunks)

theorem Fits.chunk_lt (h : R.Fits) {i : Nat} (hi : i < R.numChunks) : i * R.chunkSize < R.modelSize := by
  have hle := (Nat.le_div_iff_mul_le h.chunkSize_pos).1 (Nat.lt_of_lt_of_le hi h.numChunks_le)
  rw [Nat.succ_mul] at hle
  have := h.chunkSize_pos
  omega

theorem Fits.numChunks_le_of_le (h : R.Fits) {i : Nat} (hi : R.modelSize ≤ i * R.chunkSize) : R.numChunks ≤ i := by
  by_contra hlt
  have := h.chunk_lt (Nat.lt_of_not_le hlt)
  omega

theorem first_le_last (R : ReadPlan) (t : Nat) : R.first t ≤ R.last t := Nat.le_max_left _ _

theorem lt_last_iff {t i : Nat} (h : R.first t ≤ i) : i < R.last t ↔ i < (t + 1) * R.chunkPerThread ∧ i < R.numChunks := by
  unfold last
  omega

theorem apart {t t' i : Nat} (h1 : R.first t ≤ i) (h2 : i < R.last t) (h1' : R.first t' ≤ i)
    (h2' : i < R.last t') : t = t' := by
  have h := ((lt_last_iff h1).1 h2).1
  have h' := ((lt_last_iff h1').1 h2').1
  unfold first at h1 h1'
  rcases Nat.lt_trichotomy t t' with hlt | heq | hgt
  · have := Nat.mul_le_mul_right R.chunkPerThread (show t + 1 ≤ t' from hlt)
    omega
  · exact heq
  · have := Nat.mul_le_mul_right R.chunkPerThread (show t' + 1 ≤ t from hgt)
    omega

theorem Fits.owner (h : R.Fits) {i : Nat} (hi : i < R.numChunks) : ∃ t < R.numThreads, R.first t ≤ i ∧ i < R.last t := by
  have hpos := h.numThreads_pos
  have hall : R.numChunks ≤ R.numThreads * R.chunkPerThread := by
    have := Nat.lt_mul_div_succ (R.numChunks + R.numThreads - 1) hpos
    rw [chunkPerThread]
    rw [Nat.mul_add, Nat.mul_one] at this
    omega
  have hper : 0 < R.chunkPerThread := Nat.pos_of_ne_zero fun h0 => by rw [h0, Nat.mul_zero] at hall; omega
  have hfst : R.first (i / R.chunkPerThread) ≤ i := Nat.div_mul_le_self i R.chunkPerThread
  refine ⟨i / R.chunkPerThread, ?_, hfst, (lt_last_iff hfst).2 ⟨?_, hi⟩⟩
  · exact (Nat.div_lt_iff_lt_mul hper).2 (Nat.lt_of_lt_of_le hi hall)
  · have := Nat.lt_mul_div_succ i hper
    rwa [Nat.mul_comm] at this

def Filled (R : ReadPlan) (buffers : List (List UInt8)) (i : Nat) : Prop :=
  (buffers.getD i []).take (R.sizeOf i) = R.chunkBytes i

inductive ThreadAt (R : ReadPlan) (t : Nat) (buffers : List (List UInt8)) : Nat → ReaderThread → Prop
  | started : ThreadAt R t buffers (R.first t) .started
  | atChunk {partitionId fileOffset c : Nat} (hat : R.At partitionId fileOffset (min (c * R.chunkSize) R.modelSize)) :
      ThreadAt R t buffers c (.atChunk partitionId fileOffset c)
  | inNext {partitionId c ret : Nat} (hlt : c < R.last t) (hret : ret < R.sizeOf c)
      (hat : R.At partitionId 0 (c * R.chunkSize + ret)) (hbytes : (buffers.getD c []).take ret = (R.chunkBytes c).take ret) :
      ThreadAt R t buffers c (.inNext partitionId c (R.sizeOf c) ret)
  | hasChunk {partitionId fileOffset c : Nat} (hlt : c < R.last t)
      (hat : R.At partitionId fileOffset (c * R.chunkSize + R.sizeOf c)) (hfilled : R.Filled buffers c) :
      ThreadAt R t buffers c (.hasChunk partitionId fileOffset c (R.sizeOf c))
  | returned {c : Nat} {ret : Int} (hdone : ret = 0 → c = R.last t) (hwide : R.Wide → ret = 0) :
      ThreadAt R t buffers c (.returned ret)

theorem ThreadAt.congr {t c : Nat} {buffers buffers' : List (List UInt8)} {thread : ReaderThread}
    (h : ThreadAt R t buffers c thread) (hfst : R.first t ≤ c)
    (hsa : ∀ i, R.first t ≤ i → i < R.last t → buffers'.getD i [] = buffers.getD i []) : ThreadAt R t buffers' c thread := by
  cases h with
  | started => exact .started
  | atChunk hat => exact .atChunk hat
  | inNext hlt hret hat hbytes => exact .inNext hlt hret hat (by rwa [hsa c hfst hlt])
  | hasChunk hlt hat hfilled =>
    refine .hasChunk hlt hat ?_
    rwa [Filled, hsa c hfst hlt]
  | returned hdone hwide => exact .returned hdone hwide

theorem ThreadAt.of_returned {t c : Nat} {buffers : List (List UInt8)} {ret : Int}
    (h : ThreadAt R t buffers c (.returned ret)) : (ret = 0 → c = R.last t) ∧ (R.Wide → ret = 0) := by
  cases h with
  | returned hdone hwide => exact ⟨hdone, hwide⟩

/-! ## A step of a thread -/

inductive StepFrom (R : ReadPlan) (t : Nat) (buffers : List (List UInt8)) (c : Nat) : ReaderThread × ReaderEffect → Prop
  | move {thread : ReaderThread} (h : ThreadAt R t buffers c thread) : StepFrom R t buffers c (thread, .none)
  | write {thread : ReaderThread} {offset : Nat} {bytes : List UInt8} (hlt : c < R.last t)
      (h : ∀ buffers' : List (List UInt8), buffers'.getD c [] = writeAt (buffers.getD c []) offset bytes →
        ThreadAt R t buffers' c thread) : StepFrom R t buffers c (thread, .write c offset bytes)
  | enqueue {thread : ReaderThread} (hlt : c < R.last t) (hfilled : R.Filled buffers c)
      (h : ThreadAt R t buffers (c + 1) thread) : StepFrom R t buffers c (thread, .enqueue c (R.sizeOf c))

section

variable (hR : R.Fits) {t c : Nat} (buffers : List (List UInt8))

include hR

theorem Fits.stepFrom_started (state : MemoryState) : StepFrom R t buffers (R.first t) (threadStep R state t .started) := by
  obtain ⟨h1, h2, h3⟩ := seek_spec R.partitionSizes (R.first t * R.chunkSize)
  have hlen : R.partitionSizes.length = R.partitions.length := by simp [partitionSizes]
  simp only [threadStep, show t * R.chunkPerThread = R.first t from rfl]
  split
  · -- all bytes are before the first chunk of the thread
    rename_i hge
    have hend : (seek R.partitionSizes (R.first t * R.chunkSize)).1 = R.partitions.length := by omega
    rw [hend, ← before, before_length] at h2
    have hnum := hR.numChunks_le_of_le (i := R.first t) (by omega)
    refine .move (.returned ?_ fun _ => rfl)
    intro _
    unfold last
    omega
  · rename_i hlt
    have hlt' := Nat.lt_of_not_le hlt
    have hsz := h3 _ (getElem?_partitionSizes hlt')
    have hat : R.At (seek R.partitionSizes (R.first t * R.chunkSize)).1 (seek R.partitionSizes (R.first t * R.chunkSize)).2
        (R.first t * R.chunkSize) := ⟨hlt', Nat.le_of_lt hsz, h2⟩
    exact .move (.atChunk (by rwa [Nat.min_eq_left hat.le_modelSize]))

theorem Fits.stepFrom_atChunk {state : MemoryState} (hsta : state ≠ .cancelled) (hfst : R.first t ≤ c) (hla : c ≤ R.last t)
    {partitionId fileOffset : Nat} (hat : R.At partitionId fileOffset (min (c * R.chunkSize) R.modelSize)) :
    StepFrom R t buffers c (threadStep R state t (.atChunk partitionId fileOffset c)) := by
  simp only [threadStep, ← lt_last_iff hfst, if_neg hsta]
  split
  · rename_i hlt
    have hchunk := hR.chunk_lt ((lt_last_iff hfst).1 hlt).2
    rw [Nat.min_eq_left (Nat.le_of_lt hchunk)] at hat
    have hrd := hat.pread_eq (R.sizeOf c)
    have hlen := length_pread (R.file partitionId) (R.sizeOf c) fileOffset
    split
    · -- the partition has the whole chunk
      rename_i hfull
      rw [hfull] at hlen ⊢
      rw [← hlen] at hrd
      have htake := take_writeAt_zero (buffers.getD c []) (pread (R.file partitionId) (R.sizeOf c) fileOffset)
      refine .write hlt fun buffers' hbuf => .hasChunk hlt (hat.advance (by omega)) ?_
      rw [hfull] at htake
      rw [Filled, hbuf, htake, hrd, chunkBytes_eq]
    · rename_i hshort
      have hret : (pread (R.file partitionId) (R.sizeOf c) fileOffset).length =
          (R.file partitionId).length - fileOffset := by omega
      split
      · rename_i hnx
        refine .write hlt fun buffers' hbuf => .inNext hlt (by omega) ?_ ?_
        · rw [hret]
          exact hat.next hnx
        · rw [hbuf, take_writeAt_zero, hlen, hrd, chunkBytes_eq, take_take]
          congr 1
          omega
      · -- the last partition has all that is left
        rename_i hnx
        have hrs := hat.last hnx
        have hsz : R.sizeOf c ≤ R.modelSize - c * R.chunkSize := Nat.min_le_right _ _
        omega
  · rename_i hge
    exact .move (.returned (fun _ => by omega) fun _ => rfl)

omit hR in
theorem stepFrom_inNext (state : MemoryState) (hlt : c < R.last t) {partitionId ret : Nat} (hret : ret < R.sizeOf c)
    (hat : R.At partitionId 0 (c * R.chunkSize + ret)) (hbytes : (buffers.getD c []).take ret = (R.chunkBytes c).take ret) :
    StepFrom R t buffers c (threadStep R state t (.inNext partitionId c (R.sizeOf c) ret)) := by
  have hrd := hat.pread_eq (R.sizeOf c - ret)
  have hlen := length_pread (R.file partitionId) (R.sizeOf c - ret) 0
  have hbuffer : ret ≤ (buffers.getD c []).length := by
    have h := congrArg length hbytes
    rw [length_take, length_take, length_chunkBytes] at h
    omega
  simp only [threadStep]
  split
  · -- a short partition, which is not the last one
    rename_i hshort
    refine .write hlt fun buffers' _ => .returned (fun h => absurd h (by decide)) ?_
    intro hwide
    exfalso
    have hsz : R.sizeOf c ≤ R.chunkSize := Nat.min_le_left _ _
    have hsz' : R.sizeOf c ≤ R.modelSize - c * R.chunkSize := Nat.min_le_right _ _
    by_cases hnx : partitionId + 1 < R.partitions.length
    · have := hwide partitionId hnx
      omega
    · have := hat.last hnx
      omega
  · rename_i hfull
    have hfull' := not_not.1 hfull
    refine .write hlt fun buffers' hbuf => .hasChunk hlt ?_ ?_
    · have h := hat.advance (k := R.sizeOf c - ret) (by omega)
      rw [hfull']
      rwa [Nat.add_assoc, Nat.add_sub_cancel' (Nat.le_of_lt hret)] at h
    · have htake := take_writeAt hbuffer (pread (R.file partitionId) (R.sizeOf c - ret) 0)
      have hspl := take_add (l := R.data.drop (c * R.chunkSize)) (i := ret) (j := R.sizeOf c - ret)
      rw [hfull', Nat.add_sub_cancel' (Nat.le_of_lt hret)] at htake
      rw [drop_drop, Nat.add_sub_cancel' (Nat.le_of_lt hret)] at hspl
      rw [Filled, hbuf, htake, hbytes, hrd, ← hlen, hfull', chunkBytes_eq, take_take,
        Nat.min_eq_left (Nat.le_of_lt hret), ← hspl]

theorem Fits.stepFrom_hasChunk (state : MemoryState) (hfst : R.first t ≤ c) (hlt : c < R.last t) {partitionId fileOffset : Nat}
    (hat : R.At partitionId fileOffset (c * R.chunkSize + R.sizeOf c)) (hfilled : R.Filled buffers c) :
    StepFrom R t buffers c (threadStep R state t (.hasChunk partitionId fileOffset c (R.sizeOf c))) := by
  refine .enqueue hlt hfilled (.atChunk ?_)
  have hchunk := hR.chunk_lt ((lt_last_iff hfst).1 hlt).2
  have hpos : c * R.chunkSize + R.sizeOf c = min ((c + 1) * R.chunkSize) R.modelSize := by
    rw [sizeOf, Nat.succ_mul]
    omega
  rwa [← hpos]

theorem Fits.stepFrom {state : MemoryState} (hsta : state ≠ .cancelled) (hfst : R.first t ≤ c) (hla : c ≤ R.last t)
    {thread : ReaderThread} (h : ThreadAt R t buffers c thread) : StepFrom R t buffers c (threadStep R state t thread) := by
  cases h with
  | started => exact hR.stepFrom_started buffers state
  | atChunk hat => exact hR.stepFrom_atChunk buffers hsta hfst hla hat
  | inNext hlt hret hat hbytes => exact stepFrom_inNext buffers state hlt hret hat hbytes
  | hasChunk hlt hat hfilled => exact hR.stepFrom_hasChunk buffers state hfst hlt hat hfilled
  | returned hdone hwide => exact .move (.returned hdone hwide)

end

end ReadPlan

end ServerlessLLM

/-! ## The invariant of the threads -/

namespace ServerlessLLM

open ReadPlan List Function

/-- The threads are at the chunks `c`. -/
structure ReadInv (R : ReadPlan) (s : ReadState) (c : Nat → Nat) : Prop where
  running : s.state ≠ .cancelled
  threads : s.threads.length = R.numThreads
  buffers : s.hostBuffers.length = R.numChunks
  bounds : ∀ t, R.first t ≤ c t ∧ c t ≤ R.last t
  threadAt : ∀ t thread, s.threads[t]? = some thread → ThreadAt R t s.hostBuffers (c t) thread
  filled : ∀ t i, R.first t ≤ i → i < c t → R.Filled s.hostBuffers i
  keys : s.hostPtrVector.keys = s.hostPtrVector.items.map Batch.chunkId
  nodup : s.hostPtrVector.keys.Nodup
  sizes : ∀ b ∈ s.hostPtrVector.items, b.size = R.sizeOf b.chunkId
  queued : ∀ i, i ∈ s.hostPtrVector.keys ↔ ∃ t < R.numThreads, R.first t ≤ i ∧ i < c t

def startState (R : ReadPlan) (buffers : List (List UInt8)) : ReadState :=
  ⟨.loading, replicate R.numThreads .started, buffers, .new R.numChunks⟩

theorem readInv_start {R : ReadPlan} {buffers : List (List UInt8)} (h : buffers.length = R.numChunks) :
    ReadInv R (startState R buffers) R.first where
  running := by simp [startState]
  threads := by simp [startState]
  buffers := h
  bounds t := ⟨Nat.le_refl _, R.first_le_last t⟩
  threadAt t thread hthr := by
    obtain rfl := eq_of_mem_replicate (mem_of_getElem? hthr)
    exact .started
  filled t i h1 h2 := absurd h2 (Nat.not_lt.2 h1)
  keys := rfl
  nodup := nodup_nil
  sizes b hb := by simp [startState, ConcurrentVector.new] at hb
  queued i := by
    simp only [startState, ConcurrentVector.new, not_mem_nil, false_iff]
    rintro ⟨t, -, h1, h2⟩
    omega

theorem eq_or_of_getElem?_set {α : Type} {l : List α} {t t' : Nat} {a b : α} (h : (l.set t a)[t']? = some b) :
    (t' = t ∧ b = a) ∨ (t' ≠ t ∧ l[t']? = some b) := by
  rw [getElem?_set] at h
  split at h
  · rename_i heq
    split at h
    · exact .inl ⟨heq.symm, (Option.some.inj h).symm⟩
    · cases h
  · rename_i hne
    exact .inr ⟨Ne.symm hne, h⟩

namespace ReadInv

variable {R : ReadPlan} {s : ReadState} {c : Nat → Nat} (h : ReadInv R s c)

include h

variable {t : Nat} {thread : ReaderThread}

theorem lt_numThreads (hthr : s.threads[t]? = some thread) : t < R.numThreads :=
  h.threads ▸ (List.getElem?_eq_some_iff.1 hthr).1

theorem move (hat : ThreadAt R t s.hostBuffers (c t) thread) : ReadInv R { s with threads := s.threads.set t thread } c where
  running := h.running
  threads := by rw [length_set, h.threads]
  buffers := h.buffers
  bounds := h.bounds
  threadAt t' thread' hthr := by
    rcases eq_or_of_getElem?_set hthr with ⟨rfl, rfl⟩ | ⟨-, hthr⟩
    · exact hat
    · exact h.threadAt t' thread' hthr
  filled := h.filled
  keys := h.keys
  nodup := h.nodup
  sizes := h.sizes
  queued := h.queued

theorem write {offset : Nat} {bytes : List UInt8} (hlt : c t < R.last t)
    (hat : ∀ buffers' : List (List UInt8), buffers'.getD (c t) [] = writeAt (s.hostBuffers.getD (c t) []) offset bytes →
      ThreadAt R t buffers' (c t) thread) :
    ReadInv R { s.apply (.write (c t) offset bytes) with threads := s.threads.set t thread } c := by
  have hchunk : c t < s.hostBuffers.length := by
    rw [h.buffers]
    exact ((lt_last_iff (h.bounds t).1).1 hlt).2
  have hwritten : (s.hostBuffers.modify (c t) fun b => writeAt b offset bytes).getD (c t) [] =
      writeAt (s.hostBuffers.getD (c t) []) offset bytes := by simp [getD, hchunk]
  have hother : ∀ i, i ≠ c t → (s.hostBuffers.modify (c t) fun b => writeAt b offset bytes).getD i [] =
      s.hostBuffers.getD i [] := by
    intro i hi
    simp [getD, Ne.symm hi]
  refine ⟨h.running, by rw [length_set, h.threads], ?_, h.bounds, ?_, ?_, h.keys, h.nodup, h.sizes, h.queued⟩
  · simp [ReadState.apply, h.buffers]
  · intro t' thread' hthr
    rcases eq_or_of_getElem?_set hthr with ⟨rfl, rfl⟩ | ⟨hne, hthr⟩
    · exact hat _ hwritten
    · -- the chunks of another thread are other ones
      refine (h.threadAt t' thread' hthr).congr (h.bounds t').1 fun i h1 h2 => hother i ?_
      rintro rfl
      exact hne (apart (h.bounds t).1 hlt h1 h2).symm
  · intro t' i h1 h2
    have hne : i ≠ c t := by
      rintro rfl
      have := apart (h.bounds t).1 hlt h1 (Nat.lt_of_lt_of_le h2 (h.bounds t').2)
      subst this
      omega
    rw [Filled]
    exact (congrArg _ (hother i hne)).trans (h.filled t' i h1 h2)

theorem enqueue {t : Nat} (ht : t < R.numThreads) {thread : ReaderThread} (hlt : c t < R.last t)
    (hfil : R.Filled s.hostBuffers (c t)) (hat : ThreadAt R t s.hostBuffers (c t + 1) thread) :
    ReadInv R { s.apply (.enqueue (c t) (R.sizeOf (c t))) with threads := s.threads.set t thread }
      (update c t (c t + 1)) := by
  have hfr : c t ∉ s.hostPtrVector.keys := by
    intro hmem
    obtain ⟨t', -, h1, h2⟩ := (h.queued _).1 hmem
    have := apart (h.bounds t).1 hlt h1 (Nat.lt_of_lt_of_le h2 (h.bounds t').2)
    subst this
    omega
  have hvector : s.hostPtrVector.enqueue (c t) ⟨c t, R.sizeOf (c t)⟩ =
      { s.hostPtrVector with
        items := s.hostPtrVector.items ++ [⟨c t, R.sizeOf (c t)⟩], keys := s.hostPtrVector.keys ++ [c t] } := if_neg hfr
  have hnx : ∀ t' i, i < update c t (c t + 1) t' ↔ i < c t' ∨ (t' = t ∧ i = c t) := by
    intro t' i
    by_cases heq : t' = t
    · subst heq
      rw [update_self]
      omega
    · rw [update_of_ne heq]
      simp [heq]
  simp only [ReadState.apply, hvector]
  refine ⟨h.running, by rw [length_set, h.threads], h.buffers, ?_, ?_, ?_, ?_, ?_, ?_, ?_⟩
  · intro t'
    by_cases heq : t' = t
    · subst heq
      rw [update_self]
      have := (h.bounds t').1
      omega
    · rw [update_of_ne heq]
      exact h.bounds t'
  · intro t' thread' hthr
    rcases eq_or_of_getElem?_set hthr with ⟨rfl, rfl⟩ | ⟨hne, hthr⟩
    · rwa [update_self]
    · rw [update_of_ne hne]
      exact h.threadAt t' thread' hthr
  · intro t' i h1 h2
    rcases (hnx t' i).1 h2 with h2 | ⟨-, rfl⟩
    · exact h.filled t' i h1 h2
    · exact hfil
  · rw [map_append, h.keys]
    rfl
  · exact nodup_append.2 ⟨h.nodup, nodup_singleton _, fun i hi j hj hij => hfr (by simp_all)⟩
  · intro b hb
    rcases mem_append.1 hb with hb | hb
    · exact h.sizes b hb
    · rw [mem_singleton.1 hb]
  · intro i
    simp only [mem_append, mem_singleton, h.queued, hnx]
    constructor
    · rintro (⟨t', ht', h1, h2⟩ | rfl)
      · exact ⟨t', ht', h1, .inl h2⟩
      · exact ⟨t, ht, (h.bounds t).1, .inr ⟨rfl, rfl⟩⟩
    · rintro ⟨t', ht', h1, h2 | ⟨rfl, rfl⟩⟩
      · exact .inl ⟨t', ht', h1, h2⟩
      · exact .inr rfl

theorem step (hR : R.Fits) (t : Nat) : ∃ c', ReadInv R (s.step R t) c' := by
  unfold ReadState.step
  split
  · exact ⟨c, h⟩
  · rename_i thread hthr
    have hst := hR.stepFrom s.hostBuffers h.running (h.bounds t).1 (h.bounds t).2 (h.threadAt t thread hthr)
    generalize threadStep R s.state t thread = r at hst
    cases hst with
    | move hat => exact ⟨c, h.move hat⟩
    | write hlt hat => exact ⟨c, h.write hlt hat⟩
    | enqueue hlt hfil hat => exact ⟨_, h.enqueue (h.lt_numThreads hthr) hlt hfil hat⟩

theorem run (hR : R.Fits) (schedule : List Nat) : ∃ c', ReadInv R (s.run R schedule) c' := by
  induction schedule generalizing s c with
  | nil => exact ⟨c, h⟩
  | cons t schedule ih =>
    obtain ⟨c', hc⟩ := h.step hR t
    exact ih hc

end ReadInv

/-! ## The end of the threads -/

theorem result_eq_some {thread : ReaderThread} {ret : Int} : thread.result = some ret ↔ thread = .returned ret := by
  cases thread <;> simp [ReaderThread.result]

theorem returns_iff {s : ReadState} {rets : List Int} : s.returns = some rets ↔ s.threads = rets.map ReaderThread.returned := by
  unfold ReadState.returns
  generalize s.threads = l
  induction l generalizing rets with
  | nil =>
    cases rets with
    | nil => simp
    | cons ret rets => simp
  | cons thread l ih =>
    simp only [mapM_cons, Option.bind_eq_bind, Option.bind_eq_some_iff, Option.pure_def, Option.some.injEq]
    constructor
    · rintro ⟨ret, hret, rets', hrets, rfl⟩
      rw [ih.1 hrets, result_eq_some.1 hret, map_cons]
    · intro h
      cases rets with
      | nil => cases h
      | cons ret rets =>
        rw [map_cons, cons.injEq] at h
        exact ⟨ret, result_eq_some.2 h.1, rets, ih.2 h.2, rfl⟩

def stepsLeft (R : ReadPlan) (t : Nat) : ReaderThread → Nat
  | .started => 3 * (R.last t - R.first t) + 2
  | .atChunk _ _ chunkIdx => 3 * (R.last t - chunkIdx) + 1
  | .inNext _ chunkIdx _ _ => 3 * (R.last t - chunkIdx)
  | .hasChunk _ _ chunkIdx _ => 3 * (R.last t - chunkIdx) - 1
  | .returned _ => 0

namespace ReadPlan.ThreadAt

variable {R : ReadPlan} {t c : Nat} {buffers : List (List UInt8)} {thread : ReaderThread} (h : ThreadAt R t buffers c thread)

include h

theorem stepsLeft_threadStep (state : MemoryState) (hfst : R.first t ≤ c) :
    stepsLeft R t (threadStep R state t thread).1 ≤ stepsLeft R t thread - 1 := by
  cases h with
  | started =>
    simp only [threadStep]
    split
    · simp [stepsLeft]
    · simp [stepsLeft, first]
  | atChunk hat =>
    simp only [threadStep]
    split
    · rename_i hlt
      have := (lt_last_iff hfst).2 hlt
      split
      · simp [stepsLeft]
      · split
        · simp only [stepsLeft]
          omega
        · split
          · simp only [stepsLeft]
            omega
          · simp [stepsLeft]
    · simp [stepsLeft]
  | inNext hlt hret hat hbyt =>
    simp only [threadStep]
    split
    · simp [stepsLeft]
    · simp [stepsLeft]
  | hasChunk hlt hat hfil =>
    simp only [threadStep, stepsLeft]
    omega
  | returned hdone hwide => simp [threadStep, stepsLeft]

theorem returned_of_stepsLeft (h0 : stepsLeft R t thread = 0) : ∃ ret, thread = .returned ret := by
  cases h with
  | returned hdone hwide => exact ⟨_, rfl⟩
  | started => simp [stepsLeft] at h0
  | atChunk hat => simp [stepsLeft] at h0
  | inNext hlt hret hat hbyt =>
    simp only [stepsLeft] at h0
    omega
  | hasChunk hlt hat hfil =>
    simp only [stepsLeft] at h0
    omega

end ReadPlan.ThreadAt

namespace ReadInv

variable {R : ReadPlan} {s : ReadState} {c : Nat → Nat}

theorem stepsLeft_step (h : ReadInv R s c) {t : Nat} {thread : ReaderThread} (hthr : s.threads[t]? = some thread) (t' : Nat) :
    ∃ thread', (s.step R t').threads[t]? = some thread' ∧ stepsLeft R t thread' ≤ stepsLeft R t thread - [t'].count t := by
  have hlt := (List.getElem?_eq_some_iff.1 hthr).1
  by_cases heq : t' = t
  · subst heq
    refine ⟨(threadStep R s.state t' thread).1, ?_, ?_⟩
    · simp only [ReadState.step, hthr, getElem?_set_self hlt]
    · rw [count_singleton_self]
      exact (h.threadAt t' thread hthr).stepsLeft_threadStep s.state (h.bounds t').1
  · refine ⟨thread, ?_, by simp [heq]⟩
    unfold ReadState.step
    split
    · exact hthr
    · dsimp only
      rw [getElem?_set_ne heq]
      exact hthr

theorem stepsLeft_run (hR : R.Fits) (h : ReadInv R s c) {t : Nat} {thread : ReaderThread}
    (hthr : s.threads[t]? = some thread) (schedule : List Nat) :
    ∃ thread', (s.run R schedule).threads[t]? = some thread' ∧
      stepsLeft R t thread' ≤ stepsLeft R t thread - schedule.count t := by
  induction schedule generalizing s c thread with
  | nil => exact ⟨thread, hthr, by simp⟩
  | cons t' schedule ih =>
    obtain ⟨thread₁, hthr₁, hle₁⟩ := h.stepsLeft_step hthr t'
    obtain ⟨c', hc⟩ := h.step hR t'
    obtain ⟨thread₂, hthr₂, hle₂⟩ := ih hc hthr₁
    refine ⟨thread₂, hthr₂, ?_⟩
    have hcnt : (t' :: schedule).count t = [t'].count t + schedule.count t := by
      rw [← count_append, singleton_append]
    omega

theorem returns_of_count (hR : R.Fits) {buffers : List (List UInt8)} (hbuf : buffers.length = R.numChunks)
    {schedule : List Nat} (hcnt : ∀ t < R.numThreads, 3 * R.numChunks + 2 ≤ schedule.count t) :
    ∃ rets, ((startState R buffers).run R schedule).returns = some rets := by
  obtain ⟨c, hc⟩ := (readInv_start hbuf).run hR schedule
  have hall : ∀ thread ∈ ((startState R buffers).run R schedule).threads, ∃ ret, thread = .returned ret := by
    intro thread hthr
    obtain ⟨t, ht⟩ := getElem?_of_mem hthr
    have hlt := hc.lt_numThreads ht
    have hstd : (startState R buffers).threads[t]? = some .started := by simp [startState, hlt]
    obtain ⟨thread', hthr', hle⟩ := (readInv_start hbuf).stepsLeft_run hR hstd schedule
    obtain rfl : thread = thread' := Option.some.inj (ht.symm.trans hthr')
    refine (hc.threadAt t thread ht).returned_of_stepsLeft ?_
    have hsteps := hcnt t hlt
    have hmost : stepsLeft R t .started ≤ 3 * R.numChunks + 2 := by
      simp only [stepsLeft, last]
      omega
    omega
  refine ⟨((startState R buffers).run R schedule).threads.map fun thread => thread.result.getD 0, returns_iff.2 ?_⟩
  rw [map_map, map_congr_left, map_id]
  intro thread hthr
  obtain ⟨ret, rfl⟩ := hall thread hthr
  rfl

end ReadInv

/-- The chunks of the host memory have the bytes of the partitions, and each is in the vector once, with its size. -/
structure HostLoaded (partitions : List (List UInt8)) (chunkSize numChunks : Nat) (s : ReadState) : Prop where
  bytes : ∀ i < numChunks, (s.hostBuffers.getD i []).take (min chunkSize (partitions.flatten.length - i * chunkSize)) =
    (partitions.flatten.drop (i * chunkSize)).take chunkSize
  enqueued : s.hostPtrVector.items.Perm
    ((range numChunks).map fun i => ⟨i, min chunkSize (partitions.flatten.length - i * chunkSize)⟩)

theorem toHostResult_eq_zero {rets : List Int} : toHostResult rets = 0 ↔ ∀ ret ∈ rets, ret = 0 := by
  by_cases h : rets.any (· ≠ 0) = true
  · rw [toHostResult, if_pos h]
    simp only [any_eq_true, decide_eq_true_eq] at h
    obtain ⟨ret, hret, hne⟩ := h
    exact ⟨fun h0 => absurd h0 (by decide), fun h0 => absurd (h0 ret hret) hne⟩
  · rw [toHostResult, if_neg h]
    simp only [any_eq_true, decide_eq_true_eq, not_exists, not_and, not_not] at h
    exact ⟨fun _ => h, fun _ => rfl⟩

section

variable {R : ReadPlan} {s : ReadState} {c : Nat → Nat} (h : ReadInv R s c) {rets : List Int}
  (hrets : s.threads = rets.map ReaderThread.returned)

include h hrets

theorem ReadInv.returned {t : Nat} {ret : Int} (hret : rets[t]? = some ret) :
    (ret = 0 → c t = R.last t) ∧ (R.Wide → ret = 0) := by
  have hthr : s.threads[t]? = some (.returned ret) := by rw [hrets, getElem?_map, hret, Option.map_some]
  exact (h.threadAt t _ hthr).of_returned

theorem ReadInv.hostLoaded (hR : R.Fits) (h0 : ∀ ret ∈ rets, ret = 0) : HostLoaded R.partitions R.chunkSize R.numChunks s := by
  have hend : ∀ t < R.numThreads, c t = R.last t := by
    intro t ht
    have hlt : t < rets.length := by rwa [← h.threads, hrets, length_map] at ht
    exact (h.returned hrets (getElem?_eq_getElem hlt)).1 (h0 _ (getElem_mem hlt))
  have hall : ∀ i, i ∈ s.hostPtrVector.keys ↔ i < R.numChunks := by
    intro i
    rw [h.queued]
    constructor
    · rintro ⟨t, -, h1, h2⟩
      exact ((lt_last_iff h1).1 (Nat.lt_of_lt_of_le h2 (h.bounds t).2)).2
    · intro hi
      obtain ⟨t, ht, h1, h2⟩ := hR.owner hi
      exact ⟨t, ht, h1, by rwa [hend t ht]⟩
  have hsz : ∀ i, R.sizeOf i = min R.chunkSize (R.partitions.flatten.length - i * R.chunkSize) := by
    intro i
    rw [ReadPlan.sizeOf, ← R.length_data, data]
  constructor
  · intro i hi
    obtain ⟨t, ht, h1, h2⟩ := hR.owner hi
    have hfil := h.filled t i h1 (by rwa [hend t ht])
    rwa [Filled, hsz] at hfil
  · have hks : s.hostPtrVector.keys.Perm (range R.numChunks) := by
      rw [perm_ext_iff_of_nodup h.nodup nodup_range]
      intro i
      rw [hall, mem_range]
    have hits : s.hostPtrVector.items = s.hostPtrVector.keys.map fun i => ⟨i, R.sizeOf i⟩ := by
      rw [h.keys, map_map, map_congr_left, map_id]
      intro b hb
      rw [comp_apply, ← h.sizes b hb]
      rfl
    rw [hits]
    simp only [hsz]
    exact hks.map _

theorem ReadInv.returns_zero (hwide : R.Wide) : ∀ ret ∈ rets, ret = 0 := by
  intro ret hret
  obtain ⟨t, ht⟩ := getElem?_of_mem hret
  exact (h.returned hrets ht).2 hwide

end

/-- A call of `ToHost` that finds the model allocated, with no more chunks than the model has and files that can be opened: for
every order of the steps of its threads, when they have returned and the result is 0, the chunks have their bytes; after enough
steps they have returned; and the result is 0 when every partition but the last has the bytes of a chunk. -/
theorem toHost_chunks {chunkSize numThreads : Nat} (hsize : 0 < chunkSize) (hthreads : 0 < numThreads) (m : HostModel)
    (hstate : m.state = .allocated) (buffers : List (List UInt8)) (hpinned : m.pinnedMem = some buffers) (hne : buffers ≠ [])
    (hchunks : buffers.length ≤ (m.partitions.flatten.length + chunkSize - 1) / chunkSize) :
    ∃ R s, toHostStart true chunkSize numThreads m = .inr (R, s) ∧
      (∀ schedule rets, (s.run R schedule).returns = some rets → toHostResult rets = 0 →
        HostLoaded m.partitions chunkSize buffers.length (s.run R schedule)) ∧
      (∀ schedule, (∀ t < numThreads, 3 * buffers.length + 2 ≤ schedule.count t) →
        ∃ rets, (s.run R schedule).returns = some rets) ∧
      ((∀ p ∈ m.partitions.dropLast, chunkSize ≤ p.length) →
        ∀ schedule rets, (s.run R schedule).returns = some rets → toHostResult rets = 0) := by
  have hpl : ∃ R : ReadPlan, R = ⟨m.partitions, chunkSize, buffers.length, numThreads⟩ := ⟨_, rfl⟩
  obtain ⟨R, hpl⟩ := hpl
  have hR : R.Fits := by
    subst hpl
    refine ⟨hsize, hthreads, ?_⟩
    rwa [← length_data]
  have hstart : ReadInv R (startState R buffers) R.first := readInv_start (by rw [hpl])
  refine ⟨R, startState R buffers, ?_, ?_, ?_, ?_⟩
  · subst hpl
    obtain ⟨buffer, rest, rfl⟩ := exists_cons_of_ne_nil hne
    simp only [toHostStart, hstate, hpinned]
    rfl
  · intro schedule rets hreturns hzero
    obtain ⟨c, hc⟩ := hstart.run hR schedule
    have hldd := hc.hostLoaded (returns_iff.1 hreturns) hR (toHostResult_eq_zero.1 hzero)
    rwa [hpl] at hldd ⊢
  · intro schedule hcnt
    subst hpl
    exact ReadInv.returns_of_count hR rfl hcnt
  · intro hwide schedule rets hreturns
    obtain ⟨c, hc⟩ := hstart.run hR schedule
    refine toHostResult_eq_zero.2 (hc.returns_zero (returns_iff.1 hreturns) ?_)
    subst hpl
    intro partitionId hnx
    have hlt : partitionId < m.partitions.dropLast.length := by
      rw [length_dropLast]
      dsimp only at hnx
      omega
    have hfile : ReadPlan.file ⟨m.partitions, chunkSize, buffers.length, numThreads⟩ partitionId =
        m.partitions.dropLast[partitionId] := by
      have hlt' : partitionId < m.partitions.length := Nat.lt_of_succ_lt hnx
      simp [file, hlt']
    rw [hfile]
    exact hwide _ (getElem_mem hlt)

def threeBytes : HostModel := ⟨.allocated, [[1], [2, 3]], some [[0, 0], [0, 0]], none⟩

theorem toHost_threeBytes :
    ∃ R s, toHostStart true 2 3 threeBytes = .inr (R, s) ∧
      (∀ schedule rets, (s.run R schedule).returns = some rets → toHostResult rets = 0 →
        HostLoaded threeBytes.partitions 2 2 (s.run R schedule)) ∧
      (∀ schedule : List Nat, (∀ t < 3, 3 * 2 + 2 ≤ schedule.count t) → ∃ rets, (s.run R schedule).returns = some rets) ∧
      ((∀ p ∈ threeBytes.partitions.dropLast, 2 ≤ p.length) →
        ∀ schedule rets, (s.run R schedule).returns = some rets → toHostResult rets = 0) :=
  toHost_chunks (by decide) (by decide) threeBytes rfl [[0, 0], [0, 0]] rfl (by decide) (by decide)

/-- While a call of `ToHost` has only started its threads, another one returns 0. -/
theorem toHost_while_loading :
    ∃ R s, toHostStart true 2 3 threeBytes = .inr (R, s) ∧
      toHostStart true 2 3 { threeBytes with state := s.state } = .inl 0 ∧ ¬HostLoaded threeBytes.partitions 2 2 s := by
  refine ⟨_, _, rfl, rfl, ?_⟩
  intro h
  exact absurd (h.bytes 0 (by decide)) (by decide)

end ServerlessLLM
