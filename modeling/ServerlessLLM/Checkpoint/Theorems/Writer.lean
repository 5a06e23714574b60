import ServerlessLLM.Checkpoint.Writer
import ServerlessLLM.Library.InOrder
import ServerlessLLM.Library.Overlay

/-!
# The files that `SaveTensors` writes

The offsets that `SaveTensors` counts are the positions of the tensors in the partition files, one file after the other.
-/

namespace ServerlessLLM

open Bytes List Function TensorWriter

/-- The directory holds the partitions `closed` over the older files, and the last partition will hold `content` once what is
pending in the buffer is written. -/
structure Writing (K : WriterSizes) (old closed : List (List UInt8)) (content : List UInt8) (b : AlignedBuffer) (d : Disk) :
    Prop where
  index : b.partitionIdx = closed.length
  files : d.files = overlay old (closed ++ [content.take b.fileOffset])
  pending : read b.buffer 0 b.bufPos = content.drop b.fileOffset
  length : content.length = b.fileOffset + b.bufPos
  aligned : 8 ∣ b.fileOffset
  room : b.bufPos < K.kBufferSize
  quiet : d.stderr = []

section Buffer

variable {K : WriterSizes} {os : Os} {old closed : List (List UInt8)} {content : List UInt8} {b : AlignedBuffer} {d : Disk}

theorem WriterSizes.eight_dvd (K : WriterSizes) : 8 ∣ K.kBufferSize := Nat.dvd_trans (by decide) K.aligned

theorem pwrite_append (hos : os.WritesAll) {file : List UInt8} {back : List (List UInt8)}
    (hf : d.files = overlay old (closed ++ file :: back)) {offset : Nat} (ho : file.length = offset) (data : List UInt8) :
    ∃ k, d.pwrite os closed.length data offset =
      (some data.length, { d with pwrites := k, files := overlay old (closed ++ (file ++ data) :: back) }) := by
  refine ⟨d.pwrites + 1, ?_⟩
  subst ho
  unfold Disk.pwrite
  rw [hos, hf]
  simp only [take_length, modify_overlay]

theorem Writing.length_take (h : Writing K old closed content b d) : (content.take b.fileOffset).length = b.fileOffset := by
  rw [List.length_take, h.length]
  omega

theorem Writing.flush (hos : os.WritesAll) (h : Writing K old closed content b d) (b' : AlignedBuffer) {data more : List UInt8}
    (hdata : data = content.drop b.fileOffset ++ more) (h8 : 8 ∣ data.length)
    (hidx : b'.partitionIdx = b.partitionIdx) (hpos : b'.bufPos = 0) (hoff : b'.fileOffset = b.fileOffset + data.length) :
    ∃ d', d.pwrite os b.partitionIdx data b.fileOffset = (some data.length, d') ∧
      Writing K old closed (content ++ more) b' d' := by
  obtain ⟨k, hk⟩ := pwrite_append hos h.files h.length_take data
  have hall : content.take b.fileOffset ++ data = content ++ more := by
    rw [hdata, ← append_assoc, take_append_drop]
  have hlen : (content ++ more).length = b'.fileOffset := by
    rw [← hall, length_append, h.length_take, hoff]
  refine ⟨_, by rw [h.index]; exact hk, ?_⟩
  constructor
  case index => rw [hidx, h.index]
  case files => rw [hall, ← hlen, take_length]
  case pending => rw [hpos, ← hlen, drop_length, read_zero]
  case length => rw [hlen, hpos, Nat.add_zero]
  case aligned =>
    rw [hoff]
    exact Nat.dvd_add h.aligned h8
  case room =>
    rw [hpos]
    exact K.pos
  case quiet => exact h.quiet

theorem Writing.buffered (h : Writing K old closed content b d) {more : List UInt8} {mem : Nat → UInt8} {n : Nat}
    (hn : more.length = n) (hmem : read mem 0 (b.bufPos + n) = read b.buffer 0 b.bufPos ++ more)
    (hro : b.bufPos + n < K.kBufferSize) :
    Writing K old closed (content ++ more) { b with buffer := mem, bufPos := b.bufPos + n } d := by
  subst hn
  have hle : b.fileOffset ≤ content.length := by
    rw [h.length]
    omega
  refine ⟨h.index, ?_, ?_, ?_, h.aligned, hro, h.quiet⟩
  · rw [h.files, take_append_of_le_length hle]
  · rw [drop_append_of_le_length hle, ← h.pending]
    exact hmem
  · rw [length_append, h.length, Nat.add_assoc]

section

variable (hos : os.WritesAll)

include hos

theorem Writing.directWrite (h : Writing K old closed content b d) (data : List UInt8) (written : Nat) :
    ∃ n b' d', n ≤ data.length - written ∧ b.directWrite K os data written d = (true, written + n, b', d') ∧
      Writing K old closed (content ++ (data.drop written).take n) b' d' := by
  unfold AlignedBuffer.directWrite
  split
  · rename_i hlong
    have hle : (data.length - written) / kAlignment * kAlignment ≤ data.length - written := Nat.div_mul_le_self _ _
    generalize hn : (data.length - written) / kAlignment * kAlignment = n at hle
    have hlen : ((data.drop written).take n).length = n := by
      rw [List.length_take, length_drop]
      omega
    have h8 : 8 ∣ n := hn ▸ Nat.dvd_trans (by decide) (Nat.dvd_mul_left kAlignment _)
    have hno : content.drop b.fileOffset = [] := by rw [← h.pending, hlong.2, read_zero]
    have hdata : (data.drop written).take n = content.drop b.fileOffset ++ (data.drop written).take n := by
      rw [hno, nil_append]
    obtain ⟨d', hd', hw⟩ := h.flush hos { b with fileOffset := b.fileOffset + n } hdata (by rw [hlen]; exact h8) rfl hlong.2
      (by rw [hlen])
    refine ⟨n, _, d', hle, ?_, hw⟩
    simp only [hd', hlen, if_true]
  · exact ⟨0, b, d, Nat.zero_le _, rfl, by simpa using h⟩

theorem Writing.fillBuffer (h : Writing K old closed content b d) (data : List UInt8) (written : Nat) :
    ∃ n b' d', n ≤ data.length - written ∧ (written < data.length → 0 < n) ∧
      b.fillBuffer K os data written d = (true, written + n, b', d') ∧
      Writing K old closed (content ++ (data.drop written).take n) b' d' := by
  have hro := h.room
  have hle : min (data.length - written) (K.kBufferSize - b.bufPos) ≤ data.length - written := Nat.min_le_left _ _
  have hpos : written < data.length → 0 < min (data.length - written) (K.kBufferSize - b.bufPos) := by omega
  have hfit : b.bufPos + min (data.length - written) (K.kBufferSize - b.bufPos) ≤ K.kBufferSize := by omega
  unfold AlignedBuffer.fillBuffer
  generalize min (data.length - written) (K.kBufferSize - b.bufPos) = n at hle hpos hfit
  have hlen : ((data.drop written).take n).length = n := by
    rw [List.length_take, length_drop]
    omega
  have hmem := read_copyIn b.buffer b.bufPos hlen
  dsimp only
  split
  · rename_i hfull
    rw [hfull, h.pending] at hmem
    obtain ⟨d', hd', hw⟩ := h.flush hos
      { b with
        buffer := copyIn b.buffer b.bufPos ((data.drop written).take n)
        bufPos := 0
        fileOffset := b.fileOffset + K.kBufferSize }
      hmem (by rw [length_read]; exact K.eight_dvd) rfl rfl (by rw [length_read])
    refine ⟨n, _, d', hle, hpos, ?_, hw⟩
    simp only [hd', length_read, if_true]
  · exact ⟨n, _, d, hle, hpos, rfl, h.buffered hlen hmem (by omega)⟩

theorem Writing.round {data : List UInt8} {written : Nat} (hlt : written < data.length)
    (h : Writing K old closed (content ++ data.take written) b d) (fuel : Nat) :
    ∃ written' b' d', written < written' ∧ written' ≤ data.length ∧
      b.writeDataLoop K os data (fuel + 1) written d = b'.writeDataLoop K os data fuel written' d' ∧
      Writing K old closed (content ++ data.take written') b' d' := by
  have happ : ∀ k n, content ++ data.take k ++ (data.drop k).take n = content ++ data.take (k + n) := by
    intro k n
    rw [append_assoc, take_add]
  obtain ⟨n, b1, d1, hn, hdirect, h1⟩ := h.directWrite hos data written
  rw [happ] at h1
  obtain ⟨k, b2, d2, hk, hpos, hfill, h2⟩ := h1.fillBuffer hos data (written + n)
  rw [happ] at h2
  refine ⟨written + n + k, b2, d2, by omega, by omega, ?_, h2⟩
  simp only [AlignedBuffer.writeDataLoop, if_pos hlt, hdirect, hfill]

theorem Writing.writeDataLoop {data : List UInt8} :
    ∀ {fuel written : Nat} {b : AlignedBuffer} {d : Disk}, data.length - written < fuel → written ≤ data.length →
      Writing K old closed (content ++ data.take written) b d →
      ∃ b' d', b.writeDataLoop K os data fuel written d = (data.length, b', d') ∧
        Writing K old closed (content ++ data) b' d' := by
  intro fuel
  induction fuel with
  | zero =>
    intro written b d hfuel
    omega
  | succ fuel ih =>
    intro written b d hfuel hle h
    by_cases hlt : written < data.length
    · obtain ⟨written', b1, d1, hw1, hw2, heq, h1⟩ := h.round hos hlt fuel
      rw [heq]
      exact ih (by omega) hw2 h1
    · obtain rfl : written = data.length := by omega
      rw [take_length] at h
      exact ⟨b, d, by simp [AlignedBuffer.writeDataLoop], h⟩

theorem Writing.writeData (h : Writing K old closed content b d) (data : List UInt8) :
    ∃ b' d', b.writeData K os data d = (data.length, b', d') ∧ Writing K old closed (content ++ data) b' d' :=
  Writing.writeDataLoop hos (by omega) (Nat.zero_le _) (by simpa using h)

theorem Writing.writePadding (h : Writing K old closed content b d) {n : Nat} (hn : n < 8) (h8 : 8 ∣ content.length + n) :
    ∃ pad b' d', pad.length = n ∧ b.writePadding K os n d = (n, b', d') ∧ Writing K old closed (content ++ pad) b' d' := by
  have hfit : b.bufPos + n ≤ K.kBufferSize := by
    have hro := h.room
    have haligned := h.aligned
    have hK := K.eight_dvd
    rw [h.length] at h8
    omega
  have hmem : read b.buffer 0 (b.bufPos + n) = read b.buffer 0 b.bufPos ++ read b.buffer b.bufPos n := by
    rw [read_add, Nat.zero_add]
  refine ⟨read b.buffer b.bufPos n, ?_⟩
  unfold AlignedBuffer.writePadding
  rw [if_neg (by omega)]
  dsimp only
  rw [if_neg (by omega)]
  split
  · rename_i hfull
    rw [h.pending] at hmem
    obtain ⟨d', hd', hw⟩ := h.flush hos { b with bufPos := 0, fileOffset := b.fileOffset + K.kBufferSize } hmem
      (by rw [length_read, hfull]; exact K.eight_dvd) rfl rfl (by rw [length_read, hfull])
    refine ⟨_, d', length_read _ _ _, ?_, hw⟩
    rw [hd']
  · exact ⟨_, d, length_read _ _ _, rfl, h.buffered (length_read _ _ _) hmem (by omega)⟩

theorem Writing.destroy (h : Writing K old closed content b d) {back : List (List UInt8)} {files : List (List UInt8)}
    (hfiles : files = overlay old (closed ++ content.take b.fileOffset :: back)) :
    ∃ k, b.destroy os { d with files } = ⟨overlay old (closed ++ content :: back), k, []⟩ := by
  unfold AlignedBuffer.destroy
  split
  · obtain ⟨k, hk⟩ := pwrite_append (d := { d with files }) hos hfiles h.length_take (read b.buffer 0 b.bufPos)
    rw [h.index, hk, h.pending, take_append_drop, h.quiet]
    exact ⟨k, rfl⟩
  · rename_i hzero
    have hall : content.take b.fileOffset = content := by
      refine take_of_length_le ?_
      have := h.length
      omega
    rw [hfiles, hall, h.quiet]
    exact ⟨d.pwrites, rfl⟩

end

end Buffer

/-! ## Records -/

def padded (size : Nat) : Nat := (size + 7) / 8 * 8

/-- The sizes of the partitions that records of these sizes fill in order, when `used` bytes are in the one that is open: a
record goes to the open partition when it fits without its padding, and to a new one when not. -/
def fill (maxSize : Nat) : Nat → List Nat → List Nat
  | used, [] => [used]
  | used, size :: sizes =>
    if used + size ≤ maxSize then fill maxSize (used + padded size) sizes else used :: fill maxSize (padded size) sizes

/-- The sizes of the partitions. The first record opens the first one. -/
def partitionSizes (maxSize : Nat) : List Nat → List Nat
  | [] => []
  | size :: sizes => fill maxSize (padded size) sizes

theorem fill_concat (maxSize used : Nat) (sizes : List Nat) : ∃ closed last, fill maxSize used sizes = closed ++ [last] ∧
    ∀ size, fill maxSize used (sizes ++ [size]) =
      closed ++ if last + size ≤ maxSize then [last + padded size] else [last, padded size] := by
  induction sizes generalizing used with
  | nil => exact ⟨[], used, rfl, fun size => rfl⟩
  | cons size sizes ih =>
    rw [fill]
    split
    · obtain ⟨closed, last, hsizes, hnext⟩ := ih (used + padded size)
      refine ⟨closed, last, hsizes, fun size' => ?_⟩
      rw [cons_append, fill, if_pos ‹_›, hnext]
    · obtain ⟨closed, last, hsizes, hnext⟩ := ih (padded size)
      refine ⟨used :: closed, last, by rw [hsizes, cons_append], fun size' => ?_⟩
      rw [cons_append, fill, if_neg ‹_›, hnext, cons_append]

theorem partitionSizes_concat {maxSize : Nat} {sizes closed : List Nat} {last : Nat}
    (h : partitionSizes maxSize sizes = closed ++ [last]) (size : Nat) : partitionSizes maxSize (sizes ++ [size]) =
      closed ++ if last + size ≤ maxSize then [last + padded size] else [last, padded size] := by
  cases sizes with
  | nil => simp [partitionSizes] at h
  | cons first sizes =>
    obtain ⟨closed', last', hsizes, hnext⟩ := fill_concat maxSize (padded first) sizes
    obtain ⟨rfl, hlast⟩ := append_inj' (h.symm.trans hsizes) rfl
    obtain rfl : last = last' := by simpa using hlast
    exact hnext size

/-- A partition begins with a record. -/
theorem sum_take_fill (maxSize used : Nat) (sizes : List Nat) (k : Nat) : ∃ front back, sizes = front ++ back ∧
    ((fill maxSize used sizes).take (k + 1)).sum = used + (front.map padded).sum := by
  induction sizes generalizing used k with
  | nil => exact ⟨[], [], rfl, by simp [fill]⟩
  | cons size sizes ih =>
    rw [fill]
    split
    · obtain ⟨front, back, rfl, hsum⟩ := ih (used + padded size) k
      exact ⟨size :: front, back, rfl, by rw [hsum, map_cons, sum_cons, Nat.add_assoc]⟩
    · cases k with
      | zero => exact ⟨[], _, rfl, by simp⟩
      | succ k =>
        obtain ⟨front, back, rfl, hsum⟩ := ih (padded size) k
        exact ⟨size :: front, back, rfl, by rw [take_succ_cons, sum_cons, hsum, map_cons, sum_cons]⟩

theorem sum_take_partitionSizes (maxSize : Nat) (sizes : List Nat) (k : Nat) : ∃ front back, sizes = front ++ back ∧
    ((partitionSizes maxSize sizes).take (k + 1)).sum = (front.map padded).sum := by
  cases sizes with
  | nil => exact ⟨[], [], rfl, by simp [partitionSizes]⟩
  | cons size sizes =>
    obtain ⟨front, back, rfl, hsum⟩ := sum_take_fill maxSize (padded size) sizes k
    exact ⟨size :: front, back, rfl, by rw [partitionSizes, hsum, map_cons, sum_cons]⟩

/-- The partitions of the writer: what the files will hold, from their start on, once the writer is destroyed. -/
inductive Stored (K : WriterSizes) (old : List (List UInt8)) : List (List UInt8) → TensorWriter → Disk → Prop
  | none (k : Nat) : Stored K old [] .new ⟨old, k, []⟩
  | some {closed : List (List UInt8)} {content : List UInt8} {b : AlignedBuffer} {d : Disk}
      (h : Writing K old closed content b d) (h8 : 8 ∣ content.length) :
      Stored K old (closed ++ [content]) ⟨(closed ++ [content]).flatten.length, content.length, b⟩ d

section Records

variable {K : WriterSizes} {os : Os} {old parts : List (List UInt8)} {sizes : List Nat} {w : TensorWriter} {d : Disk}

theorem Stored.offset_eq (h : Stored K old parts w d) : w.offset = parts.flatten.length := by
  cases h <;> rfl

theorem writing_new (os : Os) (old closed : List (List UInt8)) (k : Nat) :
    Writing K old closed [] (.new os closed.length) ⟨overlay old (closed ++ [[]]), k, []⟩ :=
  ⟨rfl, rfl, rfl, rfl, Nat.dvd_zero 8, K.pos, rfl⟩

theorem create_eq {segs : List (List UInt8)} (h : d.files = overlay old segs) :
    d.create segs.length = { d with files := overlay old (segs ++ [[]]) } := by
  rw [overlay_concat_nil, ← h]
  unfold Disk.create
  split <;> rfl

theorem Stored.partitionFor (hos : os.WritesAll) (h : Stored K old parts w d)
    (hsizes : parts.map length = partitionSizes K.kPartitionMaxSize sizes) (size : Nat) :
    ∃ closed content b d', w.partitionFor K os size d = (b, content.length, d') ∧ Writing K old closed content b d' ∧
      8 ∣ content.length ∧ ∀ x, Appended x parts (closed ++ [content ++ x]) ∧ (x.length = padded size →
        (closed ++ [content ++ x]).map length = partitionSizes K.kPartitionMaxSize (sizes ++ [size])) := by
  unfold TensorWriter.partitionFor
  cases h with
  | none k =>
    have hd : Disk.create ⟨old, k, []⟩ [].length = ⟨overlay old ([] ++ [[]]), k, []⟩ := create_eq (by simp [overlay])
    obtain rfl : sizes = [] := by
      cases sizes with
      | nil => rfl
      | cons first sizes =>
        obtain ⟨closed, last, hlast, -⟩ := fill_concat K.kPartitionMaxSize (padded first) sizes
        rw [partitionSizes, hlast] at hsizes
        simp at hsizes
    refine ⟨[], [], _, _, rfl, ?_, Nat.dvd_zero 8, fun x => ⟨.fresh [], fun hx => by simp [hx, partitionSizes, fill]⟩⟩
    rw [length_nil] at hd
    rw [hd]
    exact writing_new os old [] k
  | @some closed content b _ h h8 =>
    have hlast : partitionSizes K.kPartitionMaxSize sizes = closed.map length ++ [content.length] := by
      rw [← hsizes, map_append, map_singleton]
    have hnext := partitionSizes_concat hlast size
    dsimp only
    split
    · rename_i hfull
      rw [if_neg (by omega)] at hnext
      have hcre := create_eq h.files
      rw [length_append, length_singleton] at hcre
      have hfiles : overlay old (closed ++ [content.take b.fileOffset] ++ [[]]) =
          overlay old (closed ++ content.take b.fileOffset :: [[]]) := by simp
      obtain ⟨k, hk⟩ := h.destroy hos hfiles
      rw [h.index, hcre, hk]
      refine ⟨closed ++ [content], [], _, _, rfl, ?_, Nat.dvd_zero 8, fun x => ⟨.fresh _, fun hx => by simp [hnext, hx]⟩⟩
      simpa using writing_new (K := K) os old (closed ++ [content]) k
    · rename_i hroom
      rw [if_pos (by omega)] at hnext
      exact ⟨closed, content, b, d, rfl, h, h8, fun x => ⟨.extend closed content, fun hx => by simp [hnext, hx]⟩⟩

theorem add_paddingOf (size : Nat) : size + TensorWriter.paddingOf size = (size + 7) / 8 * 8 := by
  unfold paddingOf
  split <;> omega

theorem paddingOf_lt (size : Nat) : TensorWriter.paddingOf size < 8 := by
  unfold paddingOf
  split <;> omega

theorem Stored.writeRecord (hos : os.WritesAll) (h : Stored K old parts w d)
    (hsizes : parts.map length = partitionSizes K.kPartitionMaxSize sizes) (data : List UInt8) :
    ∃ pad parts' w' d', w.writeRecord K os data d = (parts.flatten.length, w', d') ∧ Stored K old parts' w' d' ∧
      pad.length = paddingOf data.length ∧ Appended (data ++ pad) parts parts' ∧
      parts'.map length = partitionSizes K.kPartitionMaxSize (sizes ++ [data.length]) := by
  obtain ⟨closed, content, b, d1, hpart, h1, h8, happ⟩ := h.partitionFor hos hsizes data.length
  obtain ⟨b2, d2, hdata, h2⟩ := h1.writeData hos data
  have hpad8 : 8 ∣ (content ++ data).length + paddingOf data.length := by
    rw [length_append, Nat.add_assoc, add_paddingOf]
    exact Nat.dvd_add h8 (Nat.dvd_mul_left 8 _)
  -- without padding nothing is called
  have hpadded : ∃ pad b3 d3, pad.length = paddingOf data.length ∧
      (if paddingOf data.length ≠ 0 then b2.writePadding K os (paddingOf data.length) d2
        else (0, b2, d2)) = (pad.length, b3, d3) ∧ Writing K old closed (content ++ data ++ pad) b3 d3 := by
    split
    · obtain ⟨pad, b3, d3, hlen, hpad, h3⟩ := h2.writePadding hos (paddingOf_lt _) hpad8
      exact ⟨pad, b3, d3, hlen, by rw [hpad, hlen], h3⟩
    · rename_i hzero
      exact ⟨[], b2, d2, (not_not.1 hzero).symm, rfl, by simpa using h2⟩
  obtain ⟨pad, b3, d3, hlen, hpad, h3⟩ := hpadded
  obtain ⟨happ', hsz⟩ := happ (data ++ pad)
  rw [append_assoc] at h3
  refine ⟨pad, _, _, d3, ?_, .some h3 ?_, hlen, happ', hsz ?_⟩
  · simp only [TensorWriter.writeRecord, hpart, hdata, hpad, h.offset_eq, happ'.flatten_eq, length_append]
  · simpa [hlen, Nat.add_assoc] using hpad8
  · rw [length_append, hlen, add_paddingOf]
    rfl

theorem Stored.destroy (hos : os.WritesAll) (h : Stored K old parts w d) :
    (w.destroy os d).files = overlay old parts ∧ (w.destroy os d).stderr = [] := by
  unfold TensorWriter.destroy
  cases h with
  | none k => exact ⟨by cases old <;> rfl, rfl⟩
  | some h h8 =>
    obtain ⟨k, hk⟩ := h.destroy hos h.files
    dsimp only
    rw [hk]
    exact ⟨rfl, rfl⟩

end Records

end ServerlessLLM

/-! ## The records of the files -/

namespace ServerlessLLM

open Bytes InOrder List Function

section

/-- The bytes of a record with its padding: the size, rounded up to a multiple of 8. -/
def recordWidth (r : Nat × Nat) : Nat := (r.2 + 7) / 8 * 8

theorem size_le_recordWidth (r : Nat × Nat) : r.2 ≤ recordWidth r := by
  unfold recordWidth
  omega

/-- The records that are written for these pointers and sizes: one for each pointer. -/
def recordsOf (l : List (Nat × Nat)) : List (Nat × Nat) := firstSeen Prod.fst l

def sizesOf (l : List (Nat × Nat)) : List Nat := (recordsOf l).map Prod.snd

/-- Where the record of a pointer begins. -/
def recordStart (l : List (Nat × Nat)) (base : Nat) : Nat := start Prod.fst recordWidth (recordsOf l) base

variable {l : List (Nat × Nat)} {r : Nat × Nat}

theorem recordsOf_new (h : r.1 ∉ l.map Prod.fst) : recordsOf (l ++ [r]) = recordsOf l ++ [r] := by
  rw [recordsOf, firstSeen_concat, add, if_neg (by rwa [keys_firstSeen])]
  rfl

theorem recordsOf_old (h : r.1 ∈ l.map Prod.fst) : recordsOf (l ++ [r]) = recordsOf l := by
  rw [recordsOf, firstSeen_concat, add, if_pos (by rwa [keys_firstSeen])]
  rfl

theorem mem_recordsOf (h : ∀ r ∈ l, ∀ r' ∈ l, r.1 = r'.1 → r.2 = r'.2) (hr : r ∈ l) : r ∈ recordsOf l := by
  have hkey : r.1 ∈ (recordsOf l).map Prod.fst := (keys_firstSeen _ _).2 (mem_map_of_mem hr)
  obtain ⟨r', hr', hba⟩ := mem_map.1 hkey
  have hsz := h r' (firstSeen_subset _ hr') r hr hba
  rwa [← Prod.ext hba hsz]

theorem recordStart_append {base : Nat} (h : base ∈ l.map Prod.fst) (l' : List (Nat × Nat)) :
    recordStart (l ++ l') base = recordStart l base := by
  obtain ⟨back, hback⟩ := firstSeen_prefix Prod.fst l l'
  rw [recordStart, recordsOf, ← hback]
  exact start_append_of_mem (by rwa [keys_firstSeen]) back

theorem recordStart_new (h : r.1 ∉ l.map Prod.fst) : recordStart (l ++ [r]) r.1 = total recordWidth (recordsOf l) := by
  rw [recordStart, recordsOf_new h]
  exact start_append_self (by rwa [recordsOf, keys_firstSeen])

theorem eight_dvd_recordStart (l : List (Nat × Nat)) (base : Nat) : 8 ∣ recordStart l base := by
  unfold recordStart start
  generalize before Prod.fst (recordsOf l) base = l'
  induction l' with
  | nil => simp
  | cons r l' ih =>
    rw [total_cons]
    exact Nat.dvd_add (Nat.dvd_mul_left 8 _) ih

/-- The state of the loop after the tensors `names`. -/
structure Saved (K : WriterSizes) (old : List (List UInt8)) (mem : Nat → UInt8) (tensorData : String → Nat × Nat)
    (names : List String) (parts : List (List UInt8)) (s : SaveState) : Prop where
  stored : Stored K old parts s.writer s.disk
  sizes : parts.map length = partitionSizes K.kPartitionMaxSize (sizesOf (names.map tensorData))
  length : parts.flatten.length = total recordWidth (recordsOf (names.map tensorData))
  held : ∀ r ∈ recordsOf (names.map tensorData), HeldAt parts (recordStart (names.map tensorData) r.1) (read mem r.1 r.2)
  offsets : ∀ name ∈ names, s.tensorOffsets name = some (recordStart (names.map tensorData) (tensorData name).1)
  known : ∀ base first, s.dataRecord base = some first → first ∈ names ∧ (tensorData first).1 = base
  unknown : ∀ base, s.dataRecord base = none → base ∉ (names.map tensorData).map Prod.fst

section Loop

variable {K : WriterSizes} {os : Os} {mem : Nat → UInt8} {tensorData : String → Nat × Nat} {names : List String}
  {old parts : List (List UInt8)} {s : SaveState}

theorem Saved.seen (h : Saved K old mem tensorData names parts s) {name first : String}
    (hf : s.dataRecord (tensorData name).1 = some first) :
    Saved K old mem tensorData (names ++ [name]) parts (saveTensor K os mem tensorData s name) := by
  obtain ⟨hfst, hba⟩ := h.known _ _ hf
  have hmem : (tensorData name).1 ∈ (names.map tensorData).map Prod.fst := by
    rw [← hba]
    exact mem_map_of_mem (mem_map_of_mem hfst)
  have hs : saveTensor K os mem tensorData s name =
      { s with tensorOffsets := update s.tensorOffsets name (some ((s.tensorOffsets first).getD 0)) } := by
    simp only [saveTensor, hf]
  rw [hs]
  have hrec : recordsOf ((names ++ [name]).map tensorData) = recordsOf (names.map tensorData) := by
    rw [map_append]
    exact recordsOf_old hmem
  have hstart : ∀ base, recordStart ((names ++ [name]).map tensorData) base = recordStart (names.map tensorData) base := by
    intro base
    rw [recordStart, hrec, recordStart]
  constructor
  case stored => exact h.stored
  case sizes => rw [sizesOf, hrec, h.sizes, sizesOf]
  case length => rw [hrec, h.length]
  case held =>
    intro r hr
    rw [hrec] at hr
    rw [hstart]
    exact h.held r hr
  case offsets =>
    intro name' hnm
    rw [hstart]
    by_cases he : name' = name
    · subst he
      simp [h.offsets first hfst, hba]
    · have : name' ∈ names := by simpa [he] using hnm
      simpa [update_of_ne he] using h.offsets name' this
  case known =>
    intro base first' hf'
    obtain ⟨h1, h2⟩ := h.known base first' hf'
    exact ⟨mem_append_left _ h1, h2⟩
  case unknown =>
    intro base hno
    have := h.unknown base hno
    have hne : base ≠ (tensorData name).1 := fun e => this (e ▸ hmem)
    simpa [hne] using this

theorem Saved.new (hos : os.WritesAll) (h : Saved K old mem tensorData names parts s) {name : String}
    (hn : s.dataRecord (tensorData name).1 = none) :
    ∃ parts', Saved K old mem tensorData (names ++ [name]) parts' (saveTensor K os mem tensorData s name) ∧
      parts.flatten <+: parts'.flatten := by
  have hnew := h.unknown _ hn
  have hmap : (names ++ [name]).map tensorData = names.map tensorData ++ [tensorData name] := by simp
  have hrec := recordsOf_new hnew
  obtain ⟨pad, parts', w', d', hwrite, hstd, hpad, happ, hsizes⟩ :=
    h.stored.writeRecord hos h.sizes (read mem (tensorData name).1 (tensorData name).2)
  have hs : saveTensor K os mem tensorData s name =
      ⟨w', d', update s.tensorOffsets name (some parts.flatten.length),
        update s.dataRecord (tensorData name).1 (some name)⟩ := by
    simp only [saveTensor, hn, hwrite]
  rw [length_read] at hpad hsizes
  -- the new record begins at the end of what was there
  have hstart : recordStart (names.map tensorData ++ [tensorData name]) (tensorData name).1 = parts.flatten.length := by
    rw [recordStart_new hnew, h.length]
  refine ⟨parts', ?_, by rw [happ.flatten_eq]; exact prefix_append _ _⟩
  rw [hs]
  constructor
  case stored => exact hstd
  case sizes => rw [hmap, sizesOf, hrec, map_append, map_singleton, hsizes, sizesOf]
  case length =>
    rw [hmap, hrec, happ.flatten_eq, total_append, length_append, h.length, length_append, length_read, hpad, add_paddingOf]
    simp [recordWidth]
  case held =>
    intro r hr
    rw [hmap] at hr ⊢
    rw [hrec] at hr
    rcases mem_append.1 hr with hr | hr
    · have hmem : r.1 ∈ (names.map tensorData).map Prod.fst := by
        rw [← keys_firstSeen]
        exact mem_map_of_mem hr
      rw [recordStart_append hmem]
      exact (h.held r hr).appended happ
    · obtain rfl := mem_singleton.1 hr
      rw [hstart]
      exact happ.heldAt
  case offsets =>
    intro name' hnm
    rw [hmap]
    by_cases he : name' = name
    · subst he
      simp [hstart]
    · have hin : name' ∈ names := by simpa [he] using hnm
      rw [recordStart_append (mem_map_of_mem (mem_map_of_mem hin))]
      simpa [update_of_ne he] using h.offsets name' hin
  case known =>
    intro base first hf
    by_cases hb : base = (tensorData name).1
    · subst hb
      obtain rfl : name = first := by simpa using hf
      simp
    · obtain ⟨h1, h2⟩ := h.known base first (by simpa [update_of_ne hb] using hf)
      exact ⟨mem_append_left _ h1, h2⟩
  case unknown =>
    intro base hno
    have hb : base ≠ (tensorData name).1 := by
      rintro rfl
      simp at hno
    have := h.unknown base (by simpa [update_of_ne hb] using hno)
    simpa [hb] using this

theorem Saved.loop (hos : os.WritesAll) (h : Saved K old mem tensorData names parts s) (rest : List String) :
    ∃ parts', Saved K old mem tensorData (names ++ rest) parts' (saveLoop K os mem tensorData rest s) ∧
      parts.flatten <+: parts'.flatten := by
  induction rest using reverseRecOn with
  | nil => exact ⟨parts, by simpa [saveLoop] using h, prefix_refl _⟩
  | append_singleton rest name ih =>
    obtain ⟨parts', h', hpre⟩ := ih
    rw [saveLoop, foldl_append, ← append_assoc]
    cases hf : (saveLoop K os mem tensorData rest s).dataRecord (tensorData name).1 with
    | none =>
      obtain ⟨parts'', h'', hpre'⟩ := h'.new hos hf
      exact ⟨parts'', h'', hpre.trans hpre'⟩
    | some first => exact ⟨parts', h'.seen hf, hpre⟩

/-- The loop at its start, in a directory that holds these files. -/
theorem Saved.start (K : WriterSizes) (old : List (List UInt8)) (mem : Nat → UInt8) (tensorData : String → Nat × Nat) :
    Saved K old mem tensorData [] [] ⟨.new, ⟨old, 0, []⟩, fun _ => none, fun _ => none⟩ :=
  ⟨.none 0, rfl, rfl, by simp [recordsOf, firstSeen], by simp, by simp, by simp⟩

theorem saveTensors_spec (K : WriterSizes) (hos : os.WritesAll) (old : List (List UInt8)) (mem : Nat → UInt8)
    (tensorData : String → Nat × Nat) (names : List String) :
    ∃ parts, (saveTensors K os mem tensorData names ⟨old, 0, []⟩).2.files = overlay old parts ∧
      (saveTensors K os mem tensorData names ⟨old, 0, []⟩).2.stderr = [] ∧
      (∀ name ∈ names, (saveTensors K os mem tensorData names ⟨old, 0, []⟩).1 name =
        some (recordStart (names.map tensorData) (tensorData name).1)) ∧
      parts.map length = partitionSizes K.kPartitionMaxSize (sizesOf (names.map tensorData)) ∧
      parts.flatten.length = total recordWidth (recordsOf (names.map tensorData)) ∧
      ∀ r ∈ recordsOf (names.map tensorData),
        HeldAt parts (recordStart (names.map tensorData) r.1) (read mem r.1 r.2) := by
  obtain ⟨parts, h, -⟩ := (Saved.start K old mem tensorData).loop hos names
  rw [nil_append] at h
  obtain ⟨hfiles, hquiet⟩ := h.stored.destroy hos
  exact ⟨parts, hfiles, hquiet, h.offsets, h.sizes, h.length, h.held⟩

/-- What is written before a byte of a tensor does not depend on the memory behind that byte. -/
theorem take_flatten_congr (K : WriterSizes) (hos : os.WritesAll) (old : List (List UInt8)) {mem mem' : Nat → UInt8}
    {front rest : List String} {name : String} (hnew : (tensorData name).1 ∉ (front.map tensorData).map Prod.fst)
    (hfront : ∀ n ∈ front, read mem (tensorData n).1 (tensorData n).2 = read mem' (tensorData n).1 (tensorData n).2) {k : Nat}
    (hk : k ≤ (tensorData name).2) (hread : read mem (tensorData name).1 k = read mem' (tensorData name).1 k) :
    ∃ parts parts', (saveTensors K os mem tensorData (front ++ name :: rest) ⟨old, 0, []⟩).2.files = overlay old parts ∧
      (saveTensors K os mem' tensorData (front ++ name :: rest) ⟨old, 0, []⟩).2.files = overlay old parts' ∧
      parts.map length = parts'.map length ∧
      parts.flatten.take (recordStart ((front ++ name :: rest).map tensorData) (tensorData name).1 + k) =
        parts'.flatten.take (recordStart ((front ++ name :: rest).map tensorData) (tensorData name).1 + k) ∧
      parts.map length = partitionSizes K.kPartitionMaxSize (sizesOf ((front ++ name :: rest).map tensorData)) := by
  obtain ⟨parts₀, h₀, -⟩ := (Saved.start K old mem tensorData).loop hos front
  rw [nil_append] at h₀
  have hloop : ∀ s, saveLoop K os mem tensorData front s = saveLoop K os mem' tensorData front s := by
    intro s
    refine foldl_ext _ _ s fun s n hn => ?_
    simp only [saveTensor, hfront n hn]
  have h₀' : Saved K old mem' tensorData front parts₀
      (saveLoop K os mem' tensorData front ⟨.new, ⟨old, 0, []⟩, fun _ => none, fun _ => none⟩) := by
    rw [← hloop]
    refine { h₀ with held := fun r hr => ?_ }
    obtain ⟨n, hn, rfl⟩ := mem_map.1 (firstSeen_subset _ hr)
    rw [← hfront n hn]
    exact h₀.held _ hr
  obtain ⟨parts, h, hpre⟩ := h₀.loop hos (name :: rest)
  obtain ⟨parts', h', hpre'⟩ := h₀'.loop hos (name :: rest)
  rw [saveLoop, saveLoop, ← foldl_append] at h h'
  refine ⟨parts, parts', (h.stored.destroy hos).1, (h'.stored.destroy hos).1, by rw [h.sizes, h'.sizes], ?_, h.sizes⟩
  have hstart : recordStart ((front ++ name :: rest).map tensorData) (tensorData name).1 = parts₀.flatten.length := by
    rw [h₀.length, ← recordStart_new hnew, append_cons, map_append, map_append, map_singleton]
    exact recordStart_append (by simp) _
  have hmem : tensorData name ∈ recordsOf ((front ++ name :: rest).map tensorData) := by
    have hsub := firstSeen_prefix Prod.fst ((front ++ [name]).map tensorData) (rest.map tensorData)
    rw [← map_append, ← append_cons, map_append, map_singleton] at hsub
    exact hsub.subset (by rw [← recordsOf, recordsOf_new hnew]; simp)
  -- the bytes of the tensor up to that one
  have htake : ∀ {mem : Nat → UInt8} {parts : List (List UInt8)}, parts₀.flatten <+: parts.flatten →
      HeldAt parts parts₀.flatten.length (read mem (tensorData name).1 (tensorData name).2) →
      parts.flatten.take (parts₀.flatten.length + k) = parts₀.flatten ++ read mem (tensorData name).1 k := by
    intro mem parts ⟨t, ht⟩ hheld
    have hbytes := congrArg (take k) hheld.take_drop
    rw [← ht, drop_left, take_take, length_read, Nat.min_eq_left hk] at hbytes
    rw [← ht, take_length_add_append, hbytes]
    simpa using take_drop_read mem (tensorData name).1 (i := 0) (by omega)
  have hheld := h.held _ hmem
  have hheld' := h'.held _ hmem
  rw [hstart] at hheld hheld' ⊢
  rw [htake hpre hheld, htake hpre' hheld', hread]

end Loop

end

def OneSize (tensorData : String → Nat × Nat) (names : List String) : Prop :=
  ∀ name ∈ names, ∀ name' ∈ names, (tensorData name).1 = (tensorData name').1 → (tensorData name).2 = (tensorData name').2

/-- The range `[offset, offset + size)` of the partitions lies within one of them. -/
def InOnePartition (files : List (List UInt8)) (offset size : Nat) : Prop :=
  ∃ i file, files[i]? = some file ∧ (files.take i).flatten.length ≤ offset ∧
    offset + size ≤ (files.take i).flatten.length + file.length

/-- What the offsets and the directory of a save satisfy. -/
structure SavedTensors (mem : Nat → UInt8) (tensorData : String → Nat × Nat) (names : List String)
    (offsets : String → Option Nat) (d : Disk) : Prop where
  /-- Every tensor has an offset, a multiple of 8, where its bytes are, within one file. -/
  tensor : ∀ name ∈ names, ∃ offset, offsets name = some offset ∧ 8 ∣ offset ∧
    (d.files.flatten.drop offset).take (tensorData name).2 = read mem (tensorData name).1 (tensorData name).2 ∧
    InOnePartition d.files offset (tensorData name).2
  /-- The records of different pointers do not overlap. -/
  apart : ∀ name ∈ names, ∀ name' ∈ names, (tensorData name).1 ≠ (tensorData name').1 →
    ∀ offset offset', offsets name = some offset → offsets name' = some offset' →
      offset + (tensorData name).2 ≤ offset' ∨ offset' + (tensorData name').2 ≤ offset
  /-- No error branch was taken. -/
  quiet : d.stderr = []

theorem OneSize.mem_recordsOf {tensorData : String → Nat × Nat} {names : List String} (h : OneSize tensorData names)
    {name : String} (hn : name ∈ names) : tensorData name ∈ recordsOf (names.map tensorData) := by
  refine ServerlessLLM.mem_recordsOf ?_ (mem_map_of_mem hn)
  intro r hr r' hr' hba
  obtain ⟨n, hn, rfl⟩ := mem_map.1 hr
  obtain ⟨n', hn', rfl⟩ := mem_map.1 hr'
  exact h n hn n' hn' hba

/-- The record of the pointer is not shifted: no partition that ends before it is shorter than the file that was there. -/
def InPlace (K : WriterSizes) (old : List (List UInt8)) (l : List (Nat × Nat)) (base : Nat) : Prop :=
  Unshifted old (partitionSizes K.kPartitionMaxSize (sizesOf l)) (recordStart l base)

/-- Nothing is shifted when no file of the directory is longer than the partition over it. -/
theorem inPlace_of_short {K : WriterSizes} {old : List (List UInt8)} {l : List (Nat × Nat)} {sizes : List Nat} {base : Nat}
    (hsizes : partitionSizes K.kPartitionMaxSize (sizesOf l) = sizes)
    (h : List.Forall₂ (fun file size => file.length ≤ size) old (sizes.take old.length)) : InPlace K old l base := by
  intro i _
  rw [hsizes]
  rcases Nat.lt_or_ge i old.length with hi | hi
  · have hlen := h.length_eq
    have hi' : i < sizes.length := by
      rw [length_take] at hlen
      omega
    have hle := h.get hi (by rwa [← hlen])
    simpa [getD_eq_getElem?_getD, hi, hi'] using hle
  · simp [getD_eq_getElem?_getD, hi]

section Directory

variable {K : WriterSizes} {os : Os} (hos : os.WritesAll) {tensorData : String → Nat × Nat} {names : List String}
  (hsize : OneSize tensorData names) {old : List (List UInt8)}

include hos hsize

/-- A tensor that is not shifted, or has no bytes, is where its offset says. -/
theorem heldAt_of_inPlace (mem : Nat → UInt8) {name : String} (hn : name ∈ names)
    (h : 0 < (tensorData name).2 → InPlace K old (names.map tensorData) (tensorData name).1) :
    HeldAt (saveTensors K os mem tensorData names ⟨old, 0, []⟩).2.files (recordStart (names.map tensorData) (tensorData name).1)
      (read mem (tensorData name).1 (tensorData name).2) := by
  obtain ⟨parts, hfiles, -, -, hsizes, -, hhe⟩ := saveTensors_spec K hos old mem tensorData names
  have hheld := hhe _ (hsize.mem_recordsOf hn)
  rw [hfiles]
  rcases Nat.eq_zero_or_pos (tensorData name).2 with hzero | hpos
  · -- without bytes only the position counts
    rw [hzero, read_zero] at hheld ⊢
    refine heldAt_nil ?_ (hheld.add_le_length.trans (length_le_overlay old parts))
    obtain ⟨front, seg, back, -, -, rfl, -⟩ := hheld
    rw [← length_pos_iff_ne_nil, length_overlay, length_append, length_cons]
    omega
  · exact hheld.overlaid (by rw [hsizes]; exact h hpos)

theorem saves_of_inPlace
    (h : ∀ name ∈ names, 0 < (tensorData name).2 → InPlace K old (names.map tensorData) (tensorData name).1)
    (mem : Nat → UInt8) : SavedTensors mem tensorData names (saveTensors K os mem tensorData names ⟨old, 0, []⟩).1
      (saveTensors K os mem tensorData names ⟨old, 0, []⟩).2 := by
  obtain ⟨-, -, hquiet, hoff, -⟩ := saveTensors_spec K hos old mem tensorData names
  refine ⟨?_, ?_, hquiet⟩
  · intro name hn
    have hrec := heldAt_of_inPlace hos hsize mem hn (h name hn)
    have hbyt := hrec.take_drop
    have hins := hrec.inside
    rw [length_read] at hbyt hins
    exact ⟨_, hoff name hn, eight_dvd_recordStart _ _, hbyt, hins⟩
  · intro name hn name' hn' hne offset offset' ho ho'
    rw [hoff name hn] at ho
    rw [hoff name' hn'] at ho'
    obtain rfl := Option.some.inj ho
    obtain rfl := Option.some.inj ho'
    have h1 := size_le_recordWidth (tensorData name)
    have h2 := size_le_recordWidth (tensorData name')
    have hap : recordStart _ (tensorData name).1 + recordWidth (tensorData name) ≤ recordStart _ (tensorData name').1 ∨
        recordStart _ (tensorData name').1 + recordWidth (tensorData name') ≤ recordStart _ (tensorData name).1 :=
      start_apart (nodup_firstSeen _) (hsize.mem_recordsOf hn) (hsize.mem_recordsOf hn') hne
    omega

omit hos in
/-- Behind a partition that a record with bytes follows, the next record with bytes begins. -/
theorem exists_next_record {name : String} (hn : name ∈ names) (hpos : 0 < (tensorData name).2) {i : Nat}
    (hsum : ((partitionSizes K.kPartitionMaxSize (sizesOf (names.map tensorData))).take (i + 1)).sum ≤
      recordStart (names.map tensorData) (tensorData name).1) :
    ∃ name' ∈ names, 0 < (tensorData name').2 ∧ recordStart (names.map tensorData) (tensorData name').1 =
      ((partitionSizes K.kPartitionMaxSize (sizesOf (names.map tensorData))).take (i + 1)).sum := by
  obtain ⟨front, back, hsizes, hbound⟩ := sum_take_partitionSizes K.kPartitionMaxSize (sizesOf (names.map tensorData)) i
  obtain ⟨front, back, hrecs, rfl, rfl⟩ := map_eq_append_iff.1 hsizes
  have hfront : total recordWidth front = ((front.map Prod.snd).map padded).sum := by
    rw [map_map]
    rfl
  have hlast : recordStart (names.map tensorData) (tensorData name).1 + recordWidth (tensorData name) ≤
      total recordWidth (recordsOf (names.map tensorData)) := start_add_width_le (nodup_firstSeen _) (hsize.mem_recordsOf hn)
  have hwidth := size_le_recordWidth (tensorData name)
  have htotal : total recordWidth (recordsOf (names.map tensorData)) = total recordWidth front + total recordWidth back := by
    rw [hrecs, total_append]
  have hback : 0 < total recordWidth back := by omega
  obtain ⟨zeros, r, rest, rfl, hzeros, hr⟩ := exists_first recordWidth hback
  obtain ⟨name', hn', rfl⟩ : ∃ name' ∈ names, tensorData name' = r :=
    mem_map.1 (firstSeen_subset _ (show r ∈ recordsOf (names.map tensorData) by simp [hrecs]))
  refine ⟨name', hn', ?_, ?_⟩
  · unfold recordWidth at hr
    omega
  · have hnd : ((recordsOf (names.map tensorData)).map Prod.fst).Nodup := nodup_firstSeen _
    rw [hrecs, ← append_assoc, map_append, map_cons, nodup_append] at hnd
    rw [recordStart, hrecs, ← append_assoc, start, before_append, total_append, hzeros, hbound, hfront, Nat.add_zero]
    exact fun hmem => hnd.2.2 _ hmem _ (mem_cons_self ..) rfl

/-- Where a record is shifted, the first one with bytes behind the shorter partition begins with a byte of the old file. -/
theorem exists_shifted {name : String} (hn : name ∈ names) (hpos : 0 < (tensorData name).2)
    (h : ¬InPlace K old (names.map tensorData) (tensorData name).1) :
    ∃ x, (∃ file ∈ old, x ∈ file) ∧ ∀ mem : Nat → UInt8, (∀ a, mem a ≠ x) →
      ¬SavedTensors mem tensorData names (saveTensors K os mem tensorData names ⟨old, 0, []⟩).1
        (saveTensors K os mem tensorData names ⟨old, 0, []⟩).2 := by
  classical
  have hex : ∃ i, ((partitionSizes K.kPartitionMaxSize (sizesOf (names.map tensorData))).take (i + 1)).sum ≤
      recordStart (names.map tensorData) (tensorData name).1 ∧
      (partitionSizes K.kPartitionMaxSize (sizesOf (names.map tensorData))).getD i 0 < (old.getD i []).length := by
    simpa [InPlace, Unshifted] using h
  -- the first file with a tail
  obtain ⟨i, ⟨hsum, hlong⟩, hmin⟩ := Nat.findX hex
  obtain ⟨name', hn', hpos', hstart⟩ := exists_next_record (K := K) hsize hn hpos hsum
  refine ⟨(old.getD i [])[(partitionSizes K.kPartitionMaxSize (sizesOf (names.map tensorData))).getD i 0], ?_, ?_⟩
  · refine ⟨old.getD i [], ?_, getElem_mem _⟩
    rw [getD_eq_getElem?_getD] at hlong ⊢
    cases hi : old[i]? with
    | none => simp [hi] at hlong
    | some file => exact mem_of_getElem? hi
  · intro mem hmem hsaved
    obtain ⟨parts, hfiles, -, hoff, hsizes, hlen, hhe⟩ := saveTensors_spec K hos old mem tensorData names
    have hget : ∀ j, (parts.getD j []).length =
        (partitionSizes K.kPartitionMaxSize (sizesOf (names.map tensorData))).getD j 0 := by
      intro j
      rw [← hsizes]
      simp only [getD_eq_getElem?_getD, getElem?_map]
      cases parts[j]? <;> rfl
    have hi : i < parts.length := by
      by_contra hge
      have hlast := (hhe _ (hsize.mem_recordsOf hn)).add_le_length
      rw [← hsizes, take_of_length_le (by rw [length_map]; omega), ← length_flatten] at hsum
      rw [length_read] at hlast
      omega
    have hcovered : ∀ j < i, (old.getD j []).length ≤ (parts.getD j []).length := by
      intro j hj
      rw [hget]
      exact Nat.not_lt.1 fun hlt => hmin j hj ⟨(sum_take_le (Nat.succ_le_succ hj.le)).trans hsum, hlt⟩
    have hbyte := getElem?_overlay hi hcovered (by rwa [hget])
    rw [hsizes, hget, getElem?_eq_getElem hlong] at hbyte
    obtain ⟨offset, ho, -, hbytes, -⟩ := hsaved.tensor name' hn'
    obtain rfl := Option.some.inj ((hoff name' hn').symm.trans ho)
    have hfst := congrArg (·[0]?) hbytes
    simp only [getElem?_take_of_lt hpos', getElem?_drop, Nat.add_zero, hfiles, hstart, hbyte] at hfst
    refine hmem (tensorData name').1 ?_
    simpa [Bytes.read, hpos'] using hfst.symm

/-- `SaveTensors` in any directory, for every sequence of tensors in which tensors with one pointer have one size: whatever the
tensors hold, every one is where its offset says, exactly when no record with bytes is shifted by the files that were there. -/
theorem saveTensors_saves_iff : (∀ mem, SavedTensors mem tensorData names
      (saveTensors K os mem tensorData names ⟨old, 0, []⟩).1 (saveTensors K os mem tensorData names ⟨old, 0, []⟩).2) ↔
    ∀ name ∈ names, 0 < (tensorData name).2 → InPlace K old (names.map tensorData) (tensorData name).1 := by
  constructor
  · intro h name hn hpos
    by_contra hshift
    obtain ⟨x, -, hne⟩ := exists_shifted hos hsize hn hpos hshift
    exact hne (fun _ => x + 1) (fun _ => by simp) (h _)
  · exact saves_of_inPlace hos hsize

end Directory

/-- Three tensors, of which the last shares the data of the first. -/
def threeTensors (name : String) : Nat × Nat := if name = "b" then (200, 9) else (100, 3)

def smallPartitions : WriterSizes := ⟨4096, 16, by decide, by decide⟩

/-- The first partition is longer than the file that was there, and the second one is the last. -/
theorem saveTensors_saves_threeTensors : SavedTensors .ofNat threeTensors ["a", "b", "c"]
    (saveTensors smallPartitions .reliable .ofNat threeTensors ["a", "b", "c"] ⟨[[1, 2, 3], replicate 20 9], 0, []⟩).1
    (saveTensors smallPartitions .reliable .ofNat threeTensors ["a", "b", "c"] ⟨[[1, 2, 3], replicate 20 9], 0, []⟩).2 := by
  refine (saveTensors_saves_iff (fun _ _ => rfl) ?_).2 ?_ .ofNat
  · unfold OneSize
    decide
  · have hsizes : partitionSizes 16 (sizesOf (["a", "b", "c"].map threeTensors)) = [8, 16] := by decide
    have hstart : ∀ name ∈ ["a", "b", "c"],
      recordStart (["a", "b", "c"].map threeTensors) (threeTensors name).1 < 24 := by decide
    intro name hn _ i hi
    have hlt := hstart name hn
    rw [show partitionSizes smallPartitions.kPartitionMaxSize _ = [8, 16] from hsizes] at hi ⊢
    cases i with
    | zero => decide
    | succ i =>
      have hall : ([8, 16].take (i + 1 + 1)).sum = 24 := by simp
      omega

/-- Ten gigabytes, and eight bytes that come into a second partition. -/
def twoPartitions (name : String) : Nat × Nat := if name = "a" then (0, 10 <<< 30) else (10 <<< 30, 8)

/-- What an earlier save has left: a file that is longer than the first partition. -/
def longerFile : List UInt8 := replicate (10 <<< 30 + 8) 0

/-- Eight zeros of the old file stand where the second tensor should be. -/
theorem older_file_shifts_records : OneSize twoPartitions ["a", "b"] ∧
    ¬SavedTensors (fun _ => 1) twoPartitions ["a", "b"]
      (saveTensors .source .reliable (fun _ => 1) twoPartitions ["a", "b"] ⟨[longerFile], 0, []⟩).1
      (saveTensors .source .reliable (fun _ => 1) twoPartitions ["a", "b"] ⟨[longerFile], 0, []⟩).2 := by
  have hsize : OneSize twoPartitions ["a", "b"] := by
    unfold OneSize
    decide
  have hshift : ¬InPlace .source [longerFile] (["a", "b"].map twoPartitions) (twoPartitions "b").1 := by
    intro h
    have hle := h 0 (by decide +kernel)
    have hsizes : (partitionSizes WriterSizes.source.kPartitionMaxSize (sizesOf (["a", "b"].map twoPartitions))).getD 0 0 =
        10 <<< 30 := by decide +kernel
    rw [hsizes, getD_cons_zero, longerFile, length_replicate] at hle
    exact absurd hle (by decide)
  obtain ⟨x, ⟨file, hfile, hx⟩, hne⟩ := @exists_shifted _ .reliable (fun _ _ => rfl) _ _ hsize _ _ (by simp) (by decide) hshift
  refine ⟨hsize, hne _ fun _ => ?_⟩
  obtain rfl := mem_singleton.1 hfile
  rw [eq_of_mem_replicate hx]
  decide

end ServerlessLLM
