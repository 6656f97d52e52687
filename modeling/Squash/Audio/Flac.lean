import Squash.Global

/-!
# The FLAC decoder

libFLAC decodes a block and calls `flac_write_callback_decode_frame`, which packs the samples into
the buffer that `flac_decode_frame` hands over. The low byte of a sample is written as
`sample && 0xFF`, a truth value, where its last eight bits are meant. So a sample is read back from
the buffer only when these bits are 0 because the sample is 0, or are 1
(`flacWriteCallback_faithful_iff`); the size of the buffer is right for every block.

Memory is never exhausted.
-/

namespace Squash

open Pcm

/-! ## The model -/

/-- `flac_data_t` once the stream information has been read, without the decoder of the library. -/
structure FlacData where
  buffer : Option (List Byte)
  bufferSize : Nat
  channels : Nat
  sampleRate : Nat
  position : Nat
  duration : Nat
  deriving DecidableEq, Repr

/-- The `number` of a frame header, with its `number_type`. -/
inductive FlacNumber where
  | frameNumber (n : Nat)
  | sampleNumber (n : Nat)
  deriving DecidableEq, Repr

/-- What the code reads of `FLAC__Frame`. -/
structure FlacFrame where
  number : FlacNumber
  blocksize : Nat
  deriving DecidableEq, Repr

/-- What `flac_metadata_callback_decode_frame` reads of `FLAC__StreamMetadata_StreamInfo`. -/
structure FlacStreamInfo where
  channels : Nat
  sampleRate : Nat
  totalSamples : Nat
  deriving DecidableEq, Repr

/-- `a * 1000 / b` in unsigned integers of 64 bits; a division by zero ends the program. -/
def flacMilliseconds (a b : Nat) : Option Nat :=
  if b = 0 then none else some (a * 1000 % 2 ^ 64 / b)

/-- `flac_open`, with the stream information that `flac_metadata_callback_decode_frame` finds. -/
def flacOpen (info : FlacStreamInfo) (position : Nat) : Option FlacData := do
  let duration ← flacMilliseconds info.totalSamples info.sampleRate
  return {
    buffer := none
    bufferSize := 0
    channels := info.channels
    sampleRate := info.sampleRate
    position
    duration }

/-- The body of the inner loop. -/
def flacPutSample (c : Cursor Byte) (sample : Int32) : Option (Cursor Byte) := do
  -- `sample && 0xFF`
  let c ← c.put (if sample ≠ 0 then 1 else 0)
  c.put (toByte (sample >>> 8))

/-- The two loops over `buffer[ i ][ j ]`. -/
def flacPutBlock (channels blocksize : Nat) (buffer : Nat → Nat → Int32) (c : Cursor Byte) :
    Option (Cursor Byte) :=
  (List.range blocksize).foldlM (fun c j =>
    (List.range channels).foldlM (fun c i => flacPutSample c (buffer i j)) c) c

/-- The `switch` on the kind of number; `squash_error` ends the program. -/
def FlacData.setPosition (data : FlacData) (number : FlacNumber) : Option FlacData :=
  match number with
  | .frameNumber _ => none
  | .sampleNumber n =>
    (flacMilliseconds n data.sampleRate).map fun position => { data with position }

/-- The buffer is allocated anew only when its size changes. -/
def FlacData.resize (fresh : Nat → Byte) (data : FlacData) (size : Nat) : FlacData :=
  if data.buffer = none ∨ size ≠ data.bufferSize then
    { data with bufferSize := size, buffer := some (squashRealloc fresh data.buffer size) }
  else data

/-- `flac_write_callback_decode_frame`; `none` when the program ends. -/
def flacWriteCallbackDecodeFrame (fresh : Nat → Byte) (data : FlacData) (frame : FlacFrame)
    (buffer : Nat → Nat → Int32) : Option FlacData := do
  let data ← data.setPosition frame.number
  let data := data.resize fresh (frame.blocksize * data.channels * 2)
  let pcm ← data.buffer
  let c ← flacPutBlock data.channels frame.blocksize buffer ⟨pcm, 0⟩
  return { data with buffer := some c.buffer }

/-- `FLAC__FileDecoderState`, as `flac_decode_frame` tells its values apart. -/
inductive FlacDecoderState where
  | ok | endOfFile | error
  deriving DecidableEq, Repr

/-- `flac_decode_frame` behind `FLAC__file_decoder_process_single`. -/
def flacDecodeFrame (data : FlacData) (state : FlacDecoderState) : Option FrameData :=
  match state with
  | .ok => some ⟨data.buffer, data.bufferSize, data.position⟩
  | .endOfFile => some ⟨none, 0, data.position⟩
  -- `squash_error`
  | .error => none

/-! ## The buffer -/

/-- The buffer is as large as `buffer_size` says; without a buffer it is 0. -/
def FlacData.Allocated (data : FlacData) : Prop :=
  (data.buffer.getD []).length = data.bufferSize

theorem FlacData.Allocated.setPosition {data : FlacData} (halloc : data.Allocated)
    (position : Nat) : { data with position }.Allocated := halloc

theorem flacOpen_allocated {info : FlacStreamInfo} {position : Nat} {data : FlacData}
    (h : flacOpen info position = some data) : data.Allocated := by
  rw [flacOpen, Option.bind_eq_bind, Option.bind_eq_some_iff] at h
  obtain ⟨duration, -, h⟩ := h
  cases h
  rfl

/-- The bytes of a sample as the callback writes them. -/
def flacBytes (sample : Int32) : List Byte :=
  [if sample ≠ 0 then 1 else 0, toByte (sample >>> 8)]

/-- The bytes of a block. -/
def flacBlockBytes (channels blocksize : Nat) (buffer : Nat → Nat → Int32) : List Byte :=
  (interleave channels blocksize buffer).flatMap flacBytes

theorem flacPutBlock_eq (channels blocksize : Nat) (buffer : Nat → Nat → Int32) (c : Cursor Byte) :
    flacPutBlock channels blocksize buffer c =
      c.putAll (flacBlockBytes channels blocksize buffer) := by
  have hrow : ∀ (c : Cursor Byte) (j : Nat),
      (List.range channels).foldlM (fun c i => flacPutSample c (buffer i j)) c =
        c.putAll (((List.range channels).map fun i => buffer i j).flatMap flacBytes) := by
    intro c j
    have hsample : ∀ (c : Cursor Byte) (i : Nat),
        flacPutSample c (buffer i j) = c.putAll (flacBytes (buffer i j)) :=
      fun c i => (Cursor.putAll_pair c _ _).symm
    rw [List.flatMap_map]
    exact Cursor.foldlM_putAll hsample _ _
  rw [flacPutBlock, Cursor.foldlM_putAll hrow, flacBlockBytes, interleave, List.flatMap_assoc]

theorem length_flacBlockBytes (channels blocksize : Nat) (buffer : Nat → Nat → Int32) :
    (flacBlockBytes channels blocksize buffer).length = blocksize * channels * 2 := by
  have hlength : (fun sample => (flacBytes sample).length) = fun _ => 2 := rfl
  rw [flacBlockBytes, List.length_flatMap, hlength, List.map_const', List.sum_replicate_nat,
    length_interleave]

/-- The program goes on behind the `switch` exactly when the header counts in samples and the sample
rate is not 0; only the position changes. -/
theorem setPosition_eq_some_iff {data next : FlacData} {number : FlacNumber} :
    data.setPosition number = some next ↔ ∃ n, number = .sampleNumber n ∧ data.sampleRate ≠ 0 ∧
      next = { data with position := n * 1000 % 2 ^ 64 / data.sampleRate } := by
  cases number with
  | frameNumber n => simp [FlacData.setPosition]
  | sampleNumber n =>
      by_cases hrate : data.sampleRate = 0
      · simp [FlacData.setPosition, flacMilliseconds, hrate]
      · simp [FlacData.setPosition, flacMilliseconds, hrate, eq_comm]

theorem resize_buffer {data : FlacData} (fresh : Nat → Byte) (size : Nat)
    (halloc : data.Allocated) : ∃ pcm : List Byte, pcm.length = size ∧
      data.resize fresh size = { data with bufferSize := size, buffer := some pcm } := by
  by_cases hfresh : data.buffer = none ∨ size ≠ data.bufferSize
  · rw [FlacData.resize, if_pos hfresh]
    exact ⟨_, length_squashRealloc _ _ _, rfl⟩
  · rw [FlacData.resize, if_neg hfresh]
    obtain ⟨hbuffer, hsize⟩ := not_or.mp hfresh
    obtain ⟨pcm, hpcm⟩ := Option.ne_none_iff_exists'.mp hbuffer
    have hsize : size = data.bufferSize := not_not.mp hsize
    have hlength : pcm.length = data.bufferSize := by
      rw [FlacData.Allocated, hpcm] at halloc
      exact halloc
    refine ⟨pcm, hlength.trans hsize.symm, ?_⟩
    rw [← hpcm, hsize]

/-- **The callback fills the buffer with the bytes of the block**, unless the program ends. -/
theorem flacWriteCallback_eq {fresh : Nat → Byte} {data : FlacData} {frame : FlacFrame}
    {buffer : Nat → Nat → Int32} (halloc : data.Allocated) :
    flacWriteCallbackDecodeFrame fresh data frame buffer =
      (data.setPosition frame.number).map fun data => { data with
        bufferSize := frame.blocksize * data.channels * 2
        buffer := some (flacBlockBytes data.channels frame.blocksize buffer) } := by
  rw [flacWriteCallbackDecodeFrame]
  cases hposition : data.setPosition frame.number with
  | none => rfl
  | some next =>
      obtain ⟨n, -, -, rfl⟩ := setPosition_eq_some_iff.mp hposition
      obtain ⟨pcm, hpcm, hresize⟩ := resize_buffer fresh
        (frame.blocksize * data.channels * 2) (halloc.setPosition _)
      have hlength := length_flacBlockBytes data.channels frame.blocksize buffer
      rw [Option.bind_eq_bind, Option.bind_some, hresize, Option.bind_eq_bind, Option.bind_some,
        flacPutBlock_eq, Cursor.putAll_fill (hlength.trans hpcm.symm)]
      rfl

theorem flacWriteCallback_allocated {fresh : Nat → Byte} {data after : FlacData} {frame : FlacFrame}
    {buffer : Nat → Nat → Int32} (halloc : data.Allocated)
    (h : flacWriteCallbackDecodeFrame fresh data frame buffer = some after) : after.Allocated := by
  rw [flacWriteCallback_eq halloc] at h
  obtain ⟨next, -, rfl⟩ := Option.map_eq_some_iff.mp h
  exact length_flacBlockBytes _ _ _

theorem flacDecodeFrame_delivered {data : FlacData} {state : FlacDecoderState} {frame : FrameData}
    (halloc : data.Allocated) (h : flacDecodeFrame data state = some frame)
    (hpos : 0 < frame.pcmSize) : frame.Delivered := by
  cases state with
  | ok =>
      cases h
      cases hbuffer : data.buffer with
      | none =>
          rw [FlacData.Allocated, hbuffer] at halloc
          rw [← halloc] at hpos
          exact absurd hpos (Int.lt_irrefl 0)
      | some pcm =>
          rw [FlacData.Allocated, hbuffer] at halloc
          exact ⟨pcm, rfl, congrArg Nat.cast halloc.symm⟩
  | endOfFile =>
      cases h
      exact absurd hpos (Int.lt_irrefl 0)
  | error => cases h

/-! ## Reading the buffer back -/

theorem int16s_flacBlockBytes (channels blocksize : Nat) (buffer : Nat → Nat → Int32) :
    int16s (flacBlockBytes channels blocksize buffer) = interleave channels blocksize fun i j =>
      int16 (if buffer i j ≠ 0 then 1 else 0) (toByte (buffer i j >>> 8)) := by
  rw [flacBlockBytes, ← map_interleave fun sample : Int32 =>
    int16 (if sample ≠ 0 then 1 else 0) (toByte (sample >>> 8))]
  exact int16s_flatMap _ _ _

/-- Which samples of 16 bits the two bytes give back. -/
theorem int16_flacBytes_eq_iff {sample : Int32} (hlow : -32768 ≤ sample.toInt)
    (hhigh : sample.toInt < 32768) :
    int16 (if sample ≠ 0 then 1 else 0) (toByte (sample >>> 8)) = sample.toInt ↔
      sample = 0 ∨ sample.toInt % 256 = 1 := by
  rw [int16_eq_iff hlow hhigh, toNat_toByte, toInt_shiftRight_eight, and_iff_left rfl]
  by_cases h : sample = 0
  · simp [h]
  · rw [if_pos h, or_iff_right h]
    exact eq_comm

/-- The buffer holds the samples of the block, in 16 bits, and nothing else. -/
def FlacFaithful (pcm : List Byte) (channels blocksize : Nat) (buffer : Nat → Nat → Int32) : Prop :=
  (∀ i < channels, ∀ j < blocksize,
    (int16s pcm)[j * channels + i]? = some (buffer i j).toInt) ∧
  pcm.length = blocksize * channels * 2

/-- **When the buffer is faithful.** For a block of 16-bit samples the callback fills a buffer of
the right size, and the samples are read back from it exactly when each is 0 or leaves the remainder
1 modulo 256. It does not come back only when the header does not count in samples or the sample
rate is 0. -/
theorem flacWriteCallback_faithful_iff {fresh : Nat → Byte} {data : FlacData} {frame : FlacFrame}
    {buffer : Nat → Nat → Int32} (halloc : data.Allocated)
    (hsamples : ∀ i < data.channels, ∀ j < frame.blocksize,
      -32768 ≤ (buffer i j).toInt ∧ (buffer i j).toInt < 32768) :
    (flacWriteCallbackDecodeFrame fresh data frame buffer = none ↔
      data.sampleRate = 0 ∨ ∃ n, frame.number = .frameNumber n) ∧
    ∀ after, flacWriteCallbackDecodeFrame fresh data frame buffer = some after →
      ∃ pcm, after.buffer = some pcm ∧
        pcm.length = frame.blocksize * data.channels * 2 ∧
        (FlacFaithful pcm data.channels frame.blocksize buffer ↔
          ∀ i < data.channels, ∀ j < frame.blocksize,
            buffer i j = 0 ∨ (buffer i j).toInt % 256 = 1) := by
  rw [flacWriteCallback_eq halloc]
  constructor
  · rw [Option.map_eq_none_iff, Option.eq_none_iff_forall_ne_some]
    simp only [ne_eq, setPosition_eq_some_iff]
    cases frame.number <;> simp
  · intro after hafter
    obtain ⟨next, hnext, rfl⟩ := Option.map_eq_some_iff.mp hafter
    obtain ⟨n, -, -, rfl⟩ := setPosition_eq_some_iff.mp hnext
    have hlength := length_flacBlockBytes data.channels frame.blocksize buffer
    refine ⟨_, rfl, hlength, ?_⟩
    rw [FlacFaithful, int16s_flacBlockBytes, and_iff_left hlength]
    apply forall₂_congr
    intro i hi
    apply forall₂_congr
    intro j hj
    rw [getElem?_interleave hi hj, Option.some.injEq]
    exact int16_flacBytes_eq_iff (hsamples i hi j hj).1 (hsamples i hi j hj).2

/-- The sample 257 is read back. -/
theorem flacWriteCallback_faithful_257 : ∃ after pcm,
    flacWriteCallbackDecodeFrame (fun _ => 0) ⟨none, 0, 1, 44100, 0, 0⟩ ⟨.sampleNumber 0, 1⟩
      (fun _ _ => 257) = some after ∧
    after.buffer = some pcm ∧ FlacFaithful pcm 1 1 fun _ _ => 257 := by
  have hafter : flacWriteCallbackDecodeFrame (fun _ => 0) ⟨none, 0, 1, 44100, 0, 0⟩
      ⟨.sampleNumber 0, 1⟩ (fun _ _ => 257) = some ⟨some [1, 1], 2, 1, 44100, 0, 0⟩ := by decide
  have hsamples : ∀ i < 1, ∀ j < 1, -32768 ≤ ((fun _ _ => 257 : Nat → Nat → Int32) i j).toInt ∧
      ((fun _ _ => 257 : Nat → Nat → Int32) i j).toInt < 32768 := by decide
  have halloc : FlacData.Allocated ⟨none, 0, 1, 44100, 0, 0⟩ := rfl
  obtain ⟨pcm, hpcm, -, hiff⟩ := (flacWriteCallback_faithful_iff halloc hsamples).2 _ hafter
  exact ⟨_, pcm, hafter, hpcm, hiff.mpr (by decide)⟩

/-- The sample 2 is read back as 1. -/
theorem flacWriteCallback_not_faithful : ∃ after pcm,
    flacWriteCallbackDecodeFrame (fun _ => 0) ⟨none, 0, 1, 44100, 0, 0⟩ ⟨.sampleNumber 0, 1⟩
      (fun _ _ => 2) = some after ∧
    after.buffer = some pcm ∧ int16s pcm = [1] ∧ ¬ FlacFaithful pcm 1 1 fun _ _ => 2 := by
  refine ⟨⟨some [1, 0], 2, 1, 44100, 0, 0⟩, [1, 0], by decide, rfl, by decide, ?_⟩
  unfold FlacFaithful
  decide

end Squash
