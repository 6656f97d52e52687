import Mathlib.Algebra.BigOperators.Ring.List
import Mathlib.Algebra.Ring.Nat
import Squash.Foundations.Buffer

/-!
# The sound device of the empeg

The device takes blocks of `EMPEG_AUDIO_BUFFER_SIZE` bytes. `sound_play` collects the bytes of the
frames in a buffer and writes the buffer out whenever it is full; `sound_close` fills the last block
up with zeros.

`Carries d stream` says that nothing was lost: the blocks written, and behind them the used part of
the buffer, are all the bytes that were played. `sound_carries_all` is the result for a whole song.
-/

namespace Squash.Sound

abbrev Byte := UInt8

/-- `EMPEG_AUDIO_BUFFER_SIZE`. -/
def empegAudioBufferSize : Nat := 4608

/-- `sound_device_t`, with the blocks that `write` was given for `audio`. -/
structure SoundDevice where
  buffer : List Byte
  bufferSize : Nat
  blocks : List (List Byte)
  deriving DecidableEq, Repr

/-- `sound_open`; `contents` is what `malloc` leaves in the buffer. -/
def soundOpen (contents : Nat → Byte) : SoundDevice where
  buffer := (List.range empegAudioBufferSize).map contents
  bufferSize := 0
  blocks := []

/-- `write( sound_device->audio, sound_device->buffer, EMPEG_AUDIO_BUFFER_SIZE )`, which takes the
whole block, and `buffer_size = 0`. -/
def SoundDevice.flush (d : SoundDevice) : SoundDevice :=
  { d with bufferSize := 0, blocks := d.blocks ++ [d.buffer.take empegAudioBufferSize] }

/-- `memcpy( &buffer[buffer_size], &pcm_data[i], copy_amount )`; `none` when it reads or writes
outside of the arrays. -/
def SoundDevice.copy (d : SoundDevice) (pcmData : List Byte) (i copyAmount : Nat) :
    Option SoundDevice :=
  if i + copyAmount ≤ pcmData.length then
    (Buffer.write d.buffer d.bufferSize ((pcmData.drop i).take copyAmount)).map fun buffer =>
      { d with buffer, bufferSize := d.bufferSize + copyAmount }
  else none

/-- One turn of the loop of `sound_play`, with the new `i`. -/
def soundPlayTurn (pcmData : List Byte) (d : SoundDevice) (i : Nat) : Option (SoundDevice × Nat) :=
  let bufferRemain : Int := empegAudioBufferSize - d.bufferSize
  if bufferRemain > 0 then
    let pcmRemain : Int := pcmData.length - i
    let copyAmount := if pcmRemain > bufferRemain then bufferRemain else pcmRemain
    (d.copy pcmData i copyAmount.toNat).map fun d =>
      (if bufferRemain - copyAmount = 0 then d.flush else d, i + copyAmount.toNat)
  else if bufferRemain = 0 then some (d.flush, i)
  else some (d, i)

/-- The loop, cut off after so many turns. -/
def soundPlayLoop (pcmData : List Byte) : Nat → SoundDevice → Nat → Option SoundDevice
  | turns, d, i =>
    if i < pcmData.length then
      match turns with
      | 0 => none
      | turns + 1 => (soundPlayTurn pcmData d i).bind fun (d, i) => soundPlayLoop pcmData turns d i
    else some d

/-- `sound_play`; `none` when it leaves an array, or is not done after a turn for each byte. -/
def soundPlay (d : SoundDevice) (pcmData : List Byte) : Option SoundDevice :=
  soundPlayLoop pcmData pcmData.length d 0

/-- `sound_close`, up to the calls of `close`. -/
def soundClose (d : SoundDevice) : Option SoundDevice :=
  if d.bufferSize ≠ 0 then
    let bufferRemain : Int := empegAudioBufferSize - d.bufferSize
    (Buffer.write d.buffer d.bufferSize (List.replicate bufferRemain.toNat 0)).map fun buffer =>
      { d with buffer }.flush
  else some d

/-! ## The invariant -/

/-- The device has room, and carries the bytes `stream` so far. -/
structure Carries (d : SoundDevice) (stream : List Byte) : Prop where
  buffer : d.buffer.length = empegAudioBufferSize
  room : d.bufferSize < empegAudioBufferSize
  blocks : ∀ block ∈ d.blocks, block.length = empegAudioBufferSize
  stream : d.blocks.flatten ++ d.buffer.take d.bufferSize = stream

theorem carries_open (contents : Nat → Byte) : Carries (soundOpen contents) [] where
  buffer := by simp [soundOpen]
  room := Nat.succ_pos _
  blocks := nofun
  stream := rfl

/-- A full buffer is written out. -/
theorem carries_flush {d : SoundDevice} {stream : List Byte}
    (hbuffer : d.buffer.length = empegAudioBufferSize)
    (hblocks : ∀ block ∈ d.blocks, block.length = empegAudioBufferSize)
    (hstream : d.blocks.flatten ++ d.buffer = stream) : Carries d.flush stream := by
  have htake : d.buffer.take empegAudioBufferSize = d.buffer := by
    rw [← hbuffer, List.take_length]
  refine ⟨hbuffer, Nat.succ_pos _, ?_, ?_⟩
  · intro block hblock
    rcases List.mem_append.mp hblock with hblock | hblock
    · exact hblocks block hblock
    · rw [List.mem_singleton.mp hblock, htake, hbuffer]
  · simpa [SoundDevice.flush, htake] using hstream

/-- **A turn of the loop** copies some bytes of the frame. -/
theorem soundPlayTurn_carries {d : SoundDevice} {stream pcmData : List Byte} {i : Nat}
    (h : Carries d (stream ++ pcmData.take i)) (hi : i < pcmData.length) :
    ∃ d' i', soundPlayTurn pcmData d i = some (d', i') ∧ i < i' ∧ i' ≤ pcmData.length ∧
      Carries d' (stream ++ pcmData.take i') := by
  have hroom := h.room
  have hbuffer := h.buffer
  -- what the turn copies: what fits, or what is left
  obtain ⟨n, hn, hpos, hleft, hfits⟩ : ∃ n : Nat,
      (n : Int) = (if (pcmData.length - i : Int) > empegAudioBufferSize - d.bufferSize then
        (empegAudioBufferSize - d.bufferSize : Int) else pcmData.length - i) ∧
      0 < n ∧ i + n ≤ pcmData.length ∧ d.bufferSize + n ≤ empegAudioBufferSize := by
    by_cases hmore : (pcmData.length - i : Int) > empegAudioBufferSize - d.bufferSize
    · refine ⟨empegAudioBufferSize - d.bufferSize, ?_, ?_, ?_, ?_⟩
      · rw [if_pos hmore]
        omega
      all_goals omega
    · refine ⟨pcmData.length - i, ?_, ?_, ?_, ?_⟩
      · rw [if_neg hmore]
        omega
      all_goals omega
  have hchunk : ((pcmData.drop i).take n).length = n := by
    rw [List.length_take, List.length_drop]
    omega
  have hwrite : Buffer.write d.buffer d.bufferSize ((pcmData.drop i).take n) = some _ :=
    Buffer.write_eq_some (by omega)
  generalize d.buffer.take d.bufferSize ++ _ ++ _ = buffer at hwrite
  have hlength := Buffer.length_write hwrite
  have hused := Buffer.take_write hwrite
  rw [hchunk] at hused
  have hstream : d.blocks.flatten ++ (d.buffer.take d.bufferSize ++ (pcmData.drop i).take n) =
      stream ++ pcmData.take (i + n) := by
    rw [← List.append_assoc, h.stream, List.append_assoc, List.take_add]
  have hturn : soundPlayTurn pcmData d i =
      some (if ((empegAudioBufferSize - d.bufferSize : Int) - n) = 0 then
        SoundDevice.flush { d with buffer, bufferSize := d.bufferSize + n }
        else { d with buffer, bufferSize := d.bufferSize + n }, i + n) := by
    simp only [soundPlayTurn, ← hn]
    rw [if_pos (by omega)]
    simp [SoundDevice.copy, hleft, hwrite]
  refine ⟨_, _, hturn, by omega, hleft, ?_⟩
  by_cases hfull : ((empegAudioBufferSize - d.bufferSize : Int) - n) = 0
  · rw [if_pos hfull]
    refine carries_flush (hlength.trans hbuffer) h.blocks ?_
    rw [← hstream, ← Buffer.write_end hwrite (by omega)]
  · rw [if_neg hfull]
    refine ⟨hlength.trans hbuffer, ?_, h.blocks, ?_⟩
    · show d.bufferSize + n < empegAudioBufferSize
      omega
    · rw [← hstream, ← hused]

/-- The loop ends, a turn for each byte being enough. -/
theorem soundPlayLoop_carries {pcmData stream : List Byte} {turns : Nat} {d : SoundDevice} {i : Nat}
    (h : Carries d (stream ++ pcmData.take i)) (hturns : pcmData.length ≤ i + turns) :
    ∃ d', soundPlayLoop pcmData turns d i = some d' ∧ Carries d' (stream ++ pcmData) := by
  induction turns generalizing d i with
  | zero =>
      rw [Nat.add_zero] at hturns
      rw [List.take_of_length_le hturns] at h
      exact ⟨d, by rw [soundPlayLoop, if_neg (Nat.not_lt.mpr hturns)], h⟩
  | succ turns ih =>
      rw [soundPlayLoop]
      by_cases hi : i < pcmData.length
      · obtain ⟨d', i', hturn, hmore, -, hcarries⟩ := soundPlayTurn_carries h hi
        rw [if_pos hi, hturn]
        exact ih hcarries (by omega)
      · rw [List.take_of_length_le (Nat.not_lt.mp hi)] at h
        exact ⟨d, if_neg hi, h⟩

/-- `sound_play` ends inside of its arrays, and what the device carries grows by the frame. -/
theorem soundPlay_carries {d : SoundDevice} {stream : List Byte} (h : Carries d stream)
    (pcmData : List Byte) :
    ∃ d', soundPlay d pcmData = some d' ∧ Carries d' (stream ++ pcmData) := by
  apply soundPlayLoop_carries
  · simpa using h
  · omega

/-! ## A whole song -/

/-- All the frames of a song. -/
def soundPlayAll (d : SoundDevice) (frames : List (List Byte)) : Option SoundDevice :=
  frames.foldlM soundPlay d

theorem soundPlayAll_carries {d : SoundDevice} {stream : List Byte} (h : Carries d stream)
    (frames : List (List Byte)) :
    ∃ d', soundPlayAll d frames = some d' ∧ Carries d' (stream ++ frames.flatten) := by
  induction frames generalizing d stream with
  | nil => exact ⟨d, rfl, by simpa using h⟩
  | cons pcmData frames ih =>
      obtain ⟨d₁, hplay, hcarries⟩ := soundPlay_carries h pcmData
      obtain ⟨d₂, hall, hcarries⟩ := ih hcarries
      refine ⟨d₂, ?_, by simpa using hcarries⟩
      rw [soundPlayAll, List.foldlM_cons, hplay]
      exact hall

/-- Closing completes the last block with zeros, if there is one. -/
theorem soundClose_blocks {d : SoundDevice} {stream : List Byte} (h : Carries d stream) :
    ∃ d', soundClose d = some d' ∧
      (∀ block ∈ d'.blocks, block.length = empegAudioBufferSize) ∧
      ∃ n, n < empegAudioBufferSize ∧ d'.blocks.flatten = stream ++ List.replicate n 0 := by
  have hroom := h.room
  have hbuffer := h.buffer
  by_cases hempty : d.bufferSize = 0
  · refine ⟨d, by rw [soundClose, if_neg (not_not_intro hempty)], h.blocks, 0, Nat.succ_pos _, ?_⟩
    simpa [hempty] using h.stream
  · obtain ⟨n, hn⟩ : ∃ n : Nat, empegAudioBufferSize = d.bufferSize + n :=
      ⟨empegAudioBufferSize - d.bufferSize, by omega⟩
    have hremain : (empegAudioBufferSize - d.bufferSize : Int).toNat = n := by omega
    have hwrite : Buffer.write d.buffer d.bufferSize (List.replicate n 0) = some _ :=
      Buffer.write_eq_some (by rw [List.length_replicate]; omega)
    generalize d.buffer.take d.bufferSize ++ _ ++ _ = buffer at hwrite
    have hlength := Buffer.length_write hwrite
    have hfilled := Buffer.write_end hwrite (by rw [List.length_replicate]; omega)
    have hclosed : Carries (SoundDevice.flush { d with buffer }) (stream ++ List.replicate n 0) := by
      refine carries_flush (hlength.trans hbuffer) h.blocks ?_
      rw [hfilled, ← List.append_assoc, h.stream]
    refine ⟨_, ?_, hclosed.blocks, n, by omega, ?_⟩
    · simp only [soundClose, if_pos hempty, hremain, hwrite, Option.map_some]
    · simpa [SoundDevice.flush] using hclosed.stream

/-- Whole blocks that are some bytes and less than a block of padding have no padding if the bytes
fill whole blocks. -/
theorem padding_eq_zero {blocks : List (List Byte)} {stream : List Byte} {size n : Nat}
    (hblocks : ∀ block ∈ blocks, block.length = size) (hn : n < size)
    (hflatten : blocks.flatten = stream ++ List.replicate n 0) (hdvd : size ∣ stream.length) :
    n = 0 := by
  have hlength : size ∣ stream.length + n := by
    have htotal := congrArg List.length hflatten
    rw [List.length_append, List.length_replicate] at htotal
    rw [← htotal, List.length_flatten]
    apply List.dvd_sum
    intro x hx
    obtain ⟨block, hblock, rfl⟩ := List.mem_map.mp hx
    rw [hblocks block hblock]
  exact Nat.eq_zero_of_dvd_of_lt ((Nat.dvd_add_right hdvd).mp hlength) hn

/-- **No byte is lost**: whatever the frames are, they are played within the arrays, less than a
block waits after each of them, and when the device is closed it has been given whole blocks which
are all the bytes of the frames in order and less than a block of zeros, none if the bytes fill
whole blocks. -/
theorem sound_carries_all (contents : Nat → Byte) (frames : List (List Byte)) :
    ∃ d, soundPlayAll (soundOpen contents) frames = some d ∧ d.bufferSize < 4608 ∧
      ∃ d', soundClose d = some d' ∧ (∀ block ∈ d'.blocks, block.length = 4608) ∧
        ∃ n, n < 4608 ∧ d'.blocks.flatten = frames.flatten ++ List.replicate n 0 ∧
          (4608 ∣ frames.flatten.length → n = 0) := by
  obtain ⟨d, hplay, hcarries⟩ := soundPlayAll_carries (carries_open contents) frames
  rw [List.nil_append] at hcarries
  obtain ⟨d', hclose, hblocks, n, hn, hflatten⟩ := soundClose_blocks hcarries
  exact ⟨d, hplay, hcarries.room, d', hclose, hblocks, n, hn, hflatten,
    padding_eq_zero hblocks hn hflatten⟩

end Squash.Sound
