import Squash.Global
import Mathlib.Data.Rat.Floor
import Mathlib.Tactic.Linarith
import Mathlib.Tactic.NormNum
import Mathlib.Tactic.FieldSimp
import Mathlib.Tactic.Ring

/-!
# The MP3 decoder

libmad decodes a frame into samples in fixed point with `MAD_F_FRACBITS` binary places;
`mp3_decode_frame` rounds them to 16 bits (`mad_to_16bit`) and packs them into `pcm_data`. The
result is the nearest value of 16 bits, with the ends of the range for what is beyond it
(`mp3DecodeFrame_spec`).

Memory is never exhausted.
-/

namespace Squash

open Pcm

/-! ## The model -/

/-- `MAD_F_ONE` with 28 binary places. -/
def madFOne : Int32 := 0x10000000

/-- `mad_to_16bit`. -/
def madTo16bit (f : Int32) : UInt32 :=
  let f := f + ((1 : Int32) <<< (28 - 16))
  let f := if f ≥ madFOne then madFOne - 1 else if f < -madFOne then -madFOne else f
  (f >>> (28 + 1 - 16)).toUInt32

/-- `stream.error` of libmad, as the code tells its values apart. -/
inductive MadError where
  | buflen | recoverable | unrecoverable
  deriving DecidableEq, Repr

/-- What the code reads of a frame that libmad has decoded and synthesised. -/
structure MadFrame (Duration : Type) where
  channels : Nat
  length : Nat
  samples : Nat → Nat → Int32
  duration : Duration

/-- The clock of libmad: `mad_timer_add` and `mad_timer_count` in milliseconds. -/
structure MadTimer (Timer Duration : Type) where
  add : Timer → Duration → Timer
  count : Timer → Int

/-- `mp3_data_t`, without the parts of the library. -/
structure Mp3Data (Timer : Type) where
  timer : Timer
  pcmData : Option (List Byte)

/-- The statements behind `sample = ...` of one channel. -/
def mp3PutSample (c : Cursor Byte) (sample : UInt32) : Option (Cursor Byte) := do
  let c ← c.put (sample &&& 0xff).toUInt8
  c.put (sample >>> 8).toUInt8

/-- The loop over the samples. -/
def mp3PutSamples (channels length : Nat) (samples : Nat → Nat → Int32) (c : Cursor Byte) :
    Option (Cursor Byte) :=
  (List.range length).foldlM (fun c i => do
    let c ← mp3PutSample c (madTo16bit (samples 0 i))
    if channels > 1 then mp3PutSample c (madTo16bit (samples 1 i)) else return c) c

/-- `mp3_decode_frame`. `decoded` is what `mad_frame_decode` and `mad_synth_frame` leave behind;
`none` when a byte is written outside of `pcm_data`. -/
def mp3DecodeFrame {Timer Duration : Type} (mad : MadTimer Timer Duration) (fresh : Nat → Byte)
    (data : Mp3Data Timer) (decoded : Except MadError (MadFrame Duration)) :
    Option (FrameData × Mp3Data Timer) := do
  let (pcmSize, data) ← match decoded with
    | .error .buflen => some ((0 : Int), data)
    | .error .recoverable => some (-1, data)
    | .error .unrecoverable => some (-2, data)
    | .ok frame => do
      let pcmSize := frame.length * 2 * frame.channels
      let pcmData := squashRealloc fresh data.pcmData pcmSize
      let c ← mp3PutSamples frame.channels frame.length frame.samples ⟨pcmData, 0⟩
      some ((pcmSize : Int), ⟨mad.add data.timer frame.duration, some c.buffer⟩)
  return ({
    pcmData := if pcmSize ≤ 0 then none else data.pcmData
    pcmSize
    position := mad.count data.timer }, data)

/-! ## Rounding -/

/-- The nearest value of 16 bits, halves upwards; `f` has 13 more binary places. -/
def roundTo16bit (f : Int) : Int := max (-32768) (min 32767 ⌊(f : ℚ) / 2 ^ 13 + 1 / 2⌋)

theorem floor_round (f : Int) : ⌊(f : ℚ) / 2 ^ 13 + 1 / 2⌋ = (f + 2 ^ 12) / 2 ^ 13 := by
  have hfraction : (f : ℚ) / 2 ^ 13 + 1 / 2 = ((f + 2 ^ 12 : Int) : ℚ) / ((2 ^ 13 : Nat) : ℚ) := by
    push_cast
    ring
  rw [hfraction, Rat.floor_intCast_div_natCast]
  rfl

theorem roundTo16bit_monotone {f g : Int} (h : f ≤ g) : roundTo16bit f ≤ roundTo16bit g := by
  have hfg : (f : ℚ) ≤ g := by exact_mod_cast h
  exact max_le_max le_rfl (min_le_min le_rfl (Int.floor_mono (by linarith)))

/-- The sum with the rounding offset fits an `int`. -/
def MadInRange (f : Int32) : Prop := f.toInt + 2 ^ 12 < 2 ^ 31

instance : DecidablePred MadInRange := fun f => inferInstanceAs (Decidable (f.toInt + 2 ^ 12 < 2 ^ 31))

theorem toInt_add_offset {f : Int32} (h : MadInRange f) :
    (f + ((1 : Int32) <<< (28 - 16))).toInt = f.toInt + 2 ^ 12 := by
  have hlow : -2 ^ 31 ≤ f.toInt := f.minValue_le_toInt
  have hhigh : f.toInt + 2 ^ 12 < 2 ^ 31 := h
  have hround : ((1 : Int32) <<< (28 - 16)).toInt = 2 ^ 12 := by decide
  rw [Int32.toInt_add, hround]
  exact Int.bmod_eq_of_le (by grind) (by grind)

/-- Clipping and the shift, with the offset added. -/
theorem toInt_clip_shift {f g : Int32} (h : g.toInt = f.toInt + 2 ^ 12) :
    ((if g ≥ madFOne then madFOne - 1 else if g < -madFOne then -madFOne else g) >>> 13).toInt =
      roundTo16bit f.toInt := by
  rw [toInt_shiftRight_thirteen, roundTo16bit, floor_round, ← h]
  by_cases hhigh : g ≥ madFOne
  · have hle : (2 ^ 28 : Int) ≤ g.toInt := Int32.le_iff_toInt_le.mp hhigh
    rw [if_pos hhigh]
    show (32767 : Int) = _
    omega
  · have hlt : g.toInt < (2 ^ 28 : Int) := by
      rw [ge_iff_le, Int32.le_iff_toInt_le, not_le] at hhigh
      exact hhigh
    rw [if_neg hhigh]
    by_cases hlow : g < -madFOne
    · have hlt : g.toInt < (-2 ^ 28 : Int) := Int32.lt_iff_toInt_lt.mp hlow
      rw [if_pos hlow]
      show (-32768 : Int) = _
      omega
    · have hle : (-2 ^ 28 : Int) ≤ g.toInt := by
        rw [Int32.lt_iff_toInt_lt, not_lt] at hlow
        exact hlow
      rw [if_neg hlow]
      omega

/-- **`mad_to_16bit` rounds**; a negative value comes back as an unsigned one. -/
theorem toNat_madTo16bit {f : Int32} (h : MadInRange f) :
    ((madTo16bit f).toNat : Int) = roundTo16bit f.toInt % 2 ^ 32 := by
  rw [← toInt_clip_shift (toInt_add_offset h), ← toNat_toUInt32]
  rfl

/-- The sample that the two bytes of a value stand for. -/
def madSample (f : Int32) : Int :=
  int16 (madTo16bit f &&& 0xff).toUInt8 (madTo16bit f >>> 8).toUInt8

theorem madSample_eq {f : Int32} (h : MadInRange f) : madSample f = roundTo16bit f.toInt := by
  have hlow : -32768 ≤ roundTo16bit f.toInt := le_max_left _ _
  have hhigh : roundTo16bit f.toInt < 32768 :=
    Int.lt_add_one_of_le (max_le (by decide) (min_le_left _ _))
  have hword := toNat_madTo16bit h
  rw [madSample, int16_eq_iff hlow hhigh, toNat_low_byte, toNat_second_byte]
  omega

/-! ## The buffer -/

def mp3Bytes (f : Int32) : List Byte :=
  [(madTo16bit f &&& 0xff).toUInt8, (madTo16bit f >>> 8).toUInt8]

def mp3FrameBytes (channels length : Nat) (samples : Nat → Nat → Int32) : List Byte :=
  (interleave channels length samples).flatMap mp3Bytes

theorem length_mp3FrameBytes (channels length : Nat) (samples : Nat → Nat → Int32) :
    (mp3FrameBytes channels length samples).length = length * 2 * channels := by
  have hlength : (fun f => (mp3Bytes f).length) = fun _ => 2 := rfl
  rw [mp3FrameBytes, List.length_flatMap, hlength, List.map_const', List.sum_replicate_nat,
    length_interleave]
  ring

theorem int16s_mp3FrameBytes (channels length : Nat) (samples : Nat → Nat → Int32) :
    int16s (mp3FrameBytes channels length samples) =
      interleave channels length fun i j => madSample (samples i j) := by
  rw [mp3FrameBytes, ← map_interleave madSample]
  exact int16s_flatMap _ _ _

theorem mp3PutSamples_eq {channels : Nat} (hchannels : channels = 1 ∨ channels = 2) (length : Nat)
    (samples : Nat → Nat → Int32) (c : Cursor Byte) :
    mp3PutSamples channels length samples c = c.putAll (mp3FrameBytes channels length samples) := by
  rw [mp3PutSamples, Cursor.foldlM_putAll
    (f := fun j => ((List.range channels).map fun i => samples i j).flatMap mp3Bytes),
    mp3FrameBytes, interleave, List.flatMap_assoc]
  intro c j
  have hsample : ∀ (c : Cursor Byte) (f : Int32),
      mp3PutSample c (madTo16bit f) = c.putAll (mp3Bytes f) :=
    fun c f => (Cursor.putAll_pair c _ _).symm
  simp only [hsample]
  obtain rfl | rfl := hchannels
  · simp
  · -- the two samples of a stereo turn lie behind each other
    simp [List.range_succ, Cursor.putAll_append]

/-! ## The frame -/

theorem madSample_mono {f g : Int32} (hf : MadInRange f) (hg : MadInRange g) (hfg : f ≤ g) :
    madSample f ≤ madSample g := by
  rw [madSample_eq hf, madSample_eq hg]
  exact roundTo16bit_monotone (Int32.le_iff_toInt_le.mp hfg)

section Frame

variable {Timer Duration : Type} (mad : MadTimer Timer Duration) (fresh : Nat → Byte)
  (data : Mp3Data Timer)

/-- A frame that is not decoded has no samples and leaves everything as it was. -/
theorem mp3DecodeFrame_error (error : MadError) : ∃ pcmSize : Int, pcmSize ≤ 0 ∧
    mp3DecodeFrame mad fresh data (.error error) =
      some (⟨none, pcmSize, mad.count data.timer⟩, data) := by
  cases error with
  | buflen => exact ⟨0, by decide, rfl⟩
  | recoverable => exact ⟨-1, by decide, rfl⟩
  | unrecoverable => exact ⟨-2, by decide, rfl⟩

/-- What a decoded frame is, whatever its samples. -/
theorem mp3DecodeFrame_ok {frame : MadFrame Duration}
    (hchannels : frame.channels = 1 ∨ frame.channels = 2) :
    mp3DecodeFrame mad fresh data (.ok frame) =
      some ({
        pcmData := if frame.length = 0 then none
          else some (mp3FrameBytes frame.channels frame.length frame.samples)
        pcmSize := (mp3FrameBytes frame.channels frame.length frame.samples).length
        position := mad.count (mad.add data.timer frame.duration) },
        ⟨mad.add data.timer frame.duration,
          some (mp3FrameBytes frame.channels frame.length frame.samples)⟩) := by
  have hlength := length_mp3FrameBytes frame.channels frame.length frame.samples
  have hput : mp3PutSamples frame.channels frame.length frame.samples
      ⟨squashRealloc fresh data.pcmData (frame.length * 2 * frame.channels), 0⟩ =
        some ⟨mp3FrameBytes frame.channels frame.length frame.samples,
          (mp3FrameBytes frame.channels frame.length frame.samples).length⟩ := by
    rw [mp3PutSamples_eq hchannels]
    exact Cursor.putAll_fill (by rw [hlength, length_squashRealloc])
  have hempty : ((frame.length * 2 * frame.channels : Nat) : Int) ≤ 0 ↔ frame.length = 0 := by
    obtain h | h := hchannels <;> rw [h] <;> omega
  simp only [mp3DecodeFrame, hput, hempty, hlength, Option.bind_eq_bind, Option.bind_some]
  rfl

/-- **A decoded frame.** `pcm_data` has `pcm_size` bytes, and its samples are the samples of the
frame, rounded to 16 bits and interleaved; rounding keeps the order. A frame without samples has the
null pointer. -/
theorem mp3DecodeFrame_spec (frame : MadFrame Duration)
    (hchannels : frame.channels = 1 ∨ frame.channels = 2)
    (hsamples : ∀ i < frame.channels, ∀ j < frame.length, MadInRange (frame.samples i j)) :
    (∃ pcm, mp3DecodeFrame mad fresh data (.ok frame) =
        some ({
          pcmData := if frame.length = 0 then none else some pcm
          pcmSize := pcm.length
          position := mad.count (mad.add data.timer frame.duration) },
          ⟨mad.add data.timer frame.duration, some pcm⟩) ∧
      pcm.length = frame.length * 2 * frame.channels ∧
      ∀ i < frame.channels, ∀ j < frame.length,
        (int16s pcm)[j * frame.channels + i]? = some (roundTo16bit (frame.samples i j).toInt)) ∧
    ∀ f g, MadInRange f → MadInRange g → f ≤ g → madSample f ≤ madSample g := by
  refine ⟨?_, fun f g => madSample_mono⟩
  refine ⟨mp3FrameBytes frame.channels frame.length frame.samples,
    mp3DecodeFrame_ok mad fresh data hchannels, length_mp3FrameBytes _ _ _, ?_⟩
  intro i hi j hj
  rw [int16s_mp3FrameBytes, getElem?_interleave hi hj, madSample_eq (hsamples i hi j hj)]

/-- A frame with samples is handed over whole. -/
theorem mp3DecodeFrame_delivered {frame : MadFrame Duration} {frameData : FrameData}
    {next : Mp3Data Timer} (hchannels : frame.channels = 1 ∨ frame.channels = 2)
    (h : mp3DecodeFrame mad fresh data (.ok frame) = some (frameData, next))
    (hpos : 0 < frame.length) : frameData.Delivered := by
  rw [mp3DecodeFrame_ok mad fresh data hchannels, if_neg (Nat.ne_of_gt hpos)] at h
  cases h
  exact ⟨_, rfl, rfl⟩

end Frame

/-- A stereo frame whose right channel is clipped. -/
theorem mp3DecodeFrame_stereo : ∃ pcm,
    mp3DecodeFrame ⟨Int.add, id⟩ (fun _ => 0) ⟨0, none⟩
      (.ok ⟨2, 1, fun i _ => if i = 0 then 4096 else -0x20000000, 26⟩) =
      some (⟨some pcm, 4, 26⟩, ⟨26, some pcm⟩) ∧
    (int16s pcm)[0]? = some 1 ∧ (int16s pcm)[1]? = some (-32768) := by
  obtain ⟨⟨pcm, hframe, hlength, hpcm⟩, -⟩ := mp3DecodeFrame_spec ⟨Int.add, id⟩ (fun _ => 0)
    ⟨0, none⟩ ⟨2, 1, fun i _ => if i = 0 then 4096 else -0x20000000, 26⟩ (.inr rfl) (by decide)
  have hleft : roundTo16bit 4096 = 1 := by
    rw [roundTo16bit, floor_round]
    rfl
  have hright : roundTo16bit (-0x20000000) = -32768 := by
    rw [roundTo16bit, floor_round]
    rfl
  refine ⟨pcm, ?_, ?_, ?_⟩
  · rw [hframe, hlength]
    rfl
  · rw [← hleft]
    exact hpcm 0 (by decide) 0 (by decide)
  · rw [← hright]
    exact hpcm 1 (by decide) 0 (by decide)

end Squash
