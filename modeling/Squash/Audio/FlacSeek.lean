import Squash.Audio.Flac

/-!
# Seeking in a FLAC file

Positions are saved in milliseconds and the decoder seeks to samples. `flac_seek` multiplies by the
samples of a millisecond, `sample_rate / 1000`, which is rounded down before it is multiplied, so that
the error grows with the position; the way back, in `flac_write_callback_decode_frame`, multiplies
first.

At 44100 samples a second a song goes on more than two milliseconds too early for each second that it
had been played. Positions stay where they are, up to a millisecond for each save, exactly as long as
what is lost in this way makes up no more than one (`flacResume_iff`).
-/

namespace Squash

/-- `flac_seek`: the sample that `FLAC__file_decoder_seek_absolute` is asked for, an unsigned integer
of 64 bits. -/
def flacSeek (data : FlacData) (seekTime _duration : Int) : Nat :=
  (seekTime * (data.sampleRate / 1000 : Nat) % 2 ^ 64).toNat

/-- The position that is reported for a frame that starts at this sample. -/
def flacResume (data : FlacData) (seekTime duration : Int) : Option Int :=
  (data.setPosition (.sampleNumber (flacSeek data seekTime duration))).map fun data => data.position

/-- The position is restored, and the one that is reported is saved, so many times. -/
def flacResumes (data : FlacData) (duration : Int) : Nat → Int → Option Int
  | 0, position => some position
  | n + 1, position => (flacResume data position duration).bind (flacResumes data duration n)

/-- The position is off by at most a millisecond, and by no more than that for each save. -/
structure Resumes (data : FlacData) (seekTime duration : Int) : Prop where
  once : ∃ position, flacResume data seekTime duration = some position ∧
    (position - seekTime).natAbs ≤ 1
  often : ∀ n, ∃ position, flacResumes data duration n seekTime = some position ∧
    (position - seekTime).natAbs ≤ n

variable {data : FlacData} {duration : Int} {t : Nat}

/-- The product of the two conversions wraps around once, at the end. -/
theorem flacResume_eq (hrate : data.sampleRate ≠ 0) (t : Nat) (duration : Int) :
    flacResume data t duration =
      some (t * (data.sampleRate / 1000) * 1000 % 2 ^ 64 / data.sampleRate : Nat) := by
  have hseek : flacSeek data t duration = t * (data.sampleRate / 1000) % 2 ^ 64 := by
    unfold flacSeek
    omega
  rw [flacResume, hseek, FlacData.setPosition, flacMilliseconds, if_neg hrate, Nat.mod_mul_mod]
  rfl

/-- What the rounded samples of `t` milliseconds are short of. -/
theorem samples_add (rate t : Nat) :
    t * (rate / 1000) * 1000 + t * (rate % 1000) = t * rate := by
  rw [Nat.mul_assoc, ← Nat.mul_add, Nat.div_add_mod']

/-- **One conversion and back** loses at most a millisecond, if nothing wraps around. -/
theorem flacResume_near (hrate : 0 < data.sampleRate)
    (hfits : t * (data.sampleRate / 1000) * 1000 < 2 ^ 64)
    (hsmall : t * (data.sampleRate % 1000) ≤ data.sampleRate) (duration : Int) :
    ∃ p : Nat, flacResume data t duration = some (p : Int) ∧ p ≤ t ∧ t ≤ p + 1 := by
  refine ⟨_, flacResume_eq (Nat.ne_of_gt hrate) t duration, ?_, ?_⟩
  · rw [Nat.mod_eq_of_lt hfits]
    apply Nat.div_le_of_le_mul
    have hadd := samples_add data.sampleRate t
    rw [Nat.mul_comm data.sampleRate t]
    omega
  · rw [Nat.mod_eq_of_lt hfits, ← Nat.sub_le_iff_le_add, Nat.le_div_iff_mul_le hrate, Nat.sub_mul]
    have hadd := samples_add data.sampleRate t
    omega

/-- A smaller position loses less. -/
theorem flacResumes_near (hrate : 0 < data.sampleRate)
    (hfits : t * (data.sampleRate / 1000) * 1000 < 2 ^ 64)
    (hsmall : t * (data.sampleRate % 1000) ≤ data.sampleRate) (duration : Int) (n : Nat) :
    ∃ p : Nat, flacResumes data duration n t = some (p : Int) ∧ p ≤ t ∧ t ≤ p + n := by
  induction n generalizing t with
  | zero => exact ⟨t, rfl, Nat.le_refl t, Nat.le_refl t⟩
  | succ n ih =>
      obtain ⟨p, hp, hle, hge⟩ := flacResume_near hrate hfits hsmall duration
      have hfits' : p * (data.sampleRate / 1000) * 1000 < 2 ^ 64 :=
        Nat.lt_of_le_of_lt (Nat.mul_le_mul_right _ (Nat.mul_le_mul_right _ hle)) hfits
      have hsmall' : p * (data.sampleRate % 1000) ≤ data.sampleRate :=
        Nat.le_trans (Nat.mul_le_mul_right _ hle) hsmall
      obtain ⟨p', hp', hle', hge'⟩ := ih hfits' hsmall'
      refine ⟨p', ?_, by omega, by omega⟩
      rw [flacResumes, hp]
      exact hp'

/-- A position that comes back within a millisecond has lost no more. -/
theorem small_of_near (hrate : 0 < data.sampleRate) (hint : data.sampleRate < 2 ^ 31)
    (hnear : t ≤ t * (data.sampleRate / 1000) * 1000 % 2 ^ 64 / data.sampleRate + 1) :
    t * (data.sampleRate % 1000) ≤ data.sampleRate ∧
      t * (data.sampleRate / 1000) * 1000 < 2 ^ 64 := by
  rw [← Nat.sub_le_iff_le_add, Nat.le_div_iff_mul_le hrate, Nat.sub_mul] at hnear
  have hadd := samples_add data.sampleRate t
  have hfits : t * (data.sampleRate / 1000) * 1000 < 2 ^ 64 := by
    by_contra hwrap
    -- at least 2^64 samples would be missing, in thousandths
    have hmod : t * (data.sampleRate / 1000) * 1000 % 2 ^ 64 ≤
        t * (data.sampleRate / 1000) * 1000 - 2 ^ 64 := by
      rw [Nat.mod_eq_sub_mod (Nat.not_lt.mp hwrap)]
      exact Nat.mod_le _ _
    omega
  rw [Nat.mod_eq_of_lt hfits] at hnear
  exact ⟨by omega, hfits⟩

/-- **The resume position.** It does not drift exactly when the remainder of the sample rate, over all
milliseconds, makes up at most one of them, and the samples fit into 64 bits a thousandfold. -/
theorem flacResume_iff {seekTime : Int} (hrate : 1000 ≤ data.sampleRate)
    (hint : data.sampleRate < 2 ^ 31) (hseek : 0 ≤ seekTime) :
    Resumes data seekTime duration ↔
      seekTime * (data.sampleRate % 1000 : Nat) ≤ data.sampleRate ∧
        seekTime * (data.sampleRate / 1000 : Nat) * 1000 < 2 ^ 64 := by
  obtain ⟨t, rfl⟩ := Int.eq_ofNat_of_zero_le hseek
  have hpos : 0 < data.sampleRate := by omega
  -- the condition in natural numbers
  have hlost : ((t : Int) * (data.sampleRate % 1000 : Nat)) = (t * (data.sampleRate % 1000) : Nat) :=
    (Int.natCast_mul _ _).symm
  have hsamples : ((t : Int) * (data.sampleRate / 1000 : Nat)) * 1000 =
      (t * (data.sampleRate / 1000) * 1000 : Nat) := by
    rw [Int.natCast_mul, Int.natCast_mul]
    rfl
  rw [hlost, hsamples]
  constructor
  · intro h
    obtain ⟨p, hp, hnear⟩ := h.once
    rw [flacResume_eq (Nat.ne_of_gt hpos)] at hp
    cases hp
    obtain ⟨hsmall, hfits⟩ := small_of_near (t := t) hpos hint (by omega)
    omega
  · rintro ⟨hsmall, hfits⟩
    have hsmall' : t * (data.sampleRate % 1000) ≤ data.sampleRate := by omega
    have hfits' : t * (data.sampleRate / 1000) * 1000 < 2 ^ 64 := by omega
    constructor
    · obtain ⟨p, hp, hle, hge⟩ := flacResume_near hpos hfits' hsmall' duration
      exact ⟨p, hp, by omega⟩
    · intro n
      obtain ⟨p, hp, hle, hge⟩ := flacResumes_near hpos hfits' hsmall' duration n
      exact ⟨p, hp, by omega⟩

/-- A file at a whole number of samples a millisecond. -/
theorem flacResume_48000 : Resumes ⟨none, 0, 2, 48000, 0, 600000⟩ 300000 600000 :=
  (flacResume_iff (by decide) (by decide) (by decide)).mpr (by decide)

/-- Five minutes into a file at the rate of a CD. -/
theorem not_flacResume_44100 : ¬ Resumes ⟨none, 0, 2, 44100, 0, 600000⟩ 300000 600000 := by
  intro h
  obtain ⟨p, hp, hnear⟩ := h.once
  have hresume : flacResume ⟨none, 0, 2, 44100, 0, 600000⟩ 300000 600000 = some 299319 := by decide
  rw [hresume] at hp
  cases hp
  exact absurd hnear (by decide)

end Squash
