import Mathlib.Algebra.BigOperators.Group.List.Basic
import Mathlib.Algebra.Ring.Int.Defs
import Mathlib.Algebra.Ring.Nat
import Mathlib.Data.List.DropRight

/-!
# The silence detector

`detect_silence` looks for zeros in a frame and stops as soon as it has enough of them, or too few
bytes are left. `silence_duration` adds up the frames found silent, and is cleared by any other
frame; a frame is not played once it exceeds one second.

* `findZeroes_eq_count` — the two early exits decide what the count over the whole frame decides.
* `detectSilence_eq_trailing` — over a sequence of frames the detector answers whether the silent
  frames at its end are longer than a second.

A frame is the list of its `pcm_size` bytes. The product in `threshold` is exact: the largest frame
a decoder returns has some 2 ^ 18 bytes.
-/

namespace Squash.Player

/-! ## `detect_silence` -/

/-- `one_second`. -/
def oneSecond : Nat := 176400

/-- `threshold`, "30% of the buffer length". -/
def threshold (pcmSize : Nat) : Int := (pcmSize * 30 / 100 : Nat)

/-- What the loop does to `silence_duration`, an `unsigned int`, from the first byte of the list
on. -/
def findZeroes (threshold : Int) (pcmSize silenceDuration : Nat) : Int → List UInt8 → Nat
  | _, [] => silenceDuration
  | zeroCount, byte :: rest =>
    if byte = 0 then
      if zeroCount + 1 ≥ threshold then (silenceDuration + pcmSize) % 2 ^ 32
      else findZeroes threshold pcmSize silenceDuration (zeroCount + 1) rest
    else if threshold - zeroCount ≥ ((byte :: rest).length : Int) then 0
    else findZeroes threshold pcmSize silenceDuration zeroCount rest

/-- The answer and the new `silence_duration`. -/
def detectSilence (pcmData : List UInt8) (silenceDuration : Nat) : Nat × Nat :=
  let silenceDuration :=
    findZeroes (threshold pcmData.length) pcmData.length silenceDuration 0 pcmData
  (if silenceDuration > oneSecond then 1 else 0, silenceDuration)

/-- `silence_duration` after the frames of a song, from the 0 it starts with. -/
def playFrames (frames : List (List UInt8)) : Nat :=
  frames.foldl (fun silenceDuration pcmData => (detectSilence pcmData silenceDuration).2) 0

/-! ## One frame -/

/-- At least 30% of the frame's bytes are zero. -/
def Silent (pcmData : List UInt8) : Prop := 30 * pcmData.length / 100 ≤ pcmData.count 0

instance : DecidablePred Silent := fun _ => inferInstanceAs (Decidable (_ ≤ _))

/-- **The early exits agree with the count.** While zeros are missing and there is still room for
them, one of the exits is taken, and it is the one that all the bytes left ask for. -/
theorem findZeroes_eq_count {threshold : Int} {pcmSize silenceDuration : Nat} {zeroCount : Int}
    {pcmData : List UInt8} (hmissing : zeroCount < threshold)
    (hroom : threshold - zeroCount ≤ pcmData.length) :
    findZeroes threshold pcmSize silenceDuration zeroCount pcmData =
      if threshold ≤ zeroCount + pcmData.count 0 then (silenceDuration + pcmSize) % 2 ^ 32
      else 0 := by
  induction pcmData generalizing zeroCount with
  | nil =>
      simp only [List.length_nil] at hroom
      omega
  | cons byte rest ih =>
      rw [List.length_cons] at hroom
      rw [findZeroes]
      by_cases hzero : byte = 0
      · rw [if_pos hzero, hzero, List.count_cons_self]
        by_cases henough : zeroCount + 1 ≥ threshold
        · rw [if_pos henough, if_pos (by omega)]
        · rw [if_neg henough, ih (by omega) (by omega)]
          have hcount : zeroCount + 1 + (rest.count 0 : Int) =
              zeroCount + (rest.count 0 + 1 : Nat) := by omega
          rw [hcount]
      · rw [if_neg hzero, List.count_cons_of_ne hzero]
        by_cases hfew : threshold - zeroCount ≥ ((byte :: rest).length : Int)
        · -- this byte is not zero, so even zeros only would not be enough
          have hcount : rest.count 0 ≤ rest.length := List.count_le_length
          rw [List.length_cons] at hfew
          rw [if_pos (by simpa using hfew), if_neg (by omega)]
        · rw [if_neg hfew]
          rw [List.length_cons] at hfew
          exact ih hmissing (by omega)

/-- What the detector does with one frame that is long enough to have a threshold. -/
theorem detectSilence_duration {pcmData : List UInt8} {silenceDuration : Nat}
    (hsize : 4 ≤ pcmData.length) (hfits : silenceDuration + pcmData.length < 2 ^ 32) :
    (detectSilence pcmData silenceDuration).2 =
      if Silent pcmData then silenceDuration + pcmData.length else 0 := by
  have hthreshold : threshold pcmData.length = ((30 * pcmData.length / 100 : Nat) : Int) := by
    rw [threshold, Nat.mul_comm]
  have hmissing : (0 : Int) < threshold pcmData.length := by
    rw [hthreshold]
    omega
  have hroom : threshold pcmData.length - 0 ≤ pcmData.length := by
    rw [hthreshold]
    omega
  have hcount : threshold pcmData.length ≤ 0 + (pcmData.count 0 : Int) ↔ Silent pcmData := by
    rw [hthreshold, Silent]
    omega
  simp only [detectSilence, findZeroes_eq_count hmissing hroom, hcount, Nat.mod_eq_of_lt hfits]

theorem detectSilence_answer (pcmData : List UInt8) (silenceDuration : Nat) :
    (detectSilence pcmData silenceDuration).1 = 1 ↔
      oneSecond < (detectSilence pcmData silenceDuration).2 := by
  simp [detectSilence]

/-! ## Sequences of frames -/

/-- The bytes of the silent frames at the end. -/
def trailingSilence (frames : List (List UInt8)) : Nat :=
  ((frames.rtakeWhile fun pcmData => Silent pcmData).map List.length).sum

theorem trailingSilence_snoc (frames : List (List UInt8)) (pcmData : List UInt8) :
    trailingSilence (frames ++ [pcmData]) =
      if Silent pcmData then trailingSilence frames + pcmData.length else 0 := by
  by_cases hsilent : Silent pcmData
  · simp [trailingSilence, hsilent]
  · simp [trailingSilence, hsilent]

/-- Each frame is long enough, and added to the silence before it stays in an `unsigned int`. -/
def Measurable (frames : List (List UInt8)) : Prop :=
  ∀ past pcmData, past ++ [pcmData] <+: frames →
    4 ≤ pcmData.length ∧ trailingSilence past + pcmData.length < 2 ^ 32

theorem Measurable.of_snoc {frames : List (List UInt8)} {pcmData : List UInt8}
    (h : Measurable (frames ++ [pcmData])) : Measurable frames :=
  fun past g hpast => h past g (hpast.trans (List.prefix_append _ _))

/-- `silence_duration` is the length of the silence the frames end with. -/
theorem playFrames_eq_trailingSilence {frames : List (List UInt8)} (h : Measurable frames) :
    playFrames frames = trailingSilence frames := by
  induction frames using List.reverseRecOn with
  | nil => rfl
  | append_singleton frames pcmData ih =>
      obtain ⟨hsize, hfits⟩ := h frames pcmData (List.prefix_refl _)
      have hpast := ih h.of_snoc
      rw [← hpast] at hfits
      rw [trailingSilence_snoc, ← hpast]
      simp only [playFrames, List.foldl_append, List.foldl_cons, List.foldl_nil] at hfits ⊢
      exact detectSilence_duration hsize hfits

end Squash.Player
