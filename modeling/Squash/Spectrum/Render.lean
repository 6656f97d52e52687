import Squash.Spectrum.Latest

/-!
# Reading the ring of the spectrum

`spectrum_prepare_render` copies a full ring into the input of the Fourier transform. The ring is
counted in samples of four bytes, but the index that walks over it is used for an array of `short`:
from `head` on the left and the right half of a sample are looked for in two consecutive shorts, and
the walk begins again at the first short after `SPECTRUM_RING_SIZE` of them, in the middle of the
memory. `spectrumPrepareRender_iff` says for which contents the values are right all the same.

The bytes of a short are in the order of the machine that the frames are made for, the low one first.
-/

namespace Squash

open Pcm

/-! ## The model -/

/-- `((short *)spectrum_ring.ring)[ index ]`. -/
def shortAt (ring : List Byte) (index : Nat) : Int :=
  int16 (ring.getD (2 * index) 0) (ring.getD (2 * index + 1) 0)

/-- The values of `sample`, for so many turns of the loop: for the real part, and for the imaginary
part of a stereo sample. -/
def renderSamples (ring : List Byte) (channels : Int) : Nat → Nat → List (Int × Option Int)
  | 0, _ => []
  | n + 1, index =>
    let re := shortAt ring index
    let index := (index + 1) % spectrumRingSize
    if channels = 2 then
      (re, some (shortAt ring index)) ::
        renderSamples ring channels n ((index + 1) % spectrumRingSize)
    else (re, none) :: renderSamples ring channels n index

/-- `spectrum_prepare_render`. `scale i sample` stands for the product with the window factor and the
division; a ring that is not full leaves the input as it is. -/
def spectrumPrepareRender {F : Type} (scale : Nat → Int → F) (zero : F) (r : SpectrumRing)
    (channels : Int) (input : List (F × F)) : List (F × F) :=
  if (r.tail + 1).tmod spectrumRingSize = r.head then
    (renderSamples r.ring channels spectrumWindowSize r.head.toNat).zipIdx.map fun (sample, i) =>
      (scale i sample.1, (sample.2.map (scale i)).getD zero)
  else input

/-! ## What is read -/

theorem getElem?_renderSamples {ring : List Byte} {i n index : Nat} (hi : i < n)
    (hindex : index < spectrumRingSize) :
    (renderSamples ring 2 n index)[i]? =
      some (shortAt ring ((index + 2 * i) % spectrumRingSize),
        some (shortAt ring ((index + (2 * i + 1)) % spectrumRingSize))) := by
  induction n generalizing i index with
  | zero => omega
  | succ n ih =>
      rw [renderSamples, if_pos rfl]
      cases i with
      | zero =>
          simp only [List.getElem?_cons_zero, Nat.mul_zero, Nat.add_zero, Nat.zero_add,
            Nat.mod_eq_of_lt hindex]
      | succ i =>
          have hnext : ((index + 1) % spectrumRingSize + 1) % spectrumRingSize < spectrumRingSize :=
            Nat.mod_lt _ (by decide)
          rw [List.getElem?_cons_succ, ih (by omega) hnext]
          simp only [Nat.mod_add_mod]
          rw [show index + 1 + 1 + 2 * i = index + 2 * (i + 1) by omega,
            show index + 1 + 1 + (2 * i + 1) = index + (2 * (i + 1) + 1) by omega]

theorem getElem?_spectrumPrepareRender {F : Type} (scale : Nat → Int → F) (zero : F)
    {r : SpectrumRing} (input : List (F × F)) (hfull : (r.tail + 1).tmod spectrumRingSize = r.head)
    (hhead : r.head.toNat < spectrumRingSize) {i : Nat} (hi : i < spectrumWindowSize) :
    (spectrumPrepareRender scale zero r 2 input)[i]? =
      some (scale i (shortAt r.ring ((r.head.toNat + 2 * i) % spectrumRingSize)),
        scale i (shortAt r.ring ((r.head.toNat + (2 * i + 1)) % spectrumRingSize))) := by
  rw [spectrumPrepareRender, if_pos hfull, List.getElem?_map, List.getElem?_zipIdx,
    getElem?_renderSamples hi hhead, Nat.zero_add]
  simp only [Option.map_some, Option.getD_some]

/-- The two halves of the sample in slot `k`. -/
def halvesAt (ring : List Byte) (k : Nat) : Int × Int := (shortAt ring (2 * k), shortAt ring (2 * k + 1))

/-- The halves are the two 16-bit values of the sample. -/
theorem int16s_sampleAt {ring : List Byte} {k : Nat} (hring : ring.length = spectrumRingSize * 4)
    (hk : k < spectrumRingSize) :
    int16s (sampleAt ring k) = [(halvesAt ring k).1, (halvesAt ring k).2] := by
  have hget : ∀ i, i < 4 → ring[4 * k + i]? = some (ring.getD (4 * k + i) 0) := by
    intro i hi
    rw [List.getD_eq_getElem?_getD, List.getElem?_eq_getElem (by omega)]
    rfl
  have hsample : sampleAt ring k = [ring.getD (4 * k) 0, ring.getD (4 * k + 1) 0,
      ring.getD (4 * k + 2) 0, ring.getD (4 * k + 3) 0] := by
    apply List.ext_getElem?
    intro i
    rw [getElem?_sampleAt]
    match i with
    | 0 => exact hget 0 (by decide)
    | 1 => exact hget 1 (by decide)
    | 2 => exact hget 2 (by decide)
    | 3 => exact hget 3 (by decide)
    | i + 4 => rfl
  rw [hsample, halvesAt, shortAt, shortAt]
  simp only [int16s, show 2 * (2 * k) = 4 * k by omega, show 2 * (2 * k + 1) = 4 * k + 2 by omega]

/-- The slots of a full ring hold the samples from the oldest on. -/
theorem getElem?_contents {r : SpectrumRing} (hrange : r.InRange)
    (hfull : (r.tail + 1).tmod spectrumRingSize = r.head) {i : Nat} (hi : i < spectrumWindowSize) :
    r.contents[i]? = some (sampleAt r.ring ((r.head.toNat + i) % spectrumRingSize)) := by
  obtain ⟨⟨hhead, hheadlt⟩, htail, htaillt⟩ := hrange
  have hlen : ((r.tail - r.head) % spectrumRingSize).toNat = spectrumWindowSize := by
    rw [Int.tmod_eq_emod_of_nonneg (by omega)] at hfull
    show _ = 4096
    rw [spectrumRingSize_eq] at *
    omega
  rw [SpectrumRing.contents, hlen, Circular.getElem?_read hi]

/-- Turn `i` of a stereo ring uses the halves of the sample in slot `(head + i) mod
SPECTRUM_RING_SIZE`, however they are scaled. -/
def ReadsRing (r : SpectrumRing) : Prop :=
  ∀ (F : Type) (scale : Nat → Int → F) (zero : F) (input : List (F × F)), ∀ i < spectrumWindowSize,
    (spectrumPrepareRender scale zero r 2 input)[i]? =
      some (scale i (halvesAt r.ring ((r.head.toNat + i) % spectrumRingSize)).1,
        scale i (halvesAt r.ring ((r.head.toNat + i) % spectrumRingSize)).2)

/-- Outside of the slot of the tail, which is not in use, each short is the same as the one that is
`head` shorts before it, counted modulo `SPECTRUM_RING_SIZE`. -/
def RepeatsAtHead (r : SpectrumRing) : Prop :=
  ∀ y < 2 * spectrumRingSize, y / 2 ≠ r.tail.toNat →
    shortAt r.ring y = shortAt r.ring ((y + spectrumRingSize - r.head.toNat) % spectrumRingSize)

/-- **When the values are right.** A full ring of stereo samples is read as it was written exactly
when its contents repeat themselves at the distance of its head. -/
theorem spectrumPrepareRender_iff {r : SpectrumRing} (hrange : r.InRange)
    (hfull : (r.tail + 1).tmod spectrumRingSize = r.head) : ReadsRing r ↔ RepeatsAtHead r := by
  obtain ⟨⟨hhead, hheadlt⟩, htail, htaillt⟩ := hrange
  have hnext : (r.tail.toNat + 1) % spectrumRingSize = r.head.toNat := by
    rw [Int.tmod_eq_emod_of_nonneg (by omega)] at hfull
    rw [spectrumRingSize_eq] at *
    omega
  have hheadlt : r.head.toNat < spectrumRingSize := by omega
  have hget := fun (F : Type) scale zero (input : List (F × F)) i =>
    @getElem?_spectrumPrepareRender F scale zero r input hfull hheadlt i
  rw [ReadsRing, RepeatsAtHead]
  have htaillt : r.tail.toNat < spectrumRingSize := by omega
  generalize r.head.toNat = head at *
  generalize r.tail.toNat = tail at *
  have hindex : ∀ i e, e < 2 → (2 * ((head + i) % spectrumRingSize) + e + spectrumRingSize - head) %
      spectrumRingSize = (head + (2 * i + e)) % spectrumRingSize := by
    intro i e he
    rw [spectrumRingSize_eq] at *
    omega
  constructor
  · intro hreads y hy hlive
    -- the turn that uses this short
    obtain ⟨i, hi, hslot⟩ : ∃ i < spectrumWindowSize, (head + i) % spectrumRingSize = y / 2 := by
      refine ⟨(y / 2 + spectrumRingSize - head) % spectrumRingSize, ?_, ?_⟩
      · show _ < 4096
        rw [spectrumRingSize_eq] at *
        omega
      · rw [spectrumRingSize_eq] at *
        omega
    have hturn := hreads Int (fun _ sample => sample) 0 [] i hi
    simp only [hget _ _ _ _ i hi, halvesAt, hslot, Option.some.injEq, Prod.mk.injEq] at hturn
    obtain heven | hodd : y = 2 * (y / 2) ∨ y = 2 * (y / 2) + 1 := by omega
    · have hfrom := hindex i 0 (by decide)
      rw [hslot, Nat.add_zero, Nat.add_zero, ← heven] at hfrom
      rw [hfrom, hturn.1, ← heven]
    · have hfrom := hindex i 1 (by decide)
      rw [hslot, ← hodd] at hfrom
      rw [hfrom, hturn.2, ← hodd]
  · intro hrepeats F scale zero input i hi
    have hlive : (head + i) % spectrumRingSize ≠ tail := by
      have hi : i < 4096 := hi
      rw [spectrumRingSize_eq] at *
      omega
    have hslot : (head + i) % spectrumRingSize < spectrumRingSize := Nat.mod_lt _ (by decide)
    have hleft := hrepeats (2 * ((head + i) % spectrumRingSize) + 0) (by omega) (by omega)
    have hright := hrepeats (2 * ((head + i) % spectrumRingSize) + 1) (by omega) (by omega)
    rw [hindex i 0 (by decide), Nat.add_zero, Nat.add_zero] at hleft
    rw [hindex i 1 (by decide)] at hright
    rw [hget F scale zero input i hi, halvesAt, hleft, hright]

theorem shortAt_replicate (n index : Nat) : shortAt (List.replicate n 0) index = 0 := by
  have hget : ∀ i, (List.replicate n (0 : Byte)).getD i 0 = 0 := by
    intro i
    rw [List.getD_eq_getElem?_getD, List.getElem?_replicate]
    split <;> rfl
  rw [shortAt, hget, hget]
  decide

/-- Silence is read as silence. -/
theorem spectrumPrepareRender_silence : ReadsRing ⟨List.replicate 16388 0, 1, 0⟩ := by
  apply (spectrumPrepareRender_iff ⟨⟨by decide, by decide⟩, by decide, by decide⟩ rfl).mpr
  intro y _ _
  rw [shortAt_replicate, shortAt_replicate]

/-- With the head in slot 1 the first short is read from the end of slot 0. -/
theorem spectrumPrepareRender_misreads :
    ¬ ReadsRing ⟨[0, 0, 0, 0, 1] ++ List.replicate 16383 0, 1, 0⟩ := by
  intro hreads
  have hturn := hreads Int (fun _ sample => sample) 0 [] 0 (by decide)
  rw [getElem?_spectrumPrepareRender _ _ _ rfl (by decide) (by decide), Option.some.injEq,
    Prod.mk.injEq] at hturn
  exact absurd hturn.1 (by decide)

/-- Whatever the head is, some turn reads its first short from another place than the left half of
its sample. -/
theorem render_misplaced {head : Nat} (hhead : head < spectrumRingSize) :
    ∃ i < spectrumWindowSize,
      (head + 2 * i) % spectrumRingSize ≠ 2 * ((head + i) % spectrumRingSize) := by
  by_cases hzero : head = 0
  · exact ⟨2049, by decide, by rw [hzero]; decide⟩
  · refine ⟨0, by decide, ?_⟩
    rw [spectrumRingSize_eq] at *
    omega

end Squash
