import Squash.Foundations.Circular
import Squash.Spectrum.Ring

/-!
# What the ring of the spectrum holds

The slots of the ring from `head` up to `tail` are meant to hold the latest samples. When a copy
wraps around, its first part ends one sample short of the end of the ring: the last slot is never
written, and the second part lies one slot too far. `spectrum_latest_iff` says for which runs this
does not matter.
-/

namespace Squash

open Pcm Transition

/-! ## The latest samples -/

/-- The slots from `head` up to `tail`. -/
def SpectrumRing.contents (r : SpectrumRing) : List (List Byte) :=
  Circular.read (sampleAt r.ring) spectrumRingSize r.head.toNat
    ((r.tail - r.head) % spectrumRingSize).toNat

/-- The samples of a frame. -/
def FrameData.samples (frame : FrameData) : List (List Byte) :=
  (frame.pcmData.map samplesOf).getD []

/-- A frame of at most `SPECTRUM_WINDOW_SIZE` samples. -/
abbrev ShortFrame := {frame : FrameData // frame.Delivered ∧ frame.pcmSize / 4 ≤ spectrumWindowSize}

/-- An update, which reports the samples of the frame. -/
def spectrumStep (r : SpectrumRing) (frame : ShortFrame) :
    Option (SpectrumRing × List (List Byte)) :=
  (spectrumUpdate r frame.1).map fun r => (r, frame.1.samples)

/-- The ring holds the last samples of those reported. -/
def LatestHeld (s : SpectrumRing × List (List Byte)) : Prop :=
  s.1.contents = s.2.rtake (spectrumRingSize - 1)

/-- The copy does not wrap, or all samples from the one that belongs into the last slot on are what
the last slot holds already. -/
def WrapHarmless (s : SpectrumRing × List (List Byte)) (frame : ShortFrame) : Prop :=
  s.1.tail + frame.1.pcmSize / 4 < spectrumRingSize ∨
    ∀ x ∈ frame.1.samples.drop (firstAdd s.1.tail.toNat),
      x = sampleAt s.1.ring (spectrumRingSize - 1)

theorem latestHeld_iff {s : SpectrumRing × List (List Byte)} (hat : s.1.At s.2.length) :
    LatestHeld s ↔ Circular.Holds (sampleAt s.1.ring) spectrumRingSize (spectrumRingSize - 1) s.2 := by
  have hlt := @ringHead_of_lt s.2.length
  have hle := @ringHead_of_le s.2.length
  have hhead : ringHead s.2.length = (s.2.length - (spectrumRingSize - 1)) % spectrumRingSize := by
    rw [spectrumRingSize_eq]
    omega
  have hlen : ((s.2.length % spectrumRingSize : Nat) - (ringHead s.2.length : Int)) %
      spectrumRingSize = (min s.2.length (spectrumRingSize - 1) : Nat) := by
    rw [spectrumRingSize_eq]
    omega
  rw [LatestHeld, SpectrumRing.contents, hat.head_eq, hat.tail_eq, hlen, Int.toNat_natCast,
    Int.toNat_natCast, hhead, Circular.read_mod, Circular.read_eq_rtake_iff]

section Landing

variable {tail n k : Nat}

theorem landing_straight (hwrap : ¬ spectrumRingSize ≤ tail + n) (hk : tail ≤ k ∧ k < tail + n) :
    landing tail n k = some (k - tail) := by
  rw [landing, if_neg hwrap, if_pos hk]

theorem landing_first (hwrap : spectrumRingSize ≤ tail + n) (hlater : ¬ k < n - firstAdd tail)
    (hk : tail ≤ k ∧ k < tail + firstAdd tail) : landing tail n k = some (k - tail) := by
  rw [landing, if_pos hwrap, if_neg hlater, if_pos hk]

theorem landing_second (hwrap : spectrumRingSize ≤ tail + n) (hk : k < n - firstAdd tail) :
    landing tail n k = some (firstAdd tail + k) := by
  rw [landing, if_pos hwrap, if_pos hk]

theorem landing_lt {j : Nat} (h : landing tail n k = some j) : j < n := by
  rw [landing] at h
  have hfirst : firstAdd tail = spectrumRingSize - tail - 1 := rfl
  split at h
  · split at h
    · cases h
      omega
    · split at h
      · cases h
        omega
      · cases h
  · split at h
    · cases h
      omega
    · cases h

theorem landing_none (hstraight : ¬ spectrumRingSize ≤ tail + n → ¬ (tail ≤ k ∧ k < tail + n))
    (hwrap : spectrumRingSize ≤ tail + n → ¬ k < n - firstAdd tail ∧
      ¬ (tail ≤ k ∧ k < tail + firstAdd tail)) : landing tail n k = none := by
  rw [landing]
  split
  · next h => rw [if_neg (hwrap h).1, if_neg (hwrap h).2]
  · next h => rw [if_neg (hstraight h)]

end Landing

/-- **What an update does to the latest samples.** -/
theorem holds_update_iff {slot slot' : Nat → List Byte} {l ys : List (List Byte)}
    (hholds : Circular.Holds slot spectrumRingSize (spectrumRingSize - 1) l)
    (hshort : ys.length ≤ spectrumRingSize - 1)
    (hslots : ∀ k, slot' k = match landing (l.length % spectrumRingSize) ys.length k with
      | some j => ys.getD j []
      | none => slot k) :
    Circular.Holds slot' spectrumRingSize (spectrumRingSize - 1) (l ++ ys) ↔
      l.length % spectrumRingSize + ys.length < spectrumRingSize ∨
        ∀ x ∈ ys.drop (firstAdd (l.length % spectrumRingSize)),
          x = slot (spectrumRingSize - 1) := by
  have htail : l.length % spectrumRingSize < spectrumRingSize := Nat.mod_lt _ (by decide)
  -- the old samples that still count are not written over
  have hold : ∀ g x, l.length + ys.length ≤ g + (spectrumRingSize - 1) → l[g]? = some x →
      slot' (g % spectrumRingSize) = x := by
    intro g x hg hx
    have hlt : g < l.length := (List.getElem?_eq_some_iff.mp hx).1
    rw [hslots, landing_none]
    · exact hholds g x (by omega) hx
    · rw [spectrumRingSize_eq] at *
      omega
    · rw [firstAdd, spectrumRingSize_eq] at *
      omega
  have hnew : ∀ k, (l.length + k) % spectrumRingSize =
      (l.length % spectrumRingSize + k) % spectrumRingSize := fun k => (Nat.mod_add_mod _ _ _).symm
  rw [Circular.holds_append_iff hshort, and_iff_right hold]
  simp only [hnew]
  generalize l.length % spectrumRingSize = tail at *
  have hfirst : firstAdd tail = spectrumRingSize - tail - 1 := rfl
  have hget : ∀ k x, ys[k]? = some x → ys.getD k [] = x := by
    intro k x hx
    rw [List.getD_eq_getElem?_getD, hx]
    rfl
  by_cases hwrap : spectrumRingSize ≤ tail + ys.length
  · rw [or_iff_right (Nat.not_lt.mpr hwrap)]
    apply Circular.delayed_iff
    · intro k hk x hx
      have hlt : k < ys.length := (List.getElem?_eq_some_iff.mp hx).1
      rw [Nat.mod_eq_of_lt (by omega), hslots, landing_first hwrap (by omega) (by omega),
        Nat.add_sub_cancel_left]
      exact hget k x hx
    · -- the sample that belongs into the last slot
      rw [show tail + firstAdd tail = spectrumRingSize - 1 by omega, Nat.mod_eq_of_lt (by omega),
        hslots, landing_none (fun h => absurd hwrap h) (fun _ => by omega)]
    · -- behind it, each slot holds the sample before the one that belongs there
      intro k hk hlt x hx
      obtain ⟨m, rfl⟩ := Nat.exists_eq_add_of_le hk
      rw [show tail + (firstAdd tail + m + 1) = m + spectrumRingSize by omega, Nat.add_mod_right,
        Nat.mod_eq_of_lt (by omega), hslots, landing_second hwrap (by omega)]
      exact hget _ x hx
  · rw [iff_true_intro (Or.inl (Nat.not_le.mp hwrap)), iff_true]
    intro k x hx
    have hlt : k < ys.length := (List.getElem?_eq_some_iff.mp hx).1
    rw [Nat.mod_eq_of_lt (by omega), hslots, landing_straight hwrap (by omega),
      Nat.add_sub_cancel_left]
    exact hget k x hx

/-- A ring that holds the latest samples of those reported, and is where they take it. -/
structure LatestInv (s : SpectrumRing × List (List Byte)) : Prop where
  length_ring : s.1.ring.length = spectrumRingSize * 4
  at_total : s.1.At s.2.length
  holds : Circular.Holds (sampleAt s.1.ring) spectrumRingSize (spectrumRingSize - 1) s.2

theorem reset_latestInv {r : SpectrumRing} (hlength : r.ring.length = spectrumRingSize * 4) :
    LatestInv (r.reset, []) := ⟨hlength, r.reset_at, Circular.holds_nil⟩

theorem samples_length {frame : FrameData} {pcm : List Byte} (hpcm : frame.pcmData = some pcm) :
    frame.samples = samplesOf pcm := by
  rw [FrameData.samples, hpcm]
  rfl

/-- **One step of the run**: it happens, keeps the positions, and keeps the latest samples exactly
when the wrap does no harm. -/
theorem LatestInv.step {s : SpectrumRing × List (List Byte)} (h : LatestInv s) (frame : ShortFrame) :
    ∃ s', observe spectrumStep s frame = some s' ∧ s'.2 = s.2 ++ frame.1.samples ∧
      s'.1.ring.length = spectrumRingSize * 4 ∧ s'.1.At s'.2.length ∧
      (Circular.Holds (sampleAt s'.1.ring) spectrumRingSize (spectrumRingSize - 1) s'.2 ↔
        WrapHarmless s frame) := by
  obtain ⟨r, seen⟩ := s
  obtain ⟨hlength, hat, hholds⟩ := h
  obtain ⟨frame, ⟨pcm, hpcm, hsize⟩, hshort⟩ := frame
  have hlen : (samplesOf pcm).length = pcm.length / 4 := length_samplesOf pcm
  have hwindow : pcm.length / 4 ≤ spectrumRingSize - 1 := by
    rw [hsize] at hshort
    show pcm.length / 4 ≤ spectrumWindowSize
    omega
  have htail : seen.length % spectrumRingSize < spectrumRingSize := Nat.mod_lt _ (by decide)
  have hat : r.At seen.length := hat
  obtain ⟨r', hr', hlength', hat', hslots⟩ :=
    (spectrumUpdate_eq hlength hat hpcm hsize).2 (by omega)
  refine ⟨(r', seen ++ samplesOf pcm), ?_, by rw [samples_length hpcm], hlength', ?_, ?_⟩
  · apply observe_eq_some.mpr
    refine ⟨r', samplesOf pcm, ?_, rfl⟩
    show (spectrumUpdate r frame).map _ = _
    rw [hr', ← samples_length hpcm]
    rfl
  · rw [List.length_append, hlen]
    exact hat'
  · have hslots' : ∀ k, sampleAt r'.ring k =
        match landing (seen.length % spectrumRingSize) (samplesOf pcm).length k with
        | some j => (samplesOf pcm).getD j []
        | none => sampleAt r.ring k := by
      intro k
      rw [hslots k, hlen]
      cases hlanding : landing (seen.length % spectrumRingSize) (pcm.length / 4) k with
      | none => rfl
      | some j =>
          show sampleAt pcm j = (samplesOf pcm).getD j []
          rw [List.getD_eq_getElem?_getD, getElem?_samplesOf (landing_lt hlanding)]
          rfl
    rw [holds_update_iff (l := seen) hholds (by rwa [hlen]) hslots', WrapHarmless, samples_length hpcm]
    show _ ↔ r.tail + frame.pcmSize / 4 < spectrumRingSize ∨ ∀ x ∈ (samplesOf pcm).drop
      (firstAdd r.tail.toNat), x = sampleAt r.ring (spectrumRingSize - 1)
    rw [hat.tail_eq, hsize, Int.toNat_natCast, hlen]
    exact or_congr (by omega) Iff.rfl

theorem LatestInv.latestHeld {s : SpectrumRing × List (List Byte)} (h : LatestInv s) :
    LatestHeld s := (latestHeld_iff h.at_total).mpr h.holds

theorem LatestInv.harmless_step {s s' : SpectrumRing × List (List Byte)} {frame : ShortFrame}
    (h : LatestInv s) (hharmless : WrapHarmless s frame)
    (hs' : observe spectrumStep s frame = some s') : LatestInv s' := by
  obtain ⟨t, ht, -, hlength', hat', hiff⟩ := h.step frame
  obtain rfl := Option.some.inj (ht.symm.trans hs')
  exact ⟨hlength', hat', hiff.mpr hharmless⟩

theorem LatestInv.harmful_step {s s' : SpectrumRing × List (List Byte)} {frame : ShortFrame}
    (h : LatestInv s) (hharmful : ¬ WrapHarmless s frame)
    (hs' : observe spectrumStep s frame = some s') : ¬ LatestHeld s' := by
  obtain ⟨t, ht, -, -, hat', hiff⟩ := h.step frame
  obtain rfl := Option.some.inj (ht.symm.trans hs')
  intro hheld
  exact hharmful (hiff.mp ((latestHeld_iff hat').mp hheld))

/-- **When the ring holds the latest samples.** After a reset, whatever the memory holds, every
sequence of frames of at most `SPECTRUM_WINDOW_SIZE` samples runs through, and the ring holds the
latest samples all along exactly when each wrap is harmless. -/
theorem spectrum_latest_iff {r : SpectrumRing} (hlength : r.ring.length = spectrumRingSize * 4)
    (frames : List ShortFrame) :
    Always (observe spectrumStep) LatestHeld (r.reset, []) frames ↔
      Guarded (observe spectrumStep) WrapHarmless (r.reset, []) frames := by
  refine always_iff_guarded (fun _ hs => hs.latestHeld) (fun _ _ _ hs => hs.harmless_step)
    (fun _ _ _ hs => hs.harmful_step) (reset_latestInv hlength) frames

/-- A frame of `n` samples, all alike. -/
def constantFrame (sample : List Byte) (hsample : sample.length = 4) (n : Nat)
    (hn : n ≤ spectrumWindowSize) : ShortFrame :=
  ⟨⟨some (List.replicate n sample).flatten, n * 4, 0⟩, ⟨_, rfl, by simp [hsample]⟩, by
    show (n : Int) * 4 / 4 ≤ _
    omega⟩

theorem constantFrame_samples (sample : List Byte) (hsample : sample.length = 4) (n : Nat)
    (hn : n ≤ spectrumWindowSize) :
    (constantFrame sample hsample n hn).1.samples.length = n := by
  have hlength : (List.replicate n sample).flatten.length = n * 4 := by simp [hsample]
  rw [samples_length (show (constantFrame sample hsample n hn).1.pcmData = _ from rfl),
    length_samplesOf, hlength, Nat.mul_div_cancel _ (by decide)]

/-- The first frame after a reset does not wrap. -/
theorem spectrum_latest_first : Always (observe spectrumStep) LatestHeld
    ((spectrumInit fun _ => 0).reset, []) [constantFrame [1, 2, 3, 4] rfl 2 (by decide)] := by
  apply (spectrum_latest_iff (spectrumInit_inv _).length_ring _).mpr
  intro s' hs'
  exact ⟨.inl (by decide), trivial⟩

/-- Two different samples. -/
def twoSamples : ShortFrame :=
  ⟨⟨some [1, 0, 0, 0, 2, 0, 0, 0], 8, 0⟩, ⟨_, rfl, rfl⟩, by decide⟩

/-- A frame that leaves only the last slot free and then two different samples: the first of them
is in slot 0 and not in the last slot. -/
theorem spectrum_latest_lost : ¬ Always (observe spectrumStep) LatestHeld
    ((spectrumInit fun _ => 0).reset, [])
    [constantFrame [0, 0, 0, 0] rfl 4096 (by decide), twoSamples] := by
  intro halways
  have hinv := reset_latestInv (spectrumInit_inv fun _ => 0).length_ring
  obtain ⟨s, hs, hseen, hlength, hat, hiff⟩ :=
    hinv.step (constantFrame [0, 0, 0, 0] rfl 4096 (by decide))
  have hinv : LatestInv s := ⟨hlength, hat, hiff.mpr (.inl (by decide))⟩
  obtain ⟨t, ht, -, -, hat', hiff⟩ := hinv.step twoSamples
  have hheld := ((halways.2 s hs).2 t ht).head
  have hseen : s.2.length = 4096 := by
    rw [hseen, List.nil_append]
    exact constantFrame_samples _ _ _ _
  have htail : s.1.tail = 4096 := by
    rw [hat.tail_eq, hseen]
    rfl
  rcases hiff.mp ((latestHeld_iff hat').mp hheld) with hstraight | hsame
  · rw [htail] at hstraight
    exact absurd hstraight (by decide)
  · -- both samples would have to be the one in the last slot
    rw [htail] at hsame
    have hone := hsame [1, 0, 0, 0] (by decide)
    have htwo := hsame [2, 0, 0, 0] (by decide)
    exact absurd (hone.trans htwo.symm) (by decide)

end Squash
