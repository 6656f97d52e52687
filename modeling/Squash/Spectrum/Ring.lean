import Squash.Foundations.Transition
import Squash.Audio.Flac

/-!
# The ring buffer of the spectrum

`spectrum_update` copies the frames that are played into a ring of `SPECTRUM_RING_SIZE` samples of
four bytes each, from which the spectrum is drawn. A copy that wraps around is made in two parts, and
the second part is written from slot 0 on, however long it is: `spectrumUpdate_safe_iff` says when an
update stays inside of its buffers. `spectrumUpdate_eq` is the whole effect of one update.
-/

namespace Squash

open Pcm Transition

/-! ## The model -/

/-- `SPECTRUM_WINDOW_SIZE`. -/
def spectrumWindowSize : Nat := 4096

/-- `SPECTRUM_RING_SIZE`. -/
def spectrumRingSize : Nat := spectrumWindowSize + 1

/-- `spectrum_ring`, without its lock. -/
structure SpectrumRing where
  ring : List Byte
  head : Int
  tail : Int
  deriving DecidableEq, Repr

/-- One call of `memcpy`: so many bytes, from the frame to the ring. -/
structure Copy where
  dst : Int
  src : Int
  length : Int
  deriving DecidableEq, Repr

/-- `memcpy`; `none` when it reads or writes beyond the end of a buffer, or its length is
negative. -/
def Copy.perform (pcm ring : List Byte) (c : Copy) : Option (List Byte) :=
  if 0 ≤ c.length ∧ 0 ≤ c.dst ∧ 0 ≤ c.src ∧ c.dst + c.length ≤ ring.length ∧
      c.src + c.length ≤ pcm.length then
    some (ring.take c.dst.toNat ++ (pcm.drop c.src.toNat).take c.length.toNat ++
      ring.drop (c.dst + c.length).toNat)
  else none

/-- The copies of `spectrum_update`. -/
def spectrumCopies (tail toAdd : Int) : List Copy :=
  if tail + toAdd ≥ spectrumRingSize then
    let firstAdd := spectrumRingSize - tail - 1
    let secondAdd := toAdd - firstAdd
    [⟨tail * 4, 0, firstAdd * 4⟩, ⟨0, firstAdd * 4, secondAdd * 4⟩]
  else
    -- data does not wrap
    [⟨tail * 4, 0, toAdd * 4⟩]

/-- The second half of `spectrum_update`: where head and tail go. -/
def SpectrumRing.advance (r : SpectrumRing) (toAdd : Int) : SpectrumRing :=
  let i := (r.tail + toAdd).tmod spectrumRingSize
  if r.head = (r.tail + 1).tmod spectrumRingSize then
    -- already full
    { r with tail := i, head := (i + 1).tmod spectrumRingSize }
  else
    let curSize := (r.tail - r.head + spectrumRingSize).tmod spectrumRingSize
    if curSize + toAdd ≥ spectrumRingSize then
      { r with tail := i, head := (i + 1).tmod spectrumRingSize }
    else { r with tail := i }

/-- `spectrum_update`. -/
def spectrumUpdate (r : SpectrumRing) (frame : FrameData) : Option SpectrumRing := do
  let toAdd := frame.pcmSize.tdiv 4
  let pcm ← frame.pcmData
  let ring ← (spectrumCopies r.tail toAdd).foldlM (Copy.perform pcm) r.ring
  return { r with ring }.advance toAdd

/-- `spectrum_init`; the memory holds what it happens to hold. -/
def spectrumInit (fresh : Nat → Byte) : SpectrumRing :=
  ⟨squashRealloc fresh none (spectrumRingSize * 4), 0, 0⟩

/-- What `spectrum_reset` does to the ring. -/
def SpectrumRing.reset (r : SpectrumRing) : SpectrumRing := { r with head := 0, tail := 0 }

/-! ## Where head and tail are -/

/-- Where head and tail go, in natural numbers. -/
theorem advance_nat {ring : List Byte} {head tail : Nat} (hhead : head < spectrumRingSize)
    (n : Nat) : (SpectrumRing.mk ring head tail).advance n =
      if head = (tail + 1) % spectrumRingSize ∨
          spectrumRingSize ≤ (tail + spectrumRingSize - head) % spectrumRingSize + n then
        ⟨ring, ((tail + n + 1) % spectrumRingSize : Nat), ((tail + n) % spectrumRingSize : Nat)⟩
      else ⟨ring, head, ((tail + n) % spectrumRingSize : Nat)⟩ := by
  have htmod : ∀ a : Nat, (a : Int).tmod spectrumRingSize = (a % spectrumRingSize : Nat) :=
    fun a => (Int.ofNat_tmod a spectrumRingSize).symm
  have hadd : (tail : Int) + n = (tail + n : Nat) := by omega
  have hnext : (tail : Int) + 1 = (tail + 1 : Nat) := by omega
  have hsucc : (((tail + n) % spectrumRingSize : Nat) : Int) + 1 =
      ((tail + n) % spectrumRingSize + 1 : Nat) := by omega
  have hsize : (tail : Int) - head + spectrumRingSize = (tail + spectrumRingSize - head : Nat) := by
    omega
  simp only [SpectrumRing.advance, hadd, hnext, hsize, htmod, hsucc, Nat.mod_add_mod]
  by_cases hfull : head = (tail + 1) % spectrumRingSize
  · rw [if_pos (by exact_mod_cast hfull), if_pos (.inl hfull)]
  · rw [if_neg (by exact_mod_cast hfull)]
    simp only [hfull, false_or]
    by_cases hfills : spectrumRingSize ≤ (tail + spectrumRingSize - head) % spectrumRingSize + n
    · rw [if_pos (by exact_mod_cast hfills), if_pos hfills]
    · rw [if_neg (by exact_mod_cast hfills), if_neg hfills]

/-- Where the head is after `total` samples. -/
def ringHead (total : Nat) : Nat :=
  if total < spectrumRingSize then 0 else (total + 1) % spectrumRingSize

/-- Head and tail after `total` samples since the last reset. -/
structure SpectrumRing.At (r : SpectrumRing) (total : Nat) : Prop where
  head_eq : r.head = ringHead total
  tail_eq : r.tail = (total % spectrumRingSize : Nat)

theorem spectrumRingSize_eq : spectrumRingSize = 4097 := rfl

theorem ringHead_of_lt {total : Nat} (h : total < 4097) : ringHead total = 0 := if_pos h

theorem ringHead_of_le {total : Nat} (h : 4097 ≤ total) : ringHead total = (total + 1) % 4097 :=
  if_neg (Nat.not_lt.mpr h)

theorem SpectrumRing.reset_at (r : SpectrumRing) : r.reset.At 0 := ⟨rfl, rfl⟩

theorem SpectrumRing.At.advance {r : SpectrumRing} {total : Nat} (h : r.At total) (n : Nat) :
    (r.advance n).At (total + n) := by
  obtain ⟨ring, head, tail⟩ := r
  obtain ⟨rfl, rfl⟩ := h
  have hnew := @ringHead_of_lt (total + n)
  have hnew' := @ringHead_of_le (total + n)
  have hold := @ringHead_of_lt total
  have hold' := @ringHead_of_le total
  have hhead : ringHead total < spectrumRingSize := by
    rw [spectrumRingSize_eq]
    omega
  have htail : (total % spectrumRingSize + n) % spectrumRingSize = (total + n) % spectrumRingSize :=
    Nat.mod_add_mod _ _ _
  rw [advance_nat hhead, htail]
  -- full afterwards exactly when it was full before or becomes so
  by_cases hfull : total = 4096 ∨ 4097 ≤ total + n
  · rw [if_pos (by rw [spectrumRingSize_eq]; omega)]
    refine ⟨congrArg Nat.cast (show _ = ringHead (total + n) from ?_), rfl⟩
    rw [spectrumRingSize_eq]
    omega
  · rw [if_neg (by rw [spectrumRingSize_eq]; omega)]
    exact ⟨congrArg Nat.cast (show ringHead total = ringHead (total + n) by omega), rfl⟩

/-! ## The copies -/

/-- The bytes of the sample in slot `k`. -/
def sampleAt (bytes : List Byte) (k : Nat) : List Byte := (bytes.drop (4 * k)).take 4

theorem getElem?_sampleAt {bytes : List Byte} {k i : Nat} :
    (sampleAt bytes k)[i]? = if i < 4 then bytes[4 * k + i]? else none := by
  rw [sampleAt, List.getElem?_take, List.getElem?_drop]

/-- The samples of a frame. -/
def samplesOf (pcm : List Byte) : List (List Byte) :=
  (List.range (pcm.length / 4)).map (sampleAt pcm)

@[simp] theorem length_samplesOf (pcm : List Byte) : (samplesOf pcm).length = pcm.length / 4 := by
  simp [samplesOf]

theorem getElem?_samplesOf {pcm : List Byte} {k : Nat} (hk : k < pcm.length / 4) :
    (samplesOf pcm)[k]? = some (sampleAt pcm k) := by
  simp [samplesOf, hk]

/-- A copy of `n` samples, in natural numbers. -/
def Copy.ofSamples (dst src n : Nat) : Copy := ⟨(dst * 4 : Nat), (src * 4 : Nat), (n * 4 : Nat)⟩

theorem perform_ofSamples {pcm ring : List Byte} {dst src n : Nat} :
    (Copy.ofSamples dst src n).perform pcm ring =
      if dst * 4 + n * 4 ≤ ring.length ∧ src * 4 + n * 4 ≤ pcm.length then
        some (ring.take (dst * 4) ++ (pcm.drop (src * 4)).take (n * 4) ++
          ring.drop (dst * 4 + n * 4))
      else none := by
  have hadd : ∀ a b : Nat, (a : Int) + b = (a + b : Nat) := fun a b => (Int.natCast_add a b).symm
  simp only [Copy.perform, Copy.ofSamples, hadd, Int.toNat_natCast, Int.ofNat_le, Int.natCast_nonneg,
    true_and]

theorem perform_ofSamples_eq_some {pcm ring ring' : List Byte} {dst src n : Nat}
    (h : (Copy.ofSamples dst src n).perform pcm ring = some ring') :
    dst * 4 + n * 4 ≤ ring.length ∧ src * 4 + n * 4 ≤ pcm.length ∧
      ring' = ring.take (dst * 4) ++ (pcm.drop (src * 4)).take (n * 4) ++
        ring.drop (dst * 4 + n * 4) := by
  rw [perform_ofSamples] at h
  split at h
  · next hbounds =>
      cases h
      exact ⟨hbounds.1, hbounds.2, rfl⟩
  · cases h

theorem exists_perform {pcm ring : List Byte} {dst src n : Nat}
    (hring : dst * 4 + n * 4 ≤ ring.length) (hpcm : src * 4 + n * 4 ≤ pcm.length) :
    ∃ ring', (Copy.ofSamples dst src n).perform pcm ring = some ring' := by
  rw [perform_ofSamples, if_pos ⟨hring, hpcm⟩]
  exact ⟨_, rfl⟩

theorem length_perform {pcm ring ring' : List Byte} {dst src n : Nat}
    (h : (Copy.ofSamples dst src n).perform pcm ring = some ring') :
    ring'.length = ring.length := by
  obtain ⟨hring, hpcm, rfl⟩ := perform_ofSamples_eq_some h
  simp only [List.length_append, List.length_take, List.length_drop]
  omega

/-- **A copy moves whole samples**; the other slots keep theirs. -/
theorem sampleAt_perform {pcm ring ring' : List Byte} {dst src n : Nat}
    (h : (Copy.ofSamples dst src n).perform pcm ring = some ring') (k : Nat) :
    sampleAt ring' k =
      if dst ≤ k ∧ k < dst + n then sampleAt pcm (src + (k - dst)) else sampleAt ring k := by
  obtain ⟨hring, hpcm, rfl⟩ := perform_ofSamples_eq_some h
  have htake : (ring.take (dst * 4)).length = dst * 4 := by
    rw [List.length_take]
    omega
  have hmiddle : ((pcm.drop (src * 4)).take (n * 4)).length = n * 4 := by
    rw [List.length_take, List.length_drop]
    omega
  apply List.ext_getElem?
  intro i
  by_cases hi : i < 4
  · rw [getElem?_sampleAt, if_pos hi, List.getElem?_append, List.length_append, htake, hmiddle]
    by_cases hbefore : k < dst
    · rw [if_pos (by omega), List.getElem?_append_left (by omega), List.getElem?_take_of_lt (by omega),
        if_neg (by omega), getElem?_sampleAt, if_pos hi]
    · by_cases hin : k < dst + n
      · rw [if_pos (by omega), List.getElem?_append_right (by omega), htake,
          List.getElem?_take_of_lt (by omega), List.getElem?_drop, if_pos (by omega),
          getElem?_sampleAt, if_pos hi]
        exact congrArg _ (by omega)
      · rw [if_neg (by omega), List.getElem?_drop, if_neg (by omega), getElem?_sampleAt, if_pos hi]
        exact congrArg _ (by omega)
  · rw [getElem?_sampleAt, if_neg hi]
    split <;> rw [getElem?_sampleAt, if_neg hi]

/-! ## One update -/

@[simp] theorem advance_ring (r : SpectrumRing) (n : Int) : (r.advance n).ring = r.ring := by
  rw [SpectrumRing.advance]
  dsimp only
  split
  · rfl
  · split <;> rfl

/-- How many samples the first copy of a wrap takes. -/
def firstAdd (tail : Nat) : Nat := spectrumRingSize - tail - 1

theorem spectrumCopies_nat {tail n : Nat} (htail : tail < spectrumRingSize) :
    spectrumCopies tail n =
      if spectrumRingSize ≤ tail + n then
        [Copy.ofSamples tail 0 (firstAdd tail), Copy.ofSamples 0 (firstAdd tail) (n - firstAdd tail)]
      else [Copy.ofSamples tail 0 n] := by
  have hwrap : (tail : Int) + n ≥ spectrumRingSize ↔ spectrumRingSize ≤ tail + n := by omega
  rw [spectrumCopies]
  by_cases h : spectrumRingSize ≤ tail + n
  · have hfirst : (spectrumRingSize : Int) - tail - 1 = (firstAdd tail : Nat) := by
      rw [firstAdd]
      omega
    have hsecond : (n : Int) - (firstAdd tail : Nat) = (n - firstAdd tail : Nat) := by
      rw [firstAdd]
      omega
    rw [if_pos (hwrap.mpr h), if_pos h]
    simp only [hfirst, hsecond, Copy.ofSamples, Int.natCast_mul]
    rfl
  · rw [if_neg (mt hwrap.mp h), if_neg h]
    simp only [Copy.ofSamples, Int.natCast_mul]
    rfl

/-- The sample of the frame that an update leaves in slot `k`. -/
def landing (tail n k : Nat) : Option Nat :=
  if spectrumRingSize ≤ tail + n then
    if k < n - firstAdd tail then some (firstAdd tail + k)
    else if tail ≤ k ∧ k < tail + firstAdd tail then some (k - tail)
    else none
  else if tail ≤ k ∧ k < tail + n then some (k - tail)
  else none

/-- **When the copies stay inside of the buffers, and what they leave behind.** -/
theorem copies_perform (pcm : List Byte) {ring : List Byte} {tail : Nat} (htail : tail < spectrumRingSize)
    (hring : ring.length = spectrumRingSize * 4) :
    (¬ tail + pcm.length / 4 ≤ 2 * spectrumRingSize - 1 →
      (spectrumCopies tail (pcm.length / 4 : Nat)).foldlM (Copy.perform pcm) ring = none) ∧
    (tail + pcm.length / 4 ≤ 2 * spectrumRingSize - 1 → ∃ ring',
      (spectrumCopies tail (pcm.length / 4 : Nat)).foldlM (Copy.perform pcm) ring = some ring' ∧
      ring'.length = spectrumRingSize * 4 ∧
      ∀ k, sampleAt ring' k = match landing tail (pcm.length / 4) k with
        | some j => sampleAt pcm j
        | none => sampleAt ring k) := by
  have hpcm : pcm.length / 4 * 4 ≤ pcm.length := Nat.div_mul_le_self _ _
  generalize hn : pcm.length / 4 = n at *
  rw [spectrumCopies_nat htail]
  by_cases hwrap : spectrumRingSize ≤ tail + n
  · rw [if_pos hwrap]
    have hfirst : firstAdd tail = spectrumRingSize - tail - 1 := rfl
    obtain ⟨ring₁, hcopy₁⟩ : ∃ ring₁,
        (Copy.ofSamples tail 0 (firstAdd tail)).perform pcm ring = some ring₁ :=
      exists_perform (by omega) (by omega)
    have hlength := length_perform hcopy₁
    have hfold : [Copy.ofSamples tail 0 (firstAdd tail),
        Copy.ofSamples 0 (firstAdd tail) (n - firstAdd tail)].foldlM (Copy.perform pcm) ring =
          (Copy.ofSamples 0 (firstAdd tail) (n - firstAdd tail)).perform pcm ring₁ := by
      simp only [List.foldlM_cons, List.foldlM_nil, hcopy₁, Option.bind_eq_bind, Option.bind_some]
      exact Option.bind_fun_some _
    rw [hfold]
    constructor
    · intro hlong
      rw [perform_ofSamples, if_neg (by omega)]
    · intro hfits
      obtain ⟨ring₂, hcopy₂⟩ : ∃ ring₂, (Copy.ofSamples 0 (firstAdd tail)
          (n - firstAdd tail)).perform pcm ring₁ = some ring₂ :=
        exists_perform (by omega) (by omega)
      refine ⟨ring₂, hcopy₂, (length_perform hcopy₂).trans (hlength.trans hring), ?_⟩
      intro k
      rw [sampleAt_perform hcopy₂, sampleAt_perform hcopy₁, landing, if_pos hwrap]
      by_cases hsecond : k < n - firstAdd tail
      · rw [if_pos (by omega), if_pos hsecond, Nat.sub_zero]
      · rw [if_neg (by omega), if_neg hsecond]
        split <;> simp only [Nat.zero_add]
  · rw [if_neg hwrap]
    obtain ⟨ring₁, hcopy₁⟩ : ∃ ring₁, (Copy.ofSamples tail 0 n).perform pcm ring = some ring₁ :=
      exists_perform (by omega) (by omega)
    constructor
    · intro hlong
      omega
    · intro _
      refine ⟨ring₁, ?_, (length_perform hcopy₁).trans hring, ?_⟩
      · simp only [List.foldlM_cons, List.foldlM_nil, hcopy₁, Option.bind_eq_bind, Option.bind_some]
        rfl
      · intro k
        rw [sampleAt_perform hcopy₁, landing, if_neg hwrap]
        split <;> simp only [Nat.zero_add]

/-! ## Staying inside of the buffers -/

/-- A call between `spectrum_init` and `spectrum_deinit`. -/
inductive SpectrumCall where
  | reset
  | update (frame : {frame : FrameData // frame.Delivered})

/-- A call that leaves the buffers is not followed any further. -/
def SpectrumRing.call (r : SpectrumRing) : SpectrumCall → Option SpectrumRing
  | .reset => some r.reset
  | .update frame => spectrumUpdate r frame.1

/-- The length is not negative, and every byte that is written or read is inside of its buffer. -/
def Copy.InBounds (ringSize pcmSize : Int) (c : Copy) : Prop :=
  0 ≤ c.length ∧ ∀ k, 0 ≤ k → k < c.length →
    (0 ≤ c.dst + k ∧ c.dst + k < ringSize) ∧ 0 ≤ c.src + k ∧ c.src + k < pcmSize

def SpectrumRing.InRange (r : SpectrumRing) : Prop :=
  (0 ≤ r.head ∧ r.head < spectrumRingSize) ∧ 0 ≤ r.tail ∧ r.tail < spectrumRingSize

/-- An update stays inside of its buffers, and so do head and tail. -/
def SpectrumSafe (r : SpectrumRing) (frame : FrameData) : Prop :=
  (∀ c ∈ spectrumCopies r.tail (frame.pcmSize.tdiv 4),
    c.InBounds (spectrumRingSize * 4) frame.pcmSize) ∧
  (r.advance (frame.pcmSize.tdiv 4)).InRange

/-- What every call keeps: the size of the memory, and head and tail where some number of samples
takes them. -/
structure SpectrumRing.Inv (r : SpectrumRing) : Prop where
  length_ring : r.ring.length = spectrumRingSize * 4
  at_total : ∃ total, r.At total

theorem SpectrumRing.At.inRange {r : SpectrumRing} {total : Nat} (h : r.At total) : r.InRange := by
  have hhead := h.head_eq
  have htail := h.tail_eq
  have hlt := @ringHead_of_lt total
  have hle := @ringHead_of_le total
  rw [spectrumRingSize_eq] at htail
  rw [SpectrumRing.InRange, spectrumRingSize_eq]
  omega

theorem tdiv_four (pcm : List Byte) : (pcm.length : Int).tdiv 4 = (pcm.length / 4 : Nat) :=
  (Int.ofNat_tdiv pcm.length 4).symm

/-- **One update**: it succeeds exactly when the samples fit into what is left of the ring and once
more the whole ring. -/
theorem spectrumUpdate_eq {r : SpectrumRing} {frame : FrameData} {pcm : List Byte} {total : Nat}
    (hlength : r.ring.length = spectrumRingSize * 4) (hat : r.At total)
    (hpcm : frame.pcmData = some pcm) (hsize : frame.pcmSize = pcm.length) :
    (¬ total % spectrumRingSize + pcm.length / 4 ≤ 2 * spectrumRingSize - 1 →
      spectrumUpdate r frame = none) ∧
    (total % spectrumRingSize + pcm.length / 4 ≤ 2 * spectrumRingSize - 1 → ∃ r',
      spectrumUpdate r frame = some r' ∧ r'.ring.length = spectrumRingSize * 4 ∧
      r'.At (total + pcm.length / 4) ∧
      ∀ k, sampleAt r'.ring k =
        match landing (total % spectrumRingSize) (pcm.length / 4) k with
        | some j => sampleAt pcm j
        | none => sampleAt r.ring k) := by
  have htail : total % spectrumRingSize < spectrumRingSize := Nat.mod_lt _ (by decide)
  have hupdate : spectrumUpdate r frame =
      ((spectrumCopies (total % spectrumRingSize : Nat) (pcm.length / 4 : Nat)).foldlM
        (Copy.perform pcm) r.ring).map fun ring =>
          { r with ring }.advance (pcm.length / 4 : Nat) := by
    rw [spectrumUpdate, hpcm, hsize, tdiv_four, hat.tail_eq, Option.bind_eq_bind, Option.bind_some,
      Option.map_eq_bind]
    rfl
  obtain ⟨hlong, hfits⟩ := copies_perform pcm htail hlength
  rw [hupdate]
  constructor
  · intro hle
    rw [hlong hle]
    rfl
  · intro hle
    obtain ⟨ring', hcopies, hring', hslots⟩ := hfits hle
    have hat' : { r with ring := ring' }.At total := ⟨hat.head_eq, hat.tail_eq⟩
    rw [hcopies]
    refine ⟨_, rfl, ?_, hat'.advance _, ?_⟩
    · rw [advance_ring]
      exact hring'
    · rw [advance_ring]
      exact hslots

theorem spectrumInit_inv (fresh : Nat → Byte) : (spectrumInit fresh).Inv := by
  unfold spectrumInit
  have hlength := length_squashRealloc fresh none (spectrumRingSize * 4)
  generalize squashRealloc fresh none (spectrumRingSize * 4) = ring at *
  exact ⟨hlength, 0, rfl, rfl⟩

theorem SpectrumRing.Inv.call {r r' : SpectrumRing} {c : SpectrumCall} (h : r.Inv)
    (hcall : r.call c = some r') : r'.Inv := by
  obtain ⟨hlength, total, hat⟩ := h
  cases c with
  | reset =>
      cases hcall
      exact ⟨hlength, 0, r.reset_at⟩
  | update frame =>
      obtain ⟨frame, pcm, hpcm, hsize⟩ := frame
      obtain ⟨hlong, hfits⟩ := spectrumUpdate_eq hlength hat hpcm hsize
      by_cases hle : total % spectrumRingSize + pcm.length / 4 ≤ 2 * spectrumRingSize - 1
      · obtain ⟨r'', hr'', hlength', hat', -⟩ := hfits hle
        obtain rfl := Option.some.inj (hr''.symm.trans hcall)
        exact ⟨hlength', _, hat'⟩
      · cases (hlong hle).symm.trans hcall

theorem inBounds_ofSamples_iff {dst src n length : Nat} (hsrc : src * 4 + n * 4 ≤ length) :
    (Copy.ofSamples dst src n).InBounds (spectrumRingSize * 4) length ↔
      n = 0 ∨ dst + n ≤ spectrumRingSize := by
  simp only [Copy.InBounds, Copy.ofSamples]
  constructor
  · rintro ⟨-, hbytes⟩
    by_cases hn : n = 0
    · exact .inl hn
    · have hlast := hbytes (n * 4 - 1 : Int) (by omega) (by omega)
      omega
  · intro hn
    refine ⟨by omega, ?_⟩
    intro k hk hlt
    omega

/-- The copies are in bounds exactly when the second one does not pass the end of the ring. -/
theorem copies_inBounds_iff {tail length : Nat} (htail : tail < spectrumRingSize) :
    (∀ c ∈ spectrumCopies tail (length / 4 : Nat), c.InBounds (spectrumRingSize * 4) length) ↔
      tail + length / 4 ≤ 2 * spectrumRingSize - 1 := by
  have hfirst : firstAdd tail = spectrumRingSize - tail - 1 := rfl
  rw [spectrumCopies_nat htail]
  by_cases hwrap : spectrumRingSize ≤ tail + length / 4
  · rw [if_pos hwrap, List.forall_mem_cons, List.forall_mem_singleton,
      inBounds_ofSamples_iff (by omega), inBounds_ofSamples_iff (by omega)]
    omega
  · rw [if_neg hwrap, List.forall_mem_singleton, inBounds_ofSamples_iff (by omega)]
    omega

theorem SpectrumRing.Inv.safe_iff {r : SpectrumRing} {frame : FrameData} (h : r.Inv)
    (hframe : frame.Delivered) :
    SpectrumSafe r frame ↔ r.tail + frame.pcmSize / 4 ≤ 2 * spectrumRingSize - 1 := by
  obtain ⟨hlength, total, hat⟩ := h
  obtain ⟨pcm, hpcm, hsize⟩ := hframe
  have htail : total % spectrumRingSize < spectrumRingSize := Nat.mod_lt _ (by decide)
  rw [SpectrumSafe, hsize, tdiv_four, hat.tail_eq, copies_inBounds_iff htail,
    and_iff_left (hat.advance _).inRange]
  omega

/-- **When an update is safe.** Whatever was called before, an update with a frame of a decoder stays
inside of its buffers exactly when `tail` and the number of its samples together are less than twice
the size of the ring. -/
theorem spectrumUpdate_safe_iff (fresh : Nat → Byte) (calls : List SpectrumCall) :
    Always SpectrumRing.call (fun r => ∀ frame : FrameData, frame.Delivered →
      (SpectrumSafe r frame ↔ r.tail + frame.pcmSize / 4 ≤ 2 * spectrumRingSize - 1))
      (spectrumInit fresh) calls := by
  exact always_of_step (fun _ hr _ => hr.safe_iff) (fun _ _ _ hr => hr.call)
    (spectrumInit_inv fresh) calls

/-- A frame of 65535 silent stereo samples, as the FLAC decoder hands it over, runs over the end of
the ring. -/
theorem spectrumUpdate_overruns : ∃ data frame,
    flacWriteCallbackDecodeFrame (fun _ => 0) ⟨none, 0, 2, 44100, 0, 0⟩ ⟨.sampleNumber 0, 65535⟩
      (fun _ _ => 0) = some data ∧
    flacDecodeFrame data .ok = some frame ∧ frame.Delivered ∧ frame.pcmSize = 262140 ∧
    ¬ SpectrumSafe (spectrumInit fun _ => 0) frame := by
  have halloc : FlacData.Allocated ⟨none, 0, 2, 44100, 0, 0⟩ := rfl
  have hlength := length_flacBlockBytes 2 65535 fun _ _ => 0
  generalize hpcm : flacBlockBytes 2 65535 (fun _ _ => 0) = pcm at hlength
  refine ⟨⟨some pcm, 262140, 2, 44100, 0, 0⟩, ⟨some pcm, 262140, 0⟩, ?_, rfl,
    ⟨pcm, rfl, by rw [hlength]; rfl⟩, rfl, ?_⟩
  · rw [flacWriteCallback_eq halloc, ← hpcm]
    rfl
  · rintro ⟨hcopies, -⟩
    have hfits : 0 + 262140 / 4 ≤ 2 * spectrumRingSize - 1 :=
      (copies_inBounds_iff (by decide)).mp hcopies
    exact absurd hfits (by decide)

end Squash
