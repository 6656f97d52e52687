import Squash.Vfd.Bitmaps

/-!
# The bitmap formats

The header file says how a picture is laid out as a bitmap: the format and the two sizes, then the rows
from the top, each of them in whole bytes. A `Coding` is one of the three formats: how the pixels of one
byte are packed, and what a pixel is drawn as.

Any part of any picture that is laid out like that is drawn as it is (`drawBitmap_encode`). -/

namespace Squash.Vfd

open Picture

/-! ## The layout -/

/-- A format of bitmaps for pixels `α`. -/
structure Coding (α : Type) where
  format : BitVec 8
  perByte : Nat
  pack : (Nat → α) → BitVec 8
  /-- what is drawn for a pixel -/
  shown : Option Shade → Bool → α → Option Shade

variable {α : Type}

def Coding.skip (coding : Coding α) (width : Nat) : Nat := (width - 1) / coding.perByte + 1

/-- The byte `j` behind the header. -/
def Coding.row (coding : Coding α) (width : Nat) (picture : Int → Int → α) (j : Nat) : BitVec 8 :=
  coding.pack fun i =>
    picture (↑(j % coding.skip width * coding.perByte + i)) (↑(j / coding.skip width))

/-- A picture as a bitmap. -/
def Coding.encode (coding : Coding α) (width height : Nat) (picture : Int → Int → α) : Bitmap :=
  [coding.format, .ofNat 8 (width / 256), .ofNat 8 (width % 256), .ofNat 8 (height / 256),
      .ofNat 8 (height % 256)] ++
    (List.range (height * coding.skip width)).map (coding.row width picture)

/-- Each bit is a pixel, the highest one the leftmost. -/
def coding1BPP : Coding Bool where
  format := bitmap1BPP
  perByte := 8
  pack f := .ofBoolListBE [f 0, f 1, f 2, f 3, f 4, f 5, f 6, f 7]
  shown shade isTransparent lit :=
    if lit then some (shade.getD vfdshadeBright) else if isTransparent then none else some 0

/-- Each pair of bits is a pixel, the lowest one the leftmost. -/
def coding2BPP : Coding (BitVec 2) where
  format := bitmap2BPP
  perByte := 4
  pack f := f 3 ++ f 2 ++ f 1 ++ f 0
  shown shade isTransparent pair :=
    if pair ≠ 0 ∨ !isTransparent then some (shade.getD (pair.setWidth 4)) else none

/-- Each nybble is a pixel, the low one the left. Its high bits are for transparency. -/
def coding4BPP : Coding (BitVec 4) where
  format := bitmap4BPP
  perByte := 2
  pack f := f 1 ++ f 0
  shown shade isTransparent nyb :=
    if isTransparent then if nyb &&& 0xC = 0 then some (shade.getD (nyb &&& 0x3)) else none
    else some (nyb &&& 0x3)

/-! ## Reading it back -/

section Layout

variable {coding : Coding α} {width height : Nat} {picture : Int → Int → α} {spare : Bitmap}

theorem byte_format :
    Bitmap.byte (coding.encode width height picture ++ spare) 0 = some coding.format := rfl

/-- Two bytes of the header give back a size. -/
theorem size_bytes (n : Nat) (h : n < 65536) :
    ((BitVec.ofNat 8 (n % 256)).toNat : Int) + (BitVec.ofNat 8 (n / 256)).toNat * 256 = n := by
  rw [BitVec.toNat_ofNat, BitVec.toNat_ofNat]
  omega

theorem size_width (h : width < 65536) :
    Bitmap.size (coding.encode width height picture ++ spare) 1 = some (width : Int) :=
  congrArg some (size_bytes width h)

theorem size_height (h : height < 65536) :
    Bitmap.size (coding.encode width height picture ++ spare) 3 = some (height : Int) :=
  congrArg some (size_bytes height h)

theorem drop_encode : (coding.encode width height picture ++ spare).drop 5 =
    (List.range (height * coding.skip width)).map (coding.row width picture) ++ spare := rfl

theorem length_encode : ((coding.encode width height picture ++ spare).drop 5).length =
    height * coding.skip width + spare.length := by
  rw [drop_encode, List.length_append, List.length_map, List.length_range]

/-- The byte in which a pixel is. -/
theorem at_encode {x y : Nat} (hx : x < width) (hy : y < height) :
    Bitmap.at ((coding.encode width height picture ++ spare).drop 5)
        (↑(y * coding.skip width + x / coding.perByte)) =
      coding.pack fun i => picture (↑(x / coding.perByte * coding.perByte + i)) y := by
  have hk : x / coding.perByte < coding.skip width :=
    Nat.lt_succ_of_le (Nat.div_le_div_right (by omega))
  have hlt : y * coding.skip width + x / coding.perByte < height * coding.skip width := by
    have hrows := Nat.mul_le_mul_right (coding.skip width) (show y + 1 ≤ height from hy)
    rw [Nat.add_mul, Nat.one_mul] at hrows
    omega
  have hmod : (y * coding.skip width + x / coding.perByte) % coding.skip width =
      x / coding.perByte := by
    rw [Nat.add_comm, Nat.add_mul_mod_self_right, Nat.mod_eq_of_lt hk]
  have hdiv : (y * coding.skip width + x / coding.perByte) / coding.skip width = y := by
    rw [Nat.add_comm, Nat.add_mul_div_right _ _ (by omega), Nat.div_eq_of_lt hk, Nat.zero_add]
  rw [Bitmap.at, drop_encode, Int.toNat_natCast, List.getElem?_append_left (by simpa using hlt),
    List.getElem?_map, List.getElem?_range hlt]
  simp only [Option.map_some, Option.getD_some, Coding.row, hmod, hdiv]

end Layout

/-! ## The three formats -/

theorem pack_1BPP (f : Nat → Bool) {i : Nat} (hi : i < 8) :
    (coding1BPP.pack f).getLsbD (7 - i) = f i := by
  simp only [coding1BPP]
  interval_cases i <;> generalize f 0 = a, f 1 = b, f 2 = c, f 3 = d, f 4 = e, f 5 = g, f 6 = h,
    f 7 = k <;> revert a b c d e g h k <;> decide

theorem pack_2BPP (f : Nat → BitVec 2) {i : Nat} (hi : i < 4) :
    (coding2BPP.pack f >>> (2 * i)) &&& 3 = (f i).setWidth 8 := by
  simp only [coding2BPP]
  interval_cases i <;> generalize f 0 = a, f 1 = b, f 2 = c, f 3 = d <;> revert a b c d <;>
    decide +kernel

theorem pack_4BPP (f : Nat → BitVec 4) :
    loNybble (coding4BPP.pack f) = f 0 ∧ hiNybble (coding4BPP.pack f) = f 1 := by
  simp only [coding4BPP]
  generalize f 0 = a, f 1 = b
  revert a b
  decide +kernel

/-- The pixels of a laid out picture are the pixels of the picture. -/
def Coding.Decodes (coding : Coding α) : Prop :=
  ∀ (width height : Nat) (picture : Int → Int → α) (spare : Bitmap) (shade : Option Shade)
    (isTransparent : Bool) (x y : Nat), x < width → y < height →
    Bitmap.pixel (coding.encode width height picture ++ spare) coding.format width shade
      isTransparent x y = coding.shown shade isTransparent (picture x y)

/-- The byte in which a pixel is, as its index is computed. -/
theorem at_index (coding : Coding α) {width height : Nat} {picture : Int → Int → α}
    (spare : Bitmap) {x y : Nat} (hx : x < width) (hy : y < height) :
    Bitmap.at ((coding.encode width height picture ++ spare).drop 5)
        (y * (((width : Int) - 1) / coding.perByte + 1) + x / coding.perByte) =
      coding.pack fun i => picture (↑(x / coding.perByte * coding.perByte + i)) y := by
  have hwidth : (width : Int) - 1 = ↑(width - 1) := by omega
  have hat : Bitmap.at ((coding.encode width height picture ++ spare).drop 5) _ = _ :=
    at_encode hx hy
  rw [← hat, hwidth, Coding.skip]
  push_cast
  rfl

theorem decodes_1BPP : coding1BPP.Decodes := by
  intro width height picture spare shade isTransparent x y hx hy
  have hmod : ((x : Int) % 8).toNat = x % 8 := rfl
  have hbit : bit1BPP ((coding1BPP.encode width height picture ++ spare).drop 5) width x y =
      picture x y := by
    rw [bit1BPP, hmod]
    refine (congrArg (BitVec.getLsbD · (7 - x % 8)) (at_index coding1BPP spare hx hy)).trans ?_
    rw [pack_1BPP _ (Nat.mod_lt x (by decide))]
    exact congrArg (fun i : Nat => picture i y) (Nat.div_add_mod' x 8)
  show pixel1BPP _ width shade isTransparent x y = _
  rw [pixel1BPP, hbit]
  rfl

theorem decodes_2BPP : coding2BPP.Decodes := by
  intro width height picture spare shade isTransparent x y hx hy
  have hmod : ((x : Int) % 4).toNat = x % 4 := rfl
  have hpair : (Bitmap.at ((coding2BPP.encode width height picture ++ spare).drop 5)
        (y * (((width : Int) - 1) / 4 + 1) + x / 4) >>> (2 * ((x : Int) % 4).toNat)) &&& 3 =
      (picture x y).setWidth 8 := by
    rw [hmod]
    refine (congrArg (fun b : BitVec 8 => (b >>> (2 * (x % 4))) &&& 3)
      (at_index coding2BPP spare hx hy)).trans ?_
    rw [pack_2BPP _ (Nat.mod_lt x (by decide))]
    exact congrArg (fun i : Nat => (picture i y).setWidth 8) (Nat.div_add_mod' x 4)
  have hwide : ∀ pair : BitVec 2,
      (pair.setWidth 8 ≠ 0 ↔ pair ≠ 0) ∧ (pair.setWidth 8).setWidth 4 = pair.setWidth 4 := by decide
  show pixel2BPP _ width shade isTransparent x y = _
  simp only [pixel2BPP, hpair, hwide]
  rfl

theorem decodes_4BPP : coding4BPP.Decodes := by
  intro width height picture spare shade isTransparent x y hx hy
  have hnybble : nybble x (Bitmap.at ((coding4BPP.encode width height picture ++ spare).drop 5)
        (y * (((width : Int) - 1) / 2 + 1) + x / 2)) = picture x y := by
    refine (congrArg (nybble x) (at_index coding4BPP spare hx hy)).trans ?_
    obtain ⟨hlo, hhi⟩ := pack_4BPP fun i => picture (↑(x / 2 * 2 + i)) y
    unfold nybble
    split
    · next heven =>
        refine hlo.trans (congrArg (fun i : Nat => picture i y) ?_)
        omega
    · next hodd =>
        refine hhi.trans (congrArg (fun i : Nat => picture i y) ?_)
        omega
  show pixel4BPP _ width shade isTransparent x y = _
  simp only [pixel4BPP, hnybble]
  rfl

/-! ## Drawing what was laid out -/

/-- How many pixels of its format a byte has. -/
structure Coding.Packed (coding : Coding α) : Prop where
  of1BPP : coding.format = bitmap1BPP → coding.perByte = 8
  of2BPP : coding.format = bitmap2BPP → coding.perByte = 4
  of4BPP : coding.format = bitmap4BPP → coding.perByte = 2

/-- A laid out picture is well formed. In the format with two bits for a pixel there has to be a byte
behind it, if its rows end at the end of a byte. -/
theorem wellFormed_encode {coding : Coding α} {width height : Nat} {picture : Int → Int → α}
    {spare : Bitmap} (hpacked : coding.Packed) (hwidth : 0 < width) (hwidth' : width < 65536)
    (hheight : height < 65536)
    (hspare : coding.format = bitmap2BPP → width % 4 = 0 → spare ≠ []) :
    (coding.encode width height picture ++ spare).WellFormed coding.format width height := by
  have hrows : ∀ k : Nat, coding.perByte = k →
      (((coding.encode width height picture ++ spare).drop 5).length : Int) =
        height * (((width : Int) - 1) / k + 1) + spare.length := by
    rintro _ rfl
    have hskip : (width : Int) - 1 = ↑(width - 1) := by omega
    rw [length_encode, hskip, Coding.skip]
    push_cast
    rfl
  refine ⟨byte_format, size_width hwidth', size_height hheight, ?_, ?_, ?_, ?_⟩
  · intro hformat
    have hrows := hrows 8 (hpacked.of1BPP hformat)
    push_cast at hrows
    omega
  · intro hformat
    have hrows := hrows 4 (hpacked.of2BPP hformat)
    push_cast at hrows
    omega
  · intro hformat hend
    have hrows := hrows 4 (hpacked.of2BPP hformat)
    have hpos := List.length_pos_iff.mpr (hspare hformat (by omega))
    push_cast at hrows
    omega
  · intro hformat
    have hrows := hrows 2 (hpacked.of4BPP hformat)
    push_cast at hrows
    omega

/-- Every part of every picture in the format is drawn as it is, wherever it is drawn to. -/
def Coding.Faithful (coding : Coding α) : Prop :=
  ∀ (n m : Nat) (picture : Int → Int → α) (spare : Bitmap) (clip : Clip) (buffer : Buffer)
    (destX destY sourceX sourceY width height : Int) (shade : Option Shade) (isTransparent : Bool),
    0 < n → n < 65536 → m < 65536 → (coding.format = bitmap2BPP → n % 4 = 0 → spare ≠ []) →
    clip.Valid → Extent.Inside n ⟨destX, sourceX, width⟩ → Extent.Inside m ⟨destY, sourceY, height⟩ →
    Draws screen (vfdlibDrawBitmap clip buffer (coding.encode n m picture ++ spare) destX destY
        sourceX sourceY width height shade isTransparent) buffer
      (within (rect destX destY (destX + Extent.wanted n ⟨destX, sourceX, width⟩)
          (destY + Extent.wanted m ⟨destY, sourceY, height⟩) ∩ clip.area) fun q =>
        coding.shown shade isTransparent (picture (sourceX + q.1 - destX) (sourceY + q.2 - destY)))

theorem faithful {coding : Coding α} (hpacked : coding.Packed) (hdecodes : coding.Decodes) :
    coding.Faithful := by
  intro n m picture spare clip buffer destX destY sourceX sourceY width height shade isTransparent
    hn hn' hm hspare hclip hx hy
  refine (draws_bitmap hclip (wellFormed_encode hpacked hn hn' hm hspare) hx hy).congr ?_
  intro q _
  by_cases hq : q ∈ rect destX destY (destX + Extent.wanted n ⟨destX, sourceX, width⟩)
      (destY + Extent.wanted m ⟨destY, sourceY, height⟩) ∩ clip.area
  · have hrect := mem_rect.mp hq.1
    have hstopX := hx.stop
    have hstopY := hy.stop
    have hstartX := hx.start
    have hstartY := hy.start
    simp only at hstopX hstopY hstartX hstartY
    obtain ⟨x, hx⟩ := Int.eq_ofNat_of_zero_le (show 0 ≤ sourceX + q.1 - destX by omega)
    obtain ⟨y, hy⟩ := Int.eq_ofNat_of_zero_le (show 0 ≤ sourceY + q.2 - destY by omega)
    rw [within_of_mem hq, within_of_mem hq, hx, hy]
    exact hdecodes n m picture spare shade isTransparent x y (by omega) (by omega)
  · rw [within_of_notMem hq, within_of_notMem hq]

end Squash.Vfd
