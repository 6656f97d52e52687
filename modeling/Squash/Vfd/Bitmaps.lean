import Mathlib.Tactic.Ring
import Squash.Vfd.Rectangles

/-!
# Bitmaps

A bitmap has a header of 5 bytes, for its format, width and height, and rows of pixels that start at
whole bytes. There are 1, 2 or 4 bits for a pixel.

Each format is drawn by two loops that step through the bits of the bitmap and the pixels of the buffer
at the same time. They are one pair of loops (`drawRow`, `drawRows`) for a cursor in the bitmap, and
`draws_rows` says what it draws when the cursor gives the pixels of a picture. What is outside of the
clip area is cut off before (`draws_bitmap`). -/

namespace Squash.Vfd

open Picture

/-! ## Reading a bitmap -/

abbrev Bitmap := List (BitVec 8)

/-- `bitmap[k]`. -/
def Bitmap.byte (bitmap : Bitmap) (k : Int) : Option (BitVec 8) :=
  if 0 ≤ k then bitmap[k.toNat]? else none

/-- Two bytes of the header, the high one first. -/
def Bitmap.size (bitmap : Bitmap) (k : Int) : Option Int := do
  let hi ← bitmap.byte k
  let lo ← bitmap.byte (k + 1)
  return lo.toNat + hi.toNat * 256

/-! ## The destination -/

/-- `destY++`, from the start of a row. -/
def Dest.down (dest : Dest) : Dest := ⟨dest.offset + vfdBytesPerScanline, dest.pixelPos⟩

/-- A pixel that may be transparent. -/
def Dest.paint (dest : Dest) (buffer : Buffer) : Option Shade → Option Buffer
  | some shade => dest.put buffer shade
  | none => some buffer

variable {buffer : Buffer} {x y : Int} {shade : Shade}

@[simp] theorem Dest.down_at : (Dest.at x y).down = Dest.at x (y + 1) := by
  simp only [Dest.down, Dest.at, byteOffset, vfdBytesPerScanline, Dest.mk.injEq, and_true]
  omega

theorem draws_paint {layer : Point → Option Shade} (hq : (x, y) ∈ screen.valid) :
    Draws screen ((Dest.at x y).paint buffer (layer (x, y))) buffer (within {(x, y)} layer) := by
  cases hlayer : layer (x, y) with
  | none =>
      refine Draws.blank.congr ?_
      intro q _
      by_cases hmem : q ∈ ({(x, y)} : Set Point)
      · rw [within_of_mem hmem, Set.mem_singleton_iff.mp hmem, hlayer]
        rfl
      · exact (within_of_notMem hmem).symm
  | some shade =>
      refine (draws_put hq).congr ?_
      intro q _
      by_cases hmem : q ∈ ({(x, y)} : Set Point)
      · rw [fill_of_mem hmem, within_of_mem hmem, Set.mem_singleton_iff.mp hmem, hlayer]
      · rw [fill_of_notMem hmem, within_of_notMem hmem]

/-! ## The two loops -/

/-- A cursor in a bitmap: what it gives for the pixel it is at, and how it goes on in the row. Both may
read a byte that is not there. A pixel may be transparent. -/
structure Cursor (σ : Type) where
  paint : σ → Option (Option Shade)
  next : σ → Option σ

variable {σ : Type}

def drawRow (cursor : Cursor σ) : Nat → σ → Dest → Buffer → Option Buffer
  | 0, _, _, buffer => some buffer
  | widthLeft + 1, s, dest, buffer => do
    let buffer ← dest.paint buffer (← cursor.paint s)
    let s ← cursor.next s
    drawRow cursor widthLeft s dest.next buffer

/-- The rows, for a cursor that starts at `startBitmap` in the first one, and `bitmapScanlineSkip` bytes
further in each of the next. -/
def drawRows (cursor : Cursor σ) (start : Int → Option σ) (bitmapScanlineSkip : Int) (width : Nat) :
    Nat → Int → Dest → Buffer → Option Buffer
  | 0, _, _, buffer => some buffer
  | height + 1, startBitmap, dest, buffer => do
    let buffer ← drawRow cursor width (← start startBitmap) dest buffer
    drawRows cursor start bitmapScanlineSkip width height (startBitmap + bitmapScanlineSkip)
      dest.down buffer

variable {cursor : Cursor σ} {layer : Point → Option Shade}

theorem draws_row (at' : Nat → σ) (n : Nat) (hx : 0 ≤ x) (hxn : x + n ≤ 128) (hy : 0 ≤ y ∧ y < 32)
    (hcursor : ∀ i, i < n →
      cursor.paint (at' i) = some (layer (x + i, y)) ∧ cursor.next (at' i) = some (at' (i + 1))) :
    Draws screen (drawRow cursor n (at' 0) (Dest.at x y) buffer) buffer
      (within (rect x y (x + n) (y + 1)) layer) := by
  induction n generalizing x at' buffer with
  | zero =>
      rw [rect_empty (by omega)]
      exact .nothing
  | succ n ih =>
      obtain ⟨hpaint, hnext⟩ := hcursor 0 (Nat.succ_pos n)
      have hrest : x + ↑(n + 1) = x + 1 + n := by omega
      rw [← rect_beside (x + 1) (by omega) (by omega), ← singleton_eq_rect, hrest]
      rw [Int.natCast_zero, Int.add_zero] at hpaint
      simp only [drawRow, hpaint, Option.bind_eq_bind, Option.bind_some, hnext, Dest.next_at]
      refine (draws_paint (mem_screen.mpr ⟨by simp only; omega, hy⟩)).union fun buffer =>
        ih (fun i => at' (i + 1)) (by omega) (by omega) ?_
      intro i hi
      obtain ⟨hpaint, hnext⟩ := hcursor (i + 1) (by omega)
      refine ⟨?_, hnext⟩
      rw [hpaint, Int.natCast_succ, Int.add_assoc, Int.add_comm 1]

theorem draws_rows {start : Int → Option σ} {skip k : Int} {width : Nat} (at' : Nat → Nat → σ)
    (n : Nat) (hx : 0 ≤ x) (hright : x + width ≤ 128) (hy : 0 ≤ y) (hbottom : y + n ≤ 32)
    (hstart : ∀ j, j < n → start (k + skip * j) = some (at' j 0))
    (hcursor : ∀ j, j < n → ∀ i, i < width →
      cursor.paint (at' j i) = some (layer (x + i, y + j)) ∧
        cursor.next (at' j i) = some (at' j (i + 1))) :
    Draws screen (drawRows cursor start skip width n k (Dest.at x y) buffer) buffer
      (within (rect x y (x + width) (y + n)) layer) := by
  induction n generalizing y k at' buffer with
  | zero =>
      rw [rect_empty (by omega)]
      exact .nothing
  | succ n ih =>
      have hrest : y + ↑(n + 1) = y + 1 + n := by omega
      have hfirst : start k = some (at' 0 0) := by simpa using hstart 0 (Nat.succ_pos n)
      rw [← rect_below (y + 1) (by omega) (by omega), hrest]
      simp only [drawRows, hfirst, Option.bind_eq_bind, Option.bind_some, Dest.down_at]
      refine (draws_row _ width hx hright (by omega) ?_).union fun buffer =>
        ih (fun j => at' (j + 1)) (by omega) (by omega) ?_ ?_
      · intro i hi
        simpa using hcursor 0 (Nat.succ_pos n) i hi
      · intro j hj
        rw [← hstart (j + 1) (by omega), Int.natCast_succ, Int.mul_add, Int.mul_one, Int.add_assoc,
          Int.add_comm skip]
      · intro j hj i hi
        obtain ⟨hpaint, hnext⟩ := hcursor (j + 1) (by omega) i hi
        refine ⟨?_, hnext⟩
        rw [hpaint, Int.natCast_succ, Int.add_assoc, Int.add_comm 1]

/-- **A cursor that gives the pixels of a picture draws the picture**, if it is where it should be at the
start of each row. -/
theorem draws_source {start : Int → Option σ} (at' : Int → Int → σ)
    {pixel : Int → Int → Option Shade} {skip offset destX destY sourceX sourceY width height : Int}
    (hdestX : 0 ≤ destX ∧ destX + width ≤ 128) (hdestY : 0 ≤ destY ∧ destY + height ≤ 32)
    (hwidth : 0 < width) (hheight : 0 < height)
    (hstart : ∀ y, sourceY ≤ y → y < sourceY + height →
      start (y * skip + offset) = some (at' sourceX y))
    (hcursor : ∀ x y, sourceX ≤ x → x < sourceX + width → sourceY ≤ y → y < sourceY + height →
      cursor.paint (at' x y) = some (pixel x y) ∧ cursor.next (at' x y) = some (at' (x + 1) y)) :
    Draws screen (drawRows cursor start skip width.toNat height.toNat (sourceY * skip + offset)
        (Dest.at destX destY) buffer) buffer
      (within (rect destX destY (destX + width) (destY + height)) fun q =>
        pixel (sourceX + q.1 - destX) (sourceY + q.2 - destY)) := by
  have hw : destX + width = destX + width.toNat := by omega
  have hh : destY + height = destY + height.toNat := by omega
  rw [hw, hh]
  refine draws_rows (fun j i => at' (sourceX + i) (sourceY + j)) height.toNat hdestX.1
    (by omega) hdestY.1 (by omega) ?_ ?_
  · intro j hj
    rw [Int.natCast_zero, Int.add_zero, ← hstart (sourceY + j) (by omega) (by omega)]
    congr 1
    ring
  · intro j hj i hi
    obtain ⟨hpaint, hnext⟩ := hcursor (sourceX + i) (sourceY + j) (by omega) (by omega) (by omega)
      (by omega)
    refine ⟨?_, ?_⟩
    · rw [hpaint]
      congr 2 <;> simp only <;> omega
    · rw [hnext, Int.natCast_succ, Int.add_assoc]

/-! ## One bit for a pixel -/

def vfdshadeBright : Shade := 3

/-- The bytes behind the header, and 0 where there are none. -/
def Bitmap.at (data : Bitmap) (k : Int) : BitVec 8 := data[k.toNat]?.getD 0

theorem Bitmap.byte_eq {data : Bitmap} {k : Int} (h : 0 ≤ k) (h' : k < data.length) :
    data.byte k = some (data.at k) := by
  rw [Bitmap.byte, if_pos h, Bitmap.at, List.getElem?_eq_getElem (by omega)]
  rfl

/-- The cursor is `bitmap` and `bitmask`. -/
def cursor1BPP (data : Bitmap) (shade : Shade) (isTransparent : Bool) :
    Cursor (Int × BitVec 8) where
  paint s := do
    let b ← data.byte s.1
    return if b &&& s.2 ≠ 0 then some shade else if isTransparent then none else some 0
  next s := some (if s.2 >>> 1 = 0 then (s.1 + 1, 0x80#8) else (s.1, s.2 >>> 1))

def drawBitmap1BPP (buffer : Buffer) (data : Bitmap)
    (bitmapWidth destX destY sourceX sourceY width height : Int) (shade : Option Shade)
    (isTransparent : Bool) : Option Buffer :=
  let bitmapScanlineSkip := (bitmapWidth - 1) / 8 + 1
  drawRows (cursor1BPP data (shade.getD vfdshadeBright) isTransparent)
    (fun startBitmap => some (startBitmap, 0x80#8 >>> (sourceX % 8).toNat)) bitmapScanlineSkip
    width.toNat height.toNat (sourceY * bitmapScanlineSkip + sourceX / 8) (Dest.at destX destY) buffer

/-- The bit for the pixel at `x`, `y`: the highest bit of a byte is the leftmost pixel. -/
def bit1BPP (data : Bitmap) (bitmapWidth x y : Int) : Bool :=
  (data.at (y * ((bitmapWidth - 1) / 8 + 1) + x / 8)).getLsbD (7 - (x % 8).toNat)

/-- The pixel at `x`, `y`, as it is to be drawn. -/
def pixel1BPP (data : Bitmap) (bitmapWidth : Int) (shade : Option Shade) (isTransparent : Bool)
    (x y : Int) : Option Shade :=
  if bit1BPP data bitmapWidth x y then some (shade.getD vfdshadeBright)
  else if isTransparent then none else some 0

theorem bitmask_eq {i : Nat} (hi : i < 8) (b : BitVec 8) :
    (b &&& (0x80#8 >>> i) ≠ 0) = (b.getLsbD (7 - i) = true) := by
  have hmask : 0x80#8 >>> i = BitVec.twoPow 8 (7 - i) := by
    interval_cases i <;> rfl
  have hne : BitVec.twoPow 8 (7 - i) ≠ 0#8 := by
    interval_cases i <;> decide
  rw [hmask, BitVec.and_twoPow]
  split
  · next h => simp [h, hne]
  · next h => simp [h]

theorem bitmask_next {i : Nat} (hi : i < 8) :
    if i = 7 then (0x80#8 >>> i) >>> 1 = 0
    else (0x80#8 >>> i) >>> 1 ≠ 0 ∧ (0x80#8 >>> i) >>> 1 = 0x80#8 >>> (i + 1) := by
  interval_cases i <;> decide

/-- The cursor at the pixel `x`, `y`. -/
def at1BPP (skip x y : Int) : Int × BitVec 8 := (y * skip + x / 8, 0x80#8 >>> (x % 8).toNat)

theorem next_at1BPP {data : Bitmap} {shade : Shade} {isTransparent : Bool} {skip x y : Int} :
    (cursor1BPP data shade isTransparent).next (at1BPP skip x y) = some (at1BPP skip (x + 1) y) := by
  have hmask := bitmask_next (i := (x % 8).toNat) (by omega)
  show some (if (0x80#8 >>> (x % 8).toNat) >>> 1 = 0 then (y * skip + x / 8 + 1, 0x80#8)
    else (y * skip + x / 8, (0x80#8 >>> (x % 8).toNat) >>> 1)) = _
  split at hmask
  · next hlast =>
      have hfirst : (x + 1) % 8 = 0 := by omega
      rw [if_pos hmask, at1BPP, hfirst, Int.add_assoc]
      congr 3
      omega
  · next hinner =>
      have hstep : ((x + 1) % 8).toNat = (x % 8).toNat + 1 := by omega
      rw [if_neg hmask.1, hmask.2, at1BPP, hstep]
      congr 3
      omega

/-- The bytes of a row are between those of the row before it and those of the next. -/
theorem row_bounds {skip k y : Int} {data : Bitmap} (rows : Int) (hskip : 0 ≤ skip) (hy : 0 ≤ y)
    (hrows : y + 1 ≤ rows) (hdata : rows * skip ≤ data.length) (hk : 0 ≤ k) (hk' : k < skip) :
    0 ≤ y * skip + k ∧ y * skip + k < data.length := by
  have hlow : 0 ≤ y * skip := Int.mul_nonneg hy hskip
  have hhigh : (y + 1) * skip ≤ rows * skip := Int.mul_le_mul_of_nonneg_right hrows hskip
  rw [Int.add_mul, Int.one_mul] at hhigh
  omega

theorem paint_at1BPP {data : Bitmap} {shade : Option Shade} {isTransparent : Bool}
    {bitmapWidth x y : Int} (rows : Int) (hx : 0 ≤ x) (hwidth : x < bitmapWidth) (hy : 0 ≤ y)
    (hrows : y + 1 ≤ rows) (hdata : rows * ((bitmapWidth - 1) / 8 + 1) ≤ data.length) :
    (cursor1BPP data (shade.getD vfdshadeBright) isTransparent).paint
        (at1BPP ((bitmapWidth - 1) / 8 + 1) x y) =
      some (pixel1BPP data bitmapWidth shade isTransparent x y) := by
  obtain ⟨hlow, hhigh⟩ := row_bounds (k := x / 8) rows (by omega) hy hrows hdata (by omega) (by omega)
  simp only [cursor1BPP, at1BPP, pixel1BPP, bit1BPP, Bitmap.byte_eq hlow hhigh, Option.bind_eq_bind,
    Option.bind_some, bitmask_eq (i := (x % 8).toNat) (by omega)]
  rfl

theorem draws_1BPP {buffer : Buffer} {data : Bitmap} {shade : Option Shade} {isTransparent : Bool}
    {bitmapWidth bitmapHeight destX destY sourceX sourceY width height : Int}
    (hdata : bitmapHeight * ((bitmapWidth - 1) / 8 + 1) ≤ data.length)
    (hsourceX : 0 ≤ sourceX ∧ sourceX + width ≤ bitmapWidth)
    (hsourceY : 0 ≤ sourceY ∧ sourceY + height ≤ bitmapHeight)
    (hdestX : 0 ≤ destX ∧ destX + width ≤ 128) (hdestY : 0 ≤ destY ∧ destY + height ≤ 32)
    (hwidth : 0 < width) (hheight : 0 < height) :
    Draws screen (drawBitmap1BPP buffer data bitmapWidth destX destY sourceX sourceY width height
        shade isTransparent) buffer
      (within (rect destX destY (destX + width) (destY + height)) fun q =>
        pixel1BPP data bitmapWidth shade isTransparent (sourceX + q.1 - destX)
          (sourceY + q.2 - destY)) := by
  refine draws_source (at1BPP ((bitmapWidth - 1) / 8 + 1)) hdestX hdestY hwidth hheight
    (fun y _ _ => rfl) ?_
  intro x y hx hx' hy hy'
  exact ⟨paint_at1BPP bitmapHeight (by omega) (by omega) (by omega) (by omega) hdata,
    next_at1BPP⟩

/-! ## Two bits for a pixel -/

/-- The cursor is `bitmap`, `bitmapShift` and `currentBitmap`. At the end of a byte it reads the next
one at once, whether or not there is another pixel. -/
def cursor2BPP (data : Bitmap) (shade : Option Shade) (isTransparent : Bool) :
    Cursor (Int × Nat × BitVec 8) where
  paint s :=
    let currentShade := s.2.2 &&& 3
    some (if currentShade ≠ 0 ∨ !isTransparent then some (shade.getD (currentShade.setWidth 4))
      else none)
  next s :=
    if s.2.1 + 2 > 6 then (data.byte (s.1 + 1)).map fun b => (s.1 + 1, 0, b)
    else some (s.1, s.2.1 + 2, s.2.2 >>> 2)

def drawBitmap2BPP (buffer : Buffer) (data : Bitmap)
    (bitmapWidth destX destY sourceX sourceY width height : Int) (shade : Option Shade)
    (isTransparent : Bool) : Option Buffer :=
  let bitmapScanlineSkip := (bitmapWidth - 1) / 4 + 1
  let bitmapShift := 2 * (sourceX % 4).toNat
  drawRows (cursor2BPP data shade isTransparent)
    (fun startBitmap => (data.byte startBitmap).map fun b : BitVec 8 =>
      (startBitmap, bitmapShift, b >>> bitmapShift))
    bitmapScanlineSkip width.toNat height.toNat (sourceY * bitmapScanlineSkip + sourceX / 4)
    (Dest.at destX destY) buffer

/-- The lowest pair of bits of a byte is the leftmost pixel. -/
def pixel2BPP (data : Bitmap) (bitmapWidth : Int) (shade : Option Shade) (isTransparent : Bool)
    (x y : Int) : Option Shade :=
  let pair := (data.at (y * ((bitmapWidth - 1) / 4 + 1) + x / 4) >>> (2 * (x % 4).toNat)) &&& 3
  if pair ≠ 0 ∨ !isTransparent then some (shade.getD (pair.setWidth 4)) else none

def at2BPP (data : Bitmap) (skip x y : Int) : Int × Nat × BitVec 8 :=
  (y * skip + x / 4, 2 * (x % 4).toNat, data.at (y * skip + x / 4) >>> (2 * (x % 4).toNat))

theorem next_at2BPP {data : Bitmap} {shade : Option Shade} {isTransparent : Bool} {skip x y : Int}
    (hlast : (x + 1) % 4 = 0 →
      0 ≤ y * skip + (x + 1) / 4 ∧ y * skip + (x + 1) / 4 < data.length) :
    (cursor2BPP data shade isTransparent).next (at2BPP data skip x y) =
      some (at2BPP data skip (x + 1) y) := by
  show (if 2 * (x % 4).toNat + 2 > 6 then
      (data.byte (y * skip + x / 4 + 1)).map fun b => (y * skip + x / 4 + 1, 0, b)
    else some (y * skip + x / 4, 2 * (x % 4).toNat + 2,
      (data.at (y * skip + x / 4) >>> (2 * (x % 4).toNat)) >>> 2)) = _
  split
  · next hend =>
      have hfirst : (x + 1) % 4 = 0 := by omega
      have hindex : y * skip + x / 4 + 1 = y * skip + (x + 1) / 4 := by omega
      obtain ⟨hlow, hhigh⟩ := hlast hfirst
      rw [hindex, Bitmap.byte_eq hlow hhigh, at2BPP, hfirst]
      rfl
  · next hinner =>
      have hindex : x / 4 = (x + 1) / 4 := by omega
      have hshift : 2 * (x % 4).toNat + 2 = 2 * ((x + 1) % 4).toNat := by omega
      rw [← BitVec.shiftRight_add, hshift, hindex, at2BPP]

theorem draws_2BPP {buffer : Buffer} {data : Bitmap} {shade : Option Shade} {isTransparent : Bool}
    {bitmapWidth bitmapHeight destX destY sourceX sourceY width height : Int}
    (hdata : bitmapHeight * ((bitmapWidth - 1) / 4 + 1) ≤ data.length)
    (hspare : bitmapWidth % 4 = 0 → bitmapHeight * ((bitmapWidth - 1) / 4 + 1) < data.length)
    (hsourceX : 0 ≤ sourceX ∧ sourceX + width ≤ bitmapWidth)
    (hsourceY : 0 ≤ sourceY ∧ sourceY + height ≤ bitmapHeight)
    (hdestX : 0 ≤ destX ∧ destX + width ≤ 128) (hdestY : 0 ≤ destY ∧ destY + height ≤ 32)
    (hwidth : 0 < width) (hheight : 0 < height) :
    Draws screen (drawBitmap2BPP buffer data bitmapWidth destX destY sourceX sourceY width height
        shade isTransparent) buffer
      (within (rect destX destY (destX + width) (destY + height)) fun q =>
        pixel2BPP data bitmapWidth shade isTransparent (sourceX + q.1 - destX)
          (sourceY + q.2 - destY)) := by
  refine draws_source (at2BPP data ((bitmapWidth - 1) / 4 + 1)) hdestX hdestY hwidth hheight
    ?_ ?_
  · intro y hy hy'
    obtain ⟨hlow, hhigh⟩ := row_bounds (k := sourceX / 4) (y := y) bitmapHeight
      (by omega) (by omega) (by omega) hdata (by omega) (by omega)
    rw [Bitmap.byte_eq hlow hhigh]
    rfl
  · intro x y hx hx' hy hy'
    refine ⟨rfl, next_at2BPP fun hfirst => ?_⟩
    by_cases hinner : x + 1 < bitmapWidth
    · exact row_bounds bitmapHeight (by omega) (by omega) (by omega) hdata (by omega) (by omega)
    · -- the byte behind the row
      have hspare := hspare (by omega)
      have hrow : (x + 1) / 4 = (bitmapWidth - 1) / 4 + 1 := by omega
      have hrows : (y + 1) * ((bitmapWidth - 1) / 4 + 1) ≤
          bitmapHeight * ((bitmapWidth - 1) / 4 + 1) :=
        Int.mul_le_mul_of_nonneg_right (by omega) (by omega)
      have hlow : 0 ≤ y * ((bitmapWidth - 1) / 4 + 1) := Int.mul_nonneg (by omega) (by omega)
      rw [Int.add_mul, Int.one_mul] at hrows
      rw [hrow]
      omega

/-! ## Four bits for a pixel -/

/-- The cursor is `bitmap` and `pixelSourcePos`. -/
def cursor4BPP (data : Bitmap) (shade : Option Shade) (isTransparent : Bool) :
    Cursor (Int × Int) where
  paint s := do
    let b ← data.byte s.1
    let currentShade := if s.2 = 0 then b &&& 0x03 else (b >>> 4) &&& 0x03
    let currentTrans := if s.2 = 0 then b &&& 0x0C else b &&& 0xC0
    return if isTransparent then
      if currentTrans = 0 then some (shade.getD (currentShade.setWidth 4)) else none
    -- `shade` is not looked at
    else some (currentShade.setWidth 4)
  next s := some (if s.2 + 1 > 1 then (s.1 + 1, 0) else (s.1, s.2 + 1))

def drawBitmap4BPP (buffer : Buffer) (data : Bitmap)
    (bitmapWidth destX destY sourceX sourceY width height : Int) (shade : Option Shade)
    (isTransparent : Bool) : Option Buffer :=
  let bitmapScanlineSkip := (bitmapWidth - 1) / 2 + 1
  drawRows (cursor4BPP data shade isTransparent)
    (fun startBitmap => some (startBitmap, sourceX % 2)) bitmapScanlineSkip width.toNat height.toNat
    (sourceY * bitmapScanlineSkip + sourceX / 2) (Dest.at destX destY) buffer

/-- The low nybble of a byte is the pixel on the left; its high bits say that it is transparent. -/
def pixel4BPP (data : Bitmap) (bitmapWidth : Int) (shade : Option Shade) (isTransparent : Bool)
    (x y : Int) : Option Shade :=
  let nyb := nybble x (data.at (y * ((bitmapWidth - 1) / 2 + 1) + x / 2))
  if isTransparent then if nyb &&& 0xC = 0 then some (shade.getD (nyb &&& 0x3)) else none
  else some (nyb &&& 0x3)

def at4BPP (skip x y : Int) : Int × Int := (y * skip + x / 2, x % 2)

theorem next_at4BPP {data : Bitmap} {shade : Option Shade} {isTransparent : Bool} {skip x y : Int} :
    (cursor4BPP data shade isTransparent).next (at4BPP skip x y) = some (at4BPP skip (x + 1) y) := by
  show some (if x % 2 + 1 > 1 then (y * skip + x / 2 + 1, (0 : Int))
    else (y * skip + x / 2, x % 2 + 1)) = some (y * skip + (x + 1) / 2, (x + 1) % 2)
  obtain heven | hodd := Int.emod_two_eq x
  · rw [if_neg (by omega)]
    congr 2 <;> omega
  · rw [if_pos (by omega)]
    congr 2 <;> omega

theorem shade_nybble (x : Int) (b : BitVec 8) :
    (if x % 2 = 0 then b &&& 0x03 else (b >>> 4) &&& 0x03).setWidth 4 = nybble x b &&& 0x3 := by
  unfold nybble
  split
  · ext i hi
    interval_cases i <;> simp [loNybble]
  · ext i hi
    interval_cases i <;> simp [hiNybble]

theorem trans_nybble (x : Int) (b : BitVec 8) :
    (if x % 2 = 0 then b &&& 0x0C else b &&& 0xC0) = 0 ↔ nybble x b &&& 0xC = 0 := by
  unfold nybble
  split
  · revert b
    decide +kernel
  · revert b
    decide +kernel

theorem paint_at4BPP {data : Bitmap} {shade : Option Shade} {isTransparent : Bool}
    {bitmapWidth x y : Int} (rows : Int) (hx : 0 ≤ x) (hwidth : x < bitmapWidth) (hy : 0 ≤ y)
    (hrows : y + 1 ≤ rows) (hdata : rows * ((bitmapWidth - 1) / 2 + 1) ≤ data.length) :
    (cursor4BPP data shade isTransparent).paint (at4BPP ((bitmapWidth - 1) / 2 + 1) x y) =
      some (pixel4BPP data bitmapWidth shade isTransparent x y) := by
  obtain ⟨hlow, hhigh⟩ := row_bounds (k := x / 2) rows (by omega) hy hrows hdata (by omega) (by omega)
  simp only [cursor4BPP, at4BPP, pixel4BPP, Bitmap.byte_eq hlow hhigh, Option.bind_eq_bind,
    Option.bind_some, shade_nybble, trans_nybble]
  rfl

theorem draws_4BPP {buffer : Buffer} {data : Bitmap} {shade : Option Shade} {isTransparent : Bool}
    {bitmapWidth bitmapHeight destX destY sourceX sourceY width height : Int}
    (hdata : bitmapHeight * ((bitmapWidth - 1) / 2 + 1) ≤ data.length)
    (hsourceX : 0 ≤ sourceX ∧ sourceX + width ≤ bitmapWidth)
    (hsourceY : 0 ≤ sourceY ∧ sourceY + height ≤ bitmapHeight)
    (hdestX : 0 ≤ destX ∧ destX + width ≤ 128) (hdestY : 0 ≤ destY ∧ destY + height ≤ 32)
    (hwidth : 0 < width) (hheight : 0 < height) :
    Draws screen (drawBitmap4BPP buffer data bitmapWidth destX destY sourceX sourceY width height
        shade isTransparent) buffer
      (within (rect destX destY (destX + width) (destY + height)) fun q =>
        pixel4BPP data bitmapWidth shade isTransparent (sourceX + q.1 - destX)
          (sourceY + q.2 - destY)) := by
  refine draws_source (at4BPP ((bitmapWidth - 1) / 2 + 1)) hdestX hdestY hwidth hheight
    (fun y _ _ => rfl) ?_
  intro x y hx hx' hy hy'
  exact ⟨paint_at4BPP bitmapHeight (by omega) (by omega) (by omega) (by omega) hdata,
    next_at4BPP⟩

/-! ## Clipping -/

/-- What is to be copied along one axis: `destX`, `sourceX` and `width`, or those of the other one. -/
structure Extent where
  dest : Int
  source : Int
  size : Int
  deriving DecidableEq, Repr

/-- The clipping along one axis: on the left, then on the right. -/
def Extent.clip (low high bitmapSize : Int) (e : Extent) : Extent :=
  let size := if e.size < 1 then bitmapSize else e.size
  let e : Extent :=
    if e.dest < low then ⟨low, e.source + (low - e.dest), size - (low - e.dest)⟩
    else ⟨e.dest, e.source, size⟩
  let size := if e.size > bitmapSize then bitmapSize else e.size
  ⟨e.dest, e.source, if e.dest + size > high then high - e.dest else size⟩

/-- The size that is asked for. -/
def Extent.wanted (bitmapSize : Int) (e : Extent) : Int := if e.size < 1 then bitmapSize else e.size

theorem Extent.clip_spec (low high : Int) {bitmapSize : Int} {e : Extent}
    (h : e.wanted bitmapSize ≤ bitmapSize) :
    (e.clip low high bitmapSize).dest = max e.dest low ∧
      (e.clip low high bitmapSize).source - (e.clip low high bitmapSize).dest = e.source - e.dest ∧
      (e.clip low high bitmapSize).dest + (e.clip low high bitmapSize).size =
        min (e.dest + e.wanted bitmapSize) high := by
  obtain ⟨dest, source, size⟩ := e
  simp only [Extent.wanted] at h
  simp only [Extent.clip, Extent.wanted]
  generalize (if size < 1 then bitmapSize else size) = wanted at *
  by_cases hlow : dest < low
  · have hsize : ¬ wanted - (low - dest) > bitmapSize := by omega
    simp only [if_pos hlow, if_neg hsize]
    omega
  · have hsize : ¬ wanted > bitmapSize := by omega
    simp only [if_neg hlow, if_neg hsize, true_and]
    omega

def bitmap1BPP : BitVec 8 := 0

def bitmap2BPP : BitVec 8 := 1

def bitmap4BPP : BitVec 8 := 2

def vfdlibDrawBitmap (clip : Clip) (buffer : Buffer) (bitmap : Bitmap)
    (destX destY sourceX sourceY width height : Int) (shade : Option Shade) (isTransparent : Bool) :
    Option Buffer := do
  let bitmapWidth ← bitmap.size 1
  let bitmapHeight ← bitmap.size 3
  let h := Extent.clip clip.xLeft clip.xRight bitmapWidth ⟨destX, sourceX, width⟩
  let v := Extent.clip clip.yTop clip.yBottom bitmapHeight ⟨destY, sourceY, height⟩
  if h.size > 0 ∧ v.size > 0 then
    let format ← bitmap.byte 0
    let data := bitmap.drop 5
    if format = bitmap1BPP then
      drawBitmap1BPP buffer data bitmapWidth h.dest v.dest h.source v.source h.size v.size shade
        isTransparent
    else if format = bitmap2BPP then
      drawBitmap2BPP buffer data bitmapWidth h.dest v.dest h.source v.source h.size v.size shade
        isTransparent
    else if format = bitmap4BPP then
      drawBitmap4BPP buffer data bitmapWidth h.dest v.dest h.source v.source h.size v.size shade
        isTransparent
    else some buffer
  else some buffer

/-- A bitmap as its header describes it. -/
structure Bitmap.WellFormed (bitmap : Bitmap) (format : BitVec 8) (width height : Int) : Prop where
  format_eq : bitmap.byte 0 = some format
  width_eq : bitmap.size 1 = some width
  height_eq : bitmap.size 3 = some height
  rows1BPP : format = bitmap1BPP → height * ((width - 1) / 8 + 1) ≤ (bitmap.drop 5).length
  rows2BPP : format = bitmap2BPP → height * ((width - 1) / 4 + 1) ≤ (bitmap.drop 5).length
  /-- when the last pixel of a row is the last one of its byte, a byte more is read -/
  spare2BPP : format = bitmap2BPP → width % 4 = 0 →
    height * ((width - 1) / 4 + 1) < (bitmap.drop 5).length
  rows4BPP : format = bitmap4BPP → height * ((width - 1) / 2 + 1) ≤ (bitmap.drop 5).length

/-- The pixel at `x`, `y` of a bitmap, as it is to be drawn. -/
def Bitmap.pixel (bitmap : Bitmap) (format : BitVec 8) (width : Int) (shade : Option Shade)
    (isTransparent : Bool) (x y : Int) : Option Shade :=
  if format = bitmap1BPP then pixel1BPP (bitmap.drop 5) width shade isTransparent x y
  else if format = bitmap2BPP then pixel2BPP (bitmap.drop 5) width shade isTransparent x y
  else if format = bitmap4BPP then pixel4BPP (bitmap.drop 5) width shade isTransparent x y
  else none

/-- What is copied lies in the bitmap, in both directions. -/
structure Extent.Inside (bitmapSize : Int) (e : Extent) : Prop where
  start : 0 ≤ e.source
  stop : e.source + e.wanted bitmapSize ≤ bitmapSize

variable {clip : Clip} {bitmap : Bitmap} {format : BitVec 8} {bitmapWidth bitmapHeight : Int}
  {shade : Option Shade} {isTransparent : Bool} {buffer : Buffer}
  {destX destY sourceX sourceY width height : Int}

theorem draws_bitmap (hclip : clip.Valid)
    (hbitmap : bitmap.WellFormed format bitmapWidth bitmapHeight)
    (hx : Extent.Inside bitmapWidth ⟨destX, sourceX, width⟩)
    (hy : Extent.Inside bitmapHeight ⟨destY, sourceY, height⟩) :
    Draws screen (vfdlibDrawBitmap clip buffer bitmap destX destY sourceX sourceY width height shade
        isTransparent) buffer
      (within (rect destX destY (destX + Extent.wanted bitmapWidth ⟨destX, sourceX, width⟩)
          (destY + Extent.wanted bitmapHeight ⟨destY, sourceY, height⟩) ∩ clip.area) fun q =>
        bitmap.pixel format bitmapWidth shade isTransparent (sourceX + q.1 - destX)
          (sourceY + q.2 - destY)) := by
  obtain ⟨hformat, hwidth, hheight, hrows1, hrows2, hspare, hrows4⟩ := hbitmap
  obtain ⟨hclipLeft, hclipTop, hclipWidth, hclipHeight, hclipRight, hclipBottom⟩ := hclip
  obtain ⟨hx0, hx1⟩ := hx
  obtain ⟨hy0, hy1⟩ := hy
  obtain ⟨hdestX, hsourceX, hright⟩ := Extent.clip_spec clip.xLeft clip.xRight
    (show Extent.wanted bitmapWidth ⟨destX, sourceX, width⟩ ≤ bitmapWidth by omega)
  obtain ⟨hdestY, hsourceY, hbottom⟩ := Extent.clip_spec clip.yTop clip.yBottom
    (show Extent.wanted bitmapHeight ⟨destY, sourceY, height⟩ ≤ bitmapHeight by omega)
  simp only [vfdlibDrawBitmap, hwidth, hheight, hformat, Option.bind_eq_bind, Option.bind_some]
  generalize Extent.wanted bitmapWidth ⟨destX, sourceX, width⟩ = wantedWidth at *
  generalize Extent.wanted bitmapHeight ⟨destY, sourceY, height⟩ = wantedHeight at *
  generalize Extent.clip clip.xLeft clip.xRight bitmapWidth ⟨destX, sourceX, width⟩ = h at *
  generalize Extent.clip clip.yTop clip.yBottom bitmapHeight ⟨destY, sourceY, height⟩ = v at *
  simp only at hx0 hx1 hy0 hy1 hdestX hdestY hsourceX hsourceY hright hbottom
  rw [rect_inter_area, ← hright, ← hbottom, ← hdestX, ← hdestY]
  split
  · next hsize =>
      -- the pixels are those of the cut rectangle, counted from where it starts
      have hpixel : (fun q : Point => bitmap.pixel format bitmapWidth shade isTransparent
            (sourceX + q.1 - destX) (sourceY + q.2 - destY)) =
          fun q : Point => bitmap.pixel format bitmapWidth shade isTransparent
            (h.source + q.1 - h.dest) (v.source + q.2 - v.dest) := by
        funext q
        congr 1 <;> omega
      have hsourceX : 0 ≤ h.source ∧ h.source + h.size ≤ bitmapWidth := by omega
      have hsourceY : 0 ≤ v.source ∧ v.source + v.size ≤ bitmapHeight := by omega
      have hdestX : 0 ≤ h.dest ∧ h.dest + h.size ≤ 128 := by omega
      have hdestY : 0 ≤ v.dest ∧ v.dest + v.size ≤ 32 := by omega
      rw [hpixel]
      simp only [Bitmap.pixel]
      split
      · next hkind =>
          exact draws_1BPP (hrows1 hkind) hsourceX hsourceY hdestX hdestY hsize.1 hsize.2
      · split
        · next hkind =>
            exact draws_2BPP (hrows2 hkind) (hspare hkind) hsourceX hsourceY hdestX hdestY hsize.1
              hsize.2
        · split
          · next hkind =>
              exact draws_4BPP (hrows4 hkind) hsourceX hsourceY hdestX hdestY hsize.1 hsize.2
          · refine Draws.blank.congr fun q _ => ?_
            by_cases hq : q ∈ rect h.dest v.dest (h.dest + h.size) (v.dest + v.size)
            · rw [within_of_mem hq]
              rfl
            · rw [within_of_notMem hq]
              rfl
  · rw [rect_empty (by omega)]
    exact .nothing

end Squash.Vfd
