import Squash.Vfd.Screen

/-!
# Lines along the axes, and rectangles

A span is drawn by bytes, two pixels at a time, with one pixel by itself where it starts or ends in the
middle of a byte. `draws_span` says that this is the span; vertical lines and solid rectangles are
spans below each other (`draws_down`).

The clipped functions cut the shape first, and draw what lies in the clip area. -/

namespace Squash.Vfd

open Picture

variable {buffer : Buffer} {x y : Int} {shade : Shade}

/-! ## Rectangles of points -/

variable {xLeft xRight yTop yBottom : Int}

theorem mem_rect {q : Point} : q ∈ rect xLeft yTop xRight yBottom ↔
    (xLeft ≤ q.1 ∧ q.1 < xRight) ∧ yTop ≤ q.2 ∧ q.2 < yBottom := Iff.rfl

theorem rect_empty (h : xRight ≤ xLeft ∨ yBottom ≤ yTop) : rect xLeft yTop xRight yBottom = ∅ := by
  ext q
  simp only [mem_rect, Set.mem_empty_iff_false, iff_false]
  omega

theorem singleton_eq_rect : ({(x, y)} : Set Point) = rect x y (x + 1) (y + 1) := by
  ext ⟨x', y'⟩
  simp only [Set.mem_singleton_iff, Prod.mk.injEq, mem_rect]
  omega

theorem rect_beside (xMiddle : Int) (h : xLeft ≤ xMiddle) (h' : xMiddle ≤ xRight) :
    rect xLeft yTop xMiddle yBottom ∪ rect xMiddle yTop xRight yBottom =
      rect xLeft yTop xRight yBottom := by
  ext q
  simp only [Set.mem_union, mem_rect]
  omega

theorem rect_below (yMiddle : Int) (h : yTop ≤ yMiddle) (h' : yMiddle ≤ yBottom) :
    rect xLeft yTop xRight yMiddle ∪ rect xLeft yMiddle xRight yBottom =
      rect xLeft yTop xRight yBottom := by
  ext q
  simp only [Set.mem_union, mem_rect]
  omega

/-! ## Spans -/

/-- The middle of a span, both pixels of each byte, and the pixel that is left over. -/
def drawMiddle (shade : Shade) : Nat → Buffer → Int → Option Buffer
  | n + 2, buffer, k => (putBoth buffer k shade).bind fun buffer => drawMiddle shade n buffer (k + 1)
  | 1, buffer, k => putLo buffer k shade
  | 0, buffer, _ => some buffer

/-- A span whose first pixel is in the byte at `k`. -/
def drawSpan (xLeft width : Int) (shade : Shade) (buffer : Buffer) (k : Int) : Option Buffer :=
  if xLeft % 2 = 1 then
    (putHi buffer k shade).bind fun buffer => drawMiddle shade (width - 1).toNat buffer (k + 1)
  else drawMiddle shade width.toNat buffer k

/-- The same at each row, from the row of the byte at `k` on. -/
def drawDown (draw : Buffer → Int → Option Buffer) : Nat → Buffer → Int → Option Buffer
  | 0, buffer, _ => some buffer
  | n + 1, buffer, k =>
    (draw buffer k).bind fun buffer => drawDown draw n buffer (k + vfdBytesPerScanline)

theorem draws_middle (n : Nat) (hx : x % 2 = 0) (hx0 : 0 ≤ x) (hxn : x + n ≤ 128)
    (hy : 0 ≤ y ∧ y < 32) :
    Draws screen (drawMiddle shade n buffer (byteOffset x y)) buffer
      (fill (rect x y (x + n) (y + 1)) shade) := by
  induction n using Nat.twoStepInduction generalizing x buffer with
  | zero =>
      rw [rect_empty (by omega)]
      exact .nothing
  | one =>
      show Draws screen (putLo buffer (byteOffset x y) shade) buffer _
      rw [Int.natCast_one, ← singleton_eq_rect]
      exact draws_putLo (mem_screen.mpr ⟨by omega, hy⟩) hx
  | more n ih =>
      have hpair : ({(x, y), (x + 1, y)} : Set Point) = rect x y (x + 2) (y + 1) := by
        ext ⟨x', y'⟩
        simp only [Set.mem_insert_iff, Set.mem_singleton_iff, Prod.mk.injEq, mem_rect]
        omega
      have hrect : rect x y (x + ↑(n + 2)) (y + 1) =
          {(x, y), (x + 1, y)} ∪ rect (x + 2) y (x + 2 + n) (y + 1) := by
        rw [hpair, rect_beside (x + 2) (by omega) (by omega)]
        congr 1
        omega
      have hnext : byteOffset x y + 1 = byteOffset (x + 2) y := by
        unfold byteOffset
        omega
      rw [hrect, drawMiddle, hnext]
      exact (draws_putBoth (mem_screen.mpr ⟨by omega, hy⟩) hx).union
        fun buffer => ih (by omega) (by omega) (by omega)

theorem draws_span {width : Int} (hwidth : 1 ≤ width) (hx : 0 ≤ xLeft) (hright : xLeft + width ≤ 128)
    (hy : 0 ≤ y ∧ y < 32) :
    Draws screen (drawSpan xLeft width shade buffer (byteOffset xLeft y)) buffer
      (fill (rect xLeft y (xLeft + width) (y + 1)) shade) := by
  unfold drawSpan
  split
  · next hodd =>
      have hnext : byteOffset xLeft y + 1 = byteOffset (xLeft + 1) y := by
        unfold byteOffset
        omega
      have hrest : xLeft + width = xLeft + 1 + (width - 1).toNat := by omega
      rw [hnext, ← rect_beside (xLeft + 1) (by omega) (by omega), ← singleton_eq_rect,
        hrest]
      exact (draws_putHi (mem_screen.mpr ⟨by omega, hy⟩) hodd).union
        fun buffer => draws_middle _ (by omega) (by omega) (by omega) hy
  · next heven =>
      have hrest : xLeft + width = xLeft + width.toNat := by omega
      rw [hrest]
      exact draws_middle _ (by omega) hx (by omega) hy

theorem draws_down {draw : Buffer → Int → Option Buffer} (n : Nat)
    (hdraw : ∀ y, yTop ≤ y → y < yTop + n → ∀ buffer,
      Draws screen (draw buffer (byteOffset x y)) buffer (fill (rect xLeft y xRight (y + 1)) shade)) :
    Draws screen (drawDown draw n buffer (byteOffset x yTop)) buffer
      (fill (rect xLeft yTop xRight (yTop + n)) shade) := by
  induction n generalizing yTop buffer with
  | zero =>
      rw [rect_empty (by omega)]
      exact .nothing
  | succ n ih =>
      have hnext : byteOffset x yTop + vfdBytesPerScanline = byteOffset x (yTop + 1) := by
        unfold byteOffset vfdBytesPerScanline
        omega
      have hrest : yTop + ↑(n + 1) = yTop + 1 + n := by omega
      rw [drawDown, hnext, ← rect_below (yTop + 1) (by omega) (by omega), hrest]
      exact (hdraw yTop (by omega) (by omega) buffer).union
        fun buffer => ih fun y hy hy' => hdraw y (by omega) (by omega)

/-! ## Unclipped -/

def vfdlibDrawLineHorizUnclipped (buffer : Buffer) (yPos xLeft length : Int) (shade : Shade) :
    Option Buffer :=
  if length < 1 then some buffer else drawSpan xLeft length shade buffer (byteOffset xLeft yPos)

def vfdlibDrawLineVertUnclipped (buffer : Buffer) (xPos yTop length : Int) (shade : Shade) :
    Option Buffer :=
  if length < 1 then some buffer
  else if xPos % 2 = 1 then
    drawDown (fun buffer k => putHi buffer k shade) length.toNat buffer (byteOffset xPos yTop)
  else drawDown (fun buffer k => putLo buffer k shade) length.toNat buffer (byteOffset xPos yTop)

/-- The rows are not tested for their width: the first pixel of a row is drawn also when there is none,
if it is the right one of its byte. -/
def vfdlibDrawSolidRectangleUnclipped (buffer : Buffer) (xLeft yTop xWidth yHeight : Int)
    (shade : Shade) : Option Buffer :=
  drawDown (drawSpan xLeft xWidth shade) yHeight.toNat buffer (byteOffset xLeft yTop)

def vfdlibDrawOutlineRectangleUnclipped (buffer : Buffer) (xLeft yTop xWidth yHeight : Int)
    (shade : Shade) : Option Buffer := do
  let buffer ← vfdlibDrawLineHorizUnclipped buffer yTop xLeft xWidth shade
  let buffer ← vfdlibDrawLineVertUnclipped buffer xLeft yTop yHeight shade
  let buffer ← vfdlibDrawLineHorizUnclipped buffer (yTop + yHeight - 1) xLeft xWidth shade
  vfdlibDrawLineVertUnclipped buffer (xLeft + xWidth - 1) yTop yHeight shade

theorem draws_horiz (hx : 0 ≤ xLeft) (hright : xRight ≤ 128) (hy : 0 ≤ y ∧ y < 32) :
    Draws screen (vfdlibDrawLineHorizUnclipped buffer y xLeft (xRight - xLeft) shade) buffer
      (fill (rect xLeft y xRight (y + 1)) shade) := by
  unfold vfdlibDrawLineHorizUnclipped
  split
  · rw [rect_empty (by omega)]
    exact .nothing
  · have hxRight : rect xLeft y xRight (y + 1) = rect xLeft y (xLeft + (xRight - xLeft)) (y + 1) := by
      rw [add_sub_cancel]
    rw [hxRight]
    exact draws_span (by omega) hx (by omega) hy

theorem draws_vert (hx : 0 ≤ x ∧ x < 128) (hy : 0 ≤ yTop) (hbottom : yBottom ≤ 32) :
    Draws screen (vfdlibDrawLineVertUnclipped buffer x yTop (yBottom - yTop) shade) buffer
      (fill (rect x yTop (x + 1) yBottom) shade) := by
  unfold vfdlibDrawLineVertUnclipped
  split
  · rw [rect_empty (by omega)]
    exact .nothing
  · next hlength =>
      have hrows : rect x yTop (x + 1) yBottom =
          rect x yTop (x + 1) (yTop + (yBottom - yTop).toNat) := by
        congr 1
        omega
      rw [hrows]
      split
      · next hodd =>
          refine draws_down _ fun y hy hy' buffer => ?_
          rw [← singleton_eq_rect]
          exact draws_putHi (mem_screen.mpr ⟨hx, by omega⟩) hodd
      · next heven =>
          refine draws_down _ fun y hy hy' buffer => ?_
          rw [← singleton_eq_rect]
          exact draws_putLo (mem_screen.mpr ⟨hx, by omega⟩) (by omega)

theorem draws_solidRectangle (hx : 0 ≤ xLeft) (hwidth : xLeft < xRight) (hright : xRight ≤ 128)
    (hy : 0 ≤ yTop) (hheight : yTop ≤ yBottom) (hbottom : yBottom ≤ 32) :
    Draws screen (vfdlibDrawSolidRectangleUnclipped buffer xLeft yTop (xRight - xLeft)
        (yBottom - yTop) shade) buffer
      (fill (rect xLeft yTop xRight yBottom) shade) := by
  have hrect : rect xLeft yTop xRight yBottom =
      rect xLeft yTop (xLeft + (xRight - xLeft)) (yTop + (yBottom - yTop).toNat) := by
    congr 1 <;> omega
  rw [hrect]
  exact draws_down _ fun y hy hy' buffer =>
    draws_span (by omega) hx (by omega) (by omega)

/-! ## The clip area -/

/-- `g_clipXLeft`, `g_clipYTop`, `g_clipXRight` and `g_clipYBottom`. -/
structure Clip where
  xLeft : Int
  yTop : Int
  xRight : Int
  yBottom : Int
  deriving DecidableEq, Repr

def Clip.area (clip : Clip) : Set Point := rect clip.xLeft clip.yTop clip.xRight clip.yBottom

/-- As the globals are at the start. -/
def Clip.initial : Clip := ⟨0, 0, vfdWidth, vfdHeight⟩

def vfdlibSetClipArea (clip : Clip) (xLeft yTop xRight yBottom : Int) : Clip :=
  if yTop > yBottom ∨ xLeft > xRight then clip
  else
    ⟨if xLeft < 0 then 0 else xLeft, if yTop < 0 then 0 else yTop,
      if xRight > vfdWidth then vfdWidth else xRight,
      if yBottom > vfdHeight then vfdHeight else yBottom⟩

/-- A clip area on the display, with a pixel in it. -/
structure Clip.Valid (clip : Clip) : Prop where
  left : 0 ≤ clip.xLeft
  top : 0 ≤ clip.yTop
  width : clip.xLeft < clip.xRight
  height : clip.yTop < clip.yBottom
  right : clip.xRight ≤ 128
  bottom : clip.yBottom ≤ 32

theorem Clip.valid_initial : Clip.initial.Valid := by
  constructor <;> decide

/-- The request is turned down, or has a pixel of the display. -/
def Reasonable (xLeft yTop xRight yBottom : Int) : Prop :=
  yTop > yBottom ∨ xLeft > xRight ∨ (rect xLeft yTop xRight yBottom ∩ screen.valid).Nonempty

theorem Clip.Valid.setClipArea {clip : Clip} (h : clip.Valid)
    (hreasonable : Reasonable xLeft yTop xRight yBottom) :
    (vfdlibSetClipArea clip xLeft yTop xRight yBottom).Valid := by
  unfold vfdlibSetClipArea vfdWidth vfdHeight
  split
  · exact h
  · next haccepted =>
      obtain hturned | hturned | ⟨q, hq, hscreen⟩ := hreasonable
      · omega
      · omega
      · have hscreen := mem_screen.mp hscreen
        have hq := mem_rect.mp hq
        constructor <;> simp only <;> split <;> (try split) <;> omega

theorem area_setClipArea {clip : Clip} (hx : xLeft ≤ xRight) (hy : yTop ≤ yBottom) :
    (vfdlibSetClipArea clip xLeft yTop xRight yBottom).area =
      rect xLeft yTop xRight yBottom ∩ screen.valid := by
  ext q
  rw [vfdlibSetClipArea, if_neg (by omega), Clip.area, Set.mem_inter_iff, mem_screen, mem_rect,
    mem_rect]
  unfold vfdWidth vfdHeight
  simp only
  split <;> split <;> split <;> split <;> omega

/-! ## Clipped -/

variable {clip : Clip}

def vfdlibClear (clip : Clip) (buffer : Buffer) (shade : Shade) : Option Buffer :=
  vfdlibDrawSolidRectangleUnclipped buffer clip.xLeft clip.yTop (clip.xRight - clip.xLeft)
    (clip.yBottom - clip.yTop) shade

def vfdlibDrawPointClipped (clip : Clip) (buffer : Buffer) (xPos yPos : Int) (shade : Shade) :
    Option Buffer :=
  if xPos ≥ clip.xLeft ∧ xPos < clip.xRight ∧ yPos ≥ clip.yTop ∧ yPos < clip.yBottom then
    vfdlibDrawPointUnclipped buffer xPos yPos shade
  else some buffer

def vfdlibDrawLineHorizClipped (clip : Clip) (buffer : Buffer) (yPos xLeft xRight : Int)
    (shade : Shade) : Option Buffer :=
  if xLeft < xRight ∧ xRight ≥ clip.xLeft ∧ xLeft < clip.xRight ∧
      yPos ≥ clip.yTop ∧ yPos < clip.yBottom then
    let left := if xLeft > clip.xLeft then xLeft else clip.xLeft
    vfdlibDrawLineHorizUnclipped buffer yPos left
      ((if xRight < clip.xRight then xRight else clip.xRight) - left) shade
  else some buffer

def vfdlibDrawLineVertClipped (clip : Clip) (buffer : Buffer) (xPos yTop yBottom : Int)
    (shade : Shade) : Option Buffer :=
  if yTop < yBottom ∧ xPos ≥ clip.xLeft ∧ xPos < clip.xRight ∧
      yBottom ≥ clip.yTop ∧ yTop < clip.yBottom then
    let top := if yTop > clip.yTop then yTop else clip.yTop
    vfdlibDrawLineVertUnclipped buffer xPos top
      ((if yBottom < clip.yBottom then yBottom else clip.yBottom) - top) shade
  else some buffer

def vfdlibDrawOutlineRectangleClipped (clip : Clip) (buffer : Buffer)
    (xLeft yTop xRight yBottom : Int) (shade : Shade) : Option Buffer := do
  let buffer ← vfdlibDrawLineHorizClipped clip buffer yTop xLeft xRight shade
  let buffer ← vfdlibDrawLineVertClipped clip buffer xLeft yTop yBottom shade
  let buffer ← vfdlibDrawLineHorizClipped clip buffer (yBottom - 1) xLeft xRight shade
  vfdlibDrawLineVertClipped clip buffer (xRight - 1) yTop yBottom shade

def vfdlibDrawSolidRectangleClipped (clip : Clip) (buffer : Buffer)
    (xLeft yTop xRight yBottom : Int) (shade : Shade) : Option Buffer :=
  let xLeft := if xLeft < clip.xLeft then clip.xLeft else xLeft
  let yTop := if yTop < clip.yTop then clip.yTop else yTop
  let xRight := if xRight > clip.xRight then clip.xRight else xRight
  let yBottom := if yBottom > clip.yBottom then clip.yBottom else yBottom
  let width := xRight - xLeft
  let height := yBottom - yTop
  if width < 1 ∨ height < 1 then some buffer
  else vfdlibDrawSolidRectangleUnclipped buffer xLeft yTop width height shade

theorem draws_clear (h : clip.Valid) :
    Draws screen (vfdlibClear clip buffer shade) buffer (fill clip.area shade) := by
  obtain ⟨hleft, htop, hwidth, hheight, hright, hbottom⟩ := h
  exact draws_solidRectangle hleft hwidth hright htop (Int.le_of_lt hheight) hbottom

theorem draws_pointClipped (h : clip.Valid) :
    Draws screen (vfdlibDrawPointClipped clip buffer x y shade) buffer
      (fill ({(x, y)} ∩ clip.area) shade) := by
  obtain ⟨hleft, htop, hwidth, hheight, hright, hbottom⟩ := h
  unfold vfdlibDrawPointClipped
  split
  · next hin =>
      have hmem : (x, y) ∈ clip.area := mem_rect.mpr ⟨⟨hin.1, hin.2.1⟩, hin.2.2⟩
      rw [Set.inter_eq_left.mpr (Set.singleton_subset_iff.mpr hmem)]
      exact draws_point (mem_screen.mpr ⟨by simp only; omega, by simp only; omega⟩)
  · next hout =>
      have hmem : (x, y) ∉ clip.area := fun hmem => hout ⟨hmem.1.1, hmem.1.2, hmem.2⟩
      rw [Set.singleton_inter_eq_empty.mpr hmem]
      exact .nothing

/-- What is cut to the clip area is a rectangle again. -/
theorem rect_inter_area : rect xLeft yTop xRight yBottom ∩ clip.area =
    rect (max xLeft clip.xLeft) (max yTop clip.yTop) (min xRight clip.xRight)
      (min yBottom clip.yBottom) := by
  ext q
  simp only [Clip.area, Set.mem_inter_iff, mem_rect]
  omega

theorem draws_horizClipped (h : clip.Valid) :
    Draws screen (vfdlibDrawLineHorizClipped clip buffer y xLeft xRight shade) buffer
      (fill (rect xLeft y xRight (y + 1) ∩ clip.area) shade) := by
  obtain ⟨hleft, htop, hwidth, hheight, hright, hbottom⟩ := h
  rw [rect_inter_area]
  unfold vfdlibDrawLineHorizClipped
  split
  · next hin =>
      have hmax : (if xLeft > clip.xLeft then xLeft else clip.xLeft) = max xLeft clip.xLeft := by
        omega
      have hmin : (if xRight < clip.xRight then xRight else clip.xRight) =
          min xRight clip.xRight := by omega
      have hy : max y clip.yTop = y ∧ min (y + 1) clip.yBottom = y + 1 := by omega
      simp only [hmax, hmin, hy]
      exact draws_horiz (by omega) (by omega) (by omega)
  · next hout =>
      rw [rect_empty (by omega)]
      exact .nothing

theorem draws_vertClipped (h : clip.Valid) :
    Draws screen (vfdlibDrawLineVertClipped clip buffer x yTop yBottom shade) buffer
      (fill (rect x yTop (x + 1) yBottom ∩ clip.area) shade) := by
  obtain ⟨hleft, htop, hwidth, hheight, hright, hbottom⟩ := h
  rw [rect_inter_area]
  unfold vfdlibDrawLineVertClipped
  split
  · next hin =>
      have hmax : (if yTop > clip.yTop then yTop else clip.yTop) = max yTop clip.yTop := by omega
      have hmin : (if yBottom < clip.yBottom then yBottom else clip.yBottom) =
          min yBottom clip.yBottom := by omega
      have hx : max x clip.xLeft = x ∧ min (x + 1) clip.xRight = x + 1 := by omega
      simp only [hmax, hmin, hx]
      exact draws_vert (by omega) (by omega) (by omega)
  · next hout =>
      rw [rect_empty (by omega)]
      exact .nothing

/-- The four sides of a rectangle. -/
def outline (xLeft yTop xRight yBottom : Int) : Set Point :=
  rect xLeft yTop xRight (yTop + 1) ∪ rect xLeft yTop (xLeft + 1) yBottom ∪
    rect xLeft (yBottom - 1) xRight yBottom ∪ rect (xRight - 1) yTop xRight yBottom

theorem draws_outlineClipped (h : clip.Valid) :
    Draws screen (vfdlibDrawOutlineRectangleClipped clip buffer xLeft yTop xRight yBottom shade)
      buffer (fill (outline xLeft yTop xRight yBottom ∩ clip.area) shade) := by
  have hbottom (buffer : Buffer) :
      Draws screen (vfdlibDrawLineHorizClipped clip buffer (yBottom - 1) xLeft xRight shade) buffer
        (fill (rect xLeft (yBottom - 1) xRight yBottom ∩ clip.area) shade) := by
    have hdraws : Draws screen (vfdlibDrawLineHorizClipped clip buffer (yBottom - 1) xLeft xRight shade)
        buffer (fill (rect xLeft (yBottom - 1) xRight (yBottom - 1 + 1) ∩ clip.area) shade) :=
      draws_horizClipped h
    rwa [Int.sub_add_cancel] at hdraws
  have hright (buffer : Buffer) :
      Draws screen (vfdlibDrawLineVertClipped clip buffer (xRight - 1) yTop yBottom shade) buffer
        (fill (rect (xRight - 1) yTop xRight yBottom ∩ clip.area) shade) := by
    have hdraws : Draws screen (vfdlibDrawLineVertClipped clip buffer (xRight - 1) yTop yBottom shade)
        buffer (fill (rect (xRight - 1) yTop (xRight - 1 + 1) yBottom ∩ clip.area) shade) :=
      draws_vertClipped h
    rwa [Int.sub_add_cancel] at hdraws
  simp only [outline, Set.union_inter_distrib_right, Set.union_assoc]
  exact (draws_horizClipped h).union fun _ => (draws_vertClipped h).union fun buffer =>
    (hbottom buffer).union hright

theorem draws_solidClipped (h : clip.Valid) :
    Draws screen (vfdlibDrawSolidRectangleClipped clip buffer xLeft yTop xRight yBottom shade) buffer
      (fill (rect xLeft yTop xRight yBottom ∩ clip.area) shade) := by
  obtain ⟨hleft, htop, hwidth, hheight, hright, hbottom⟩ := h
  have hxLeft : (if xLeft < clip.xLeft then clip.xLeft else xLeft) = max xLeft clip.xLeft := by omega
  have hyTop : (if yTop < clip.yTop then clip.yTop else yTop) = max yTop clip.yTop := by omega
  have hxRight : (if xRight > clip.xRight then clip.xRight else xRight) =
      min xRight clip.xRight := by omega
  have hyBottom : (if yBottom > clip.yBottom then clip.yBottom else yBottom) =
      min yBottom clip.yBottom := by omega
  rw [rect_inter_area]
  simp only [vfdlibDrawSolidRectangleClipped, hxLeft, hyTop, hxRight, hyBottom]
  split
  · rw [rect_empty (by omega)]
    exact .nothing
  · next hsize =>
      exact draws_solidRectangle (by omega) (by omega) (by omega) (by omega) (by omega) (by omega)

end Squash.Vfd
