import Mathlib.Algebra.Order.Ring.Abs
import Mathlib.Data.Set.Image
import Squash.Foundations.DigitalLine
import Squash.Vfd.Rectangles

/-!
# Lines

A line goes from left to right, and by the axis along which it is longer (`hmax` and `vmax` in the names).
`line` is the shape that it is to have: the points nearest to the exact line.

The loops do not see the shape. They have a decision variable, and the place of the pixel in the buffer;
the one along the x-axis holds a byte back until it is known whether both of its pixels are drawn.
`draws_hmax` and `draws_vmax` say that they draw what is left of the line, whatever has been drawn before. -/

namespace Squash.Vfd

open Picture DigitalLine

/-! ## The shape -/

/-- `1` for a line that goes down. -/
def rise (dy : Int) : Int := if dy > 0 then 1 else -1

/-- The point after `p.1` steps along the x-axis, `p.2` above or below the start. -/
def alongX (x y dy : Int) (p : Int × Int) : Point := (x + p.1, y + rise dy * p.2)

def alongY (x y dy : Int) (p : Int × Int) : Point := (x + p.2, y + rise dy * p.1)

/-- A line that does not go to the left. -/
def lineRight (x y dx dy : Int) : Set Point :=
  if dx > |dy| then alongX x y dy '' track dx |dy| else alongY x y dy '' track |dy| dx

/-- The line between two points. -/
def line (x0 y0 x1 y1 : Int) : Set Point :=
  if x1 - x0 < 0 then lineRight x1 y1 (x0 - x1) (y0 - y1) else lineRight x0 y0 (x1 - x0) (y1 - y0)

/-! ## The loops -/

/-- What the loop along the x-axis knows of the byte that it is at. -/
structure Pen where
  offset : Int
  pixelPos : Int
  loPixel : Bool
  hiPixel : Bool
  deriving DecidableEq, Repr

/-- With the initial pixel. -/
def Pen.initial (x0 y0 : Int) : Pen :=
  ⟨byteOffset x0 y0, x0 % 2, decide (x0 % 2 = 0), decide (x0 % 2 ≠ 0)⟩

/-- The outstanding pixels are drawn. -/
def Pen.flush (pen : Pen) (buffer : Buffer) (shade : Shade) : Option Buffer :=
  if pen.loPixel && pen.hiPixel then putBoth buffer pen.offset shade
  else if pen.loPixel then putLo buffer pen.offset shade
  else putHi buffer pen.offset shade

/-- `h++` when no pixel is outstanding. -/
def Pen.right (pen : Pen) : Pen :=
  if pen.pixelPos + 1 = 2 then ⟨pen.offset + 1, 0, true, false⟩
  else ⟨pen.offset, pen.pixelPos + 1, false, true⟩

/-- `v++`: the same place one row further. -/
def Pen.row (pen : Pen) (addV : Int) : Pen := { pen with offset := pen.offset + addV }

def Dest.row (dest : Dest) (addV : Int) : Dest := { dest with offset := dest.offset + addV }

/-- `xMax` steps along the x-axis. There is a `yMax` if the line is clipped. -/
def hmaxLoop (addV incrH incrHV : Int) (shade : Shade) :
    Nat → Int → Option Int → Pen → Buffer → Option Buffer
  | 0, _, _, pen, buffer => pen.flush buffer shade
  | xMax + 1, d, yMax, pen, buffer =>
    if d ≤ 0 then
      if pen.pixelPos + 1 = 2 then
        (pen.flush buffer shade).bind fun buffer =>
          hmaxLoop addV incrH incrHV shade xMax (d + incrH) yMax ⟨pen.offset + 1, 0, true, false⟩ buffer
      else
        hmaxLoop addV incrH incrHV shade xMax (d + incrH) yMax
          ⟨pen.offset, pen.pixelPos + 1, pen.loPixel, true⟩ buffer
    else
      (pen.flush buffer shade).bind fun buffer =>
        if yMax = some 0 then some buffer
        else hmaxLoop addV incrH incrHV shade xMax (d + incrHV) (yMax.map (· - 1))
          (pen.right.row addV) buffer

/-- `yMax` steps along the y-axis. There is an `xMax` if the line is clipped. -/
def vmaxLoop (addV incrV incrHV : Int) (shade : Shade) :
    Nat → Int → Option Int → Dest → Buffer → Option Buffer
  | 0, _, _, _, buffer => some buffer
  | yMax + 1, d, xMax, dest, buffer =>
    if d ≤ 0 then
      ((dest.row addV).put buffer shade).bind fun buffer =>
        vmaxLoop addV incrV incrHV shade yMax (d + incrV) xMax (dest.row addV) buffer
    else if xMax = some 0 then some buffer
    else
      ((dest.next.row addV).put buffer shade).bind fun buffer =>
        vmaxLoop addV incrV incrHV shade yMax (d + incrHV) (xMax.map (· - 1)) (dest.next.row addV) buffer

def addV (dy : Int) : Int := if dy > 0 then vfdBytesPerScanline else -vfdBytesPerScanline

def absV (dy : Int) : Int := if dy > 0 then dy else -dy

def drawLineHMaxUnclipped (buffer : Buffer) (x0 y0 dx dy : Int) (shade : Shade) : Option Buffer :=
  hmaxLoop (addV dy) (2 * absV dy) (2 * (absV dy - dx)) shade dx.toNat (2 * absV dy - dx) none
    (.initial x0 y0) buffer

def drawLineHMaxClipped (buffer : Buffer) (x0 y0 dx dy d xMax yMax : Int) (shade : Shade) :
    Option Buffer :=
  hmaxLoop (addV dy) (2 * absV dy) (2 * (absV dy - dx)) shade xMax.toNat d (some yMax)
    (.initial x0 y0) buffer

def drawLineVMaxUnclipped (buffer : Buffer) (x0 y0 dx dy : Int) (shade : Shade) : Option Buffer :=
  ((Dest.at x0 y0).put buffer shade).bind fun buffer =>
    vmaxLoop (addV dy) (2 * dx) (2 * (dx - absV dy)) shade (absV dy).toNat (2 * dx - absV dy) none
      (Dest.at x0 y0) buffer

def drawLineVMaxClipped (buffer : Buffer) (x0 y0 dx dy d xMax yMax : Int) (shade : Shade) :
    Option Buffer :=
  ((Dest.at x0 y0).put buffer shade).bind fun buffer =>
    vmaxLoop (addV dy) (2 * dx) (2 * (dx - absV dy)) shade yMax.toNat d (some xMax)
      (Dest.at x0 y0) buffer

/-- A line that is neither vertical nor horizontal, once its points are swapped to go to the right. -/
def drawLineRightUnclipped (buffer : Buffer) (x0 y0 dx dy : Int) (shade : Shade) : Option Buffer :=
  if dy < 0 then
    if dx > -dy then drawLineHMaxUnclipped buffer x0 y0 dx dy shade
    else drawLineVMaxUnclipped buffer x0 y0 dx dy shade
  else if dx > dy then drawLineHMaxUnclipped buffer x0 y0 dx dy shade
  else drawLineVMaxUnclipped buffer x0 y0 dx dy shade

def vfdlibDrawLineUnclipped (buffer : Buffer) (x0 y0 x1 y1 : Int) (shade : Shade) : Option Buffer :=
  let dx := x1 - x0
  let dy := y1 - y0
  if dx = 0 then
    if dy ≥ 0 then vfdlibDrawLineVertUnclipped buffer x0 y0 (dy + 1) shade
    else vfdlibDrawLineVertUnclipped buffer x0 y1 (-dy + 1) shade
  else if dy = 0 then
    if dx ≥ 0 then vfdlibDrawLineHorizUnclipped buffer y0 x0 (dx + 1) shade
    else vfdlibDrawLineHorizUnclipped buffer y0 x1 (-dx + 1) shade
  else
    if dx < 0 then drawLineRightUnclipped buffer x1 y1 (-dx) (-dy) shade
    else drawLineRightUnclipped buffer x0 y0 dx dy shade

/-! ## Along the x-axis -/

variable {buffer : Buffer} {shade : Shade} {s x y x0 y0 x1 y1 dx dy m n i : Int} {top : Option Int}

/-- The pen at `x`, `y`, when the pixels from `s` on are outstanding. -/
def Pen.at (s x y : Int) : Pen :=
  ⟨byteOffset x y, x % 2, decide (s % 2 = 0), decide (x % 2 = 1)⟩

theorem pen_initial : Pen.initial x y = Pen.at x x y := by
  have hodd : x % 2 ≠ 0 ↔ x % 2 = 1 := by omega
  simp only [Pen.initial, Pen.at, hodd]

theorem draws_flush (hsx : s ≤ x) (hbyte : s / 2 = x / 2) (hs : (s, y) ∈ screen.valid)
    (hx : (x, y) ∈ screen.valid) :
    Draws screen ((Pen.at s x y).flush buffer shade) buffer
      (fill (rect s y (x + 1) (y + 1)) shade) := by
  obtain hodd | heven := Int.emod_two_eq s
  · obtain hx0 | hx1 := Int.emod_two_eq x
    · obtain rfl : s = x := by omega
      simp only [Pen.flush, Pen.at, hx0]
      rw [← singleton_eq_rect]
      exact draws_putLo hx hx0
    · obtain rfl : x = s + 1 := by omega
      have hoffset : byteOffset (s + 1) y = byteOffset s y := by
        unfold byteOffset
        omega
      simp only [Pen.flush, Pen.at, hodd, hx1, hoffset]
      rw [← rect_beside (s + 1) (by omega) (by omega), ← singleton_eq_rect, ← singleton_eq_rect]
      exact draws_putBoth hs hodd
  · obtain rfl : s = x := by omega
    simp only [Pen.flush, Pen.at, heven]
    rw [← singleton_eq_rect]
    exact draws_putHi hx heven

theorem right_at : (Pen.at s x y).right = Pen.at (x + 1) (x + 1) y := by
  show (if x % 2 + 1 = 2 then Pen.mk (byteOffset x y + 1) 0 true false
    else ⟨byteOffset x y, x % 2 + 1, false, true⟩) = _
  unfold Pen.at byteOffset
  obtain heven | hodd := Int.emod_two_eq x
  · have hnext : (x + 1) % 2 = 1 := by omega
    rw [if_neg (by omega), hnext, heven, Pen.mk.injEq]
    exact ⟨by omega, rfl, rfl, rfl⟩
  · have hnext : (x + 1) % 2 = 0 := by omega
    rw [if_pos (by omega), hnext, Pen.mk.injEq]
    exact ⟨by omega, rfl, rfl, rfl⟩

/-- Both pixels of the byte are outstanding now. -/
theorem hold_at (heven : x % 2 = 0) :
    Pen.mk (byteOffset x y) (x % 2 + 1) (decide (s % 2 = 0)) true = Pen.at s (x + 1) y := by
  have hnext : (x + 1) % 2 = 1 := by omega
  rw [Pen.at, hnext, heven, Pen.mk.injEq]
  refine ⟨?_, rfl, rfl, rfl⟩
  unfold byteOffset
  omega

theorem byteOffset_row (x y sign : Int) : byteOffset x y + sign * 64 = byteOffset x (y + sign) := by
  unfold byteOffset
  ring

@[simp] theorem pen_row (sign : Int) : (Pen.at s x y).row (sign * 64) = Pen.at s x (y + sign) :=
  congrArg (Pen.mk · (x % 2) (decide (s % 2 = 0)) (decide (x % 2 = 1))) (byteOffset_row x y sign)

@[simp] theorem dest_row (sign : Int) : (Dest.at x y).row (sign * 64) = Dest.at x (y + sign) :=
  congrArg (Dest.mk · (x % 2)) (byteOffset_row x y sign)

/-- The limit of a loop that goes up by one. -/
theorem limit_up {top : Option Int} {k : Int} :
    (top.map (· - k)).map (· - 1) = top.map (· - (k + 1)) := by
  cases top with
  | none => rfl
  | some t => simp only [Option.map_some, Int.sub_sub]

theorem limit_eq_zero {top : Option Int} {k : Int} : top.map (· - k) = some 0 ↔ top = some k := by
  cases top with
  | none => simp
  | some t =>
      simp only [Option.map_some, Option.some.injEq]
      omega

theorem limit_next {top : Option Int} {k : Int} (htop : ∀ t ∈ top, k ≤ t)
    (h : top.map (· - k) ≠ some 0) : ∀ t ∈ top, k + 1 ≤ t := by
  rintro t rfl
  have hle := htop t rfl
  have hne : t ≠ k := fun heq => h (limit_eq_zero.mpr (congrArg some heq))
  omega

section Loops

variable {sign : Int} (hm : 0 < m) (hn : 0 ≤ n) (hnm : n ≤ m)

include hm hn hnm

/-- **The loop along the x-axis draws the rest of the line**, and the pixels that are outstanding. -/
theorem draws_hmaxLoop (steps : Nat)
    (hx : x = x0 + i) (hy : y = y0 + sign * minor m n i) (hsx : s ≤ x) (hbyte : s / 2 = x / 2)
    (hs : (s, y) ∈ screen.valid) (hq : (x, y) ∈ screen.valid)
    (hscreen : ∀ p ∈ stretch m n i (i + steps) top,
      (x0 + p.1, y0 + sign * p.2) ∈ screen.valid) (htop : ∀ t ∈ top, minor m n i ≤ t) :
    Draws screen (hmaxLoop (sign * 64) (2 * n) (2 * (n - m)) shade steps
        (decision m n i (minor m n i)) (top.map (· - minor m n i)) (Pen.at s x y) buffer) buffer
      (fill (rect s y (x + 1) (y + 1) ∪
        (fun p => (x0 + p.1, y0 + sign * p.2)) '' stretch m n i (i + steps) top) shade) := by
  induction steps generalizing i s x y buffer with
  | zero =>
      rw [stretch_end (by omega), Set.image_empty, Set.union_empty]
      exact draws_flush hsx hbyte hs hq
  | succ steps ih =>
      have hsucc := minor_succ (i := i) hm hn hnm
      have hlast : i + ↑(steps + 1) = i + 1 + steps := by omega
      have hright : x + 1 = x0 + (i + 1) := by omega
      rw [hlast] at hscreen ⊢
      rw [hmaxLoop]
      split
      · next hd =>
          rw [if_pos hd] at hsucc
          rw [← hsucc] at hy htop
          rw [stretch_succ (by omega) htop] at hscreen ⊢
          have hq' : (x + 1, y) ∈ screen.valid := by
            rw [hright, hy]
            exact hscreen _ (.inl rfl)
          rw [Set.image_union, Set.image_singleton, ← hright, ← hy, singleton_eq_rect, decision_along,
            ← hsucc]
          split
          · next hodd =>
              have hnext : Pen.mk ((Pen.at s x y).offset + 1) 0 true false = Pen.at (x + 1) (x + 1) y := by
                rw [← right_at (s := s), Pen.right, if_pos hodd]
              rw [hnext]
              exact (draws_flush hsx hbyte hs hq).union fun buffer =>
                ih hright hy (Int.le_refl _) rfl hq' hq' (fun p hp => hscreen p (.inr hp)) htop
          · next heven =>
              have heven : x % 2 = 0 := by
                have heven : ¬ x % 2 + 1 = 2 := heven
                omega
              rw [← Set.union_assoc, rect_beside (x + 1) (by omega) (by omega)]
              have hnext : Pen.mk (Pen.at s x y).offset ((Pen.at s x y).pixelPos + 1)
                  (Pen.at s x y).loPixel true = Pen.at s (x + 1) y := hold_at heven
              rw [hnext]
              exact ih hright hy (by omega) (by omega) hs hq' (fun p hp => hscreen p (.inr hp)) htop
      · next hd =>
          rw [if_neg hd] at hsucc
          refine (draws_flush hsx hbyte hs hq).union fun buffer => ?_
          split
          · next hstop =>
              rw [limit_eq_zero.mp hstop, stretch_top hm hn (by omega), Set.image_empty]
              exact .nothing
          · next hgo =>
              have htop : ∀ t ∈ top, minor m n (i + 1) ≤ t :=
                hsucc ▸ limit_next htop hgo
              have hdown : y + sign = y0 + sign * minor m n (i + 1) := by
                rw [hsucc, hy]
                ring
              rw [stretch_succ (by omega) htop] at hscreen ⊢
              have hq' : (x + 1, y + sign) ∈ screen.valid := by
                rw [hright, hdown]
                exact hscreen _ (.inl rfl)
              rw [Set.image_union, Set.image_singleton, ← hright, ← hdown, singleton_eq_rect,
                decision_up, limit_up, ← hsucc, right_at, pen_row]
              exact ih hright hdown (Int.le_refl _) rfl hq' hq' (fun p hp => hscreen p (.inr hp)) htop

/-- **The loop along the y-axis draws the rest of the line.** -/
theorem draws_vmaxLoop (steps : Nat)
    (hx : x = x0 + minor m n i) (hy : y = y0 + sign * i)
    (hscreen : ∀ p ∈ stretch m n i (i + steps) top,
      (x0 + p.2, y0 + sign * p.1) ∈ screen.valid) (htop : ∀ t ∈ top, minor m n i ≤ t) :
    Draws screen (vmaxLoop (sign * 64) (2 * n) (2 * (n - m)) shade steps
        (decision m n i (minor m n i)) (top.map (· - minor m n i)) (Dest.at x y) buffer) buffer
      (fill ((fun p => (x0 + p.2, y0 + sign * p.1)) '' stretch m n i (i + steps) top) shade) := by
  induction steps generalizing i x y buffer with
  | zero =>
      rw [stretch_end (by omega), Set.image_empty]
      exact .nothing
  | succ steps ih =>
      have hsucc := minor_succ (i := i) hm hn hnm
      have hlast : i + ↑(steps + 1) = i + 1 + steps := by omega
      have hdown : y + sign = y0 + sign * (i + 1) := by
        rw [hy]
        ring
      rw [hlast] at hscreen ⊢
      rw [vmaxLoop]
      split
      · next hd =>
          rw [if_pos hd] at hsucc
          rw [← hsucc] at hx htop
          rw [stretch_succ (by omega) htop] at hscreen ⊢
          have hq : (x, y + sign) ∈ screen.valid := by
            rw [hx, hdown]
            exact hscreen _ (.inl rfl)
          rw [Set.image_union, Set.image_singleton, ← hx, ← hdown, decision_along, ← hsucc, dest_row]
          exact (draws_put hq).union fun buffer =>
            ih hx hdown (fun p hp => hscreen p (.inr hp)) htop
      · next hd =>
          rw [if_neg hd] at hsucc
          split
          · next hstop =>
              rw [limit_eq_zero.mp hstop, stretch_top hm hn (by omega), Set.image_empty]
              exact .nothing
          · next hgo =>
              have htop : ∀ t ∈ top, minor m n (i + 1) ≤ t := hsucc ▸ limit_next htop hgo
              have hright : x + 1 = x0 + minor m n (i + 1) := by omega
              rw [stretch_succ (by omega) htop] at hscreen ⊢
              have hq : (x + 1, y + sign) ∈ screen.valid := by
                rw [hright, hdown]
                exact hscreen _ (.inl rfl)
              rw [Set.image_union, Set.image_singleton, ← hright, ← hdown, decision_up, limit_up,
                ← hsucc, Dest.next_at, dest_row]
              exact (draws_put hq).union fun buffer =>
                ih hright hdown (fun p hp => hscreen p (.inr hp)) htop

end Loops

/-! ## Whole lines -/

theorem addV_eq : addV dy = rise dy * 64 := by
  unfold addV rise vfdBytesPerScanline
  split <;> rfl

theorem absV_eq : absV dy = |dy| := by
  unfold absV
  split
  · next h => exact (abs_of_pos h).symm
  · next h => exact (abs_of_nonpos (by omega)).symm

/-- A line that goes along the x-axis, drawn from its point after `i` steps on. -/
theorem draws_hmax (top : Option Int) (hm : 0 < dx) (hle : |dy| ≤ dx) (steps : Nat)
    (hx : x = x0 + i) (hy : y = y0 + rise dy * minor dx |dy| i)
    (hscreen : ∀ p ∈ {(i, minor dx |dy| i)} ∪ stretch dx |dy| i (i + steps) top,
      alongX x0 y0 dy p ∈ screen.valid) (htop : ∀ t ∈ top, minor dx |dy| i ≤ t) :
    Draws screen (hmaxLoop (addV dy) (2 * absV dy) (2 * (absV dy - dx)) shade steps
        (decision dx |dy| i (minor dx |dy| i)) (top.map (· - minor dx |dy| i)) (Pen.initial x y)
        buffer) buffer
      (fill (alongX x0 y0 dy '' ({(i, minor dx |dy| i)} ∪ stretch dx |dy| i (i + steps) top))
        shade) := by
  have hq : (x, y) ∈ screen.valid := by
    rw [hx, hy]
    exact hscreen _ (.inl rfl)
  have hfirst : alongX x0 y0 dy (i, minor dx |dy| i) = (x, y) := by rw [alongX, hx, hy]
  rw [addV_eq, absV_eq, pen_initial, Set.image_union, Set.image_singleton, hfirst, singleton_eq_rect]
  exact draws_hmaxLoop hm (abs_nonneg dy) hle steps hx hy (Int.le_refl _) rfl hq hq
    (fun p hp => hscreen p (.inr hp)) htop

/-- The same for a line along the y-axis. -/
theorem draws_vmax (top : Option Int) (hm : 0 < |dy|) (hn : 0 ≤ dx) (hle : dx ≤ |dy|) (steps : Nat)
    (hx : x = x0 + minor |dy| dx i) (hy : y = y0 + rise dy * i)
    (hscreen : ∀ p ∈ {(i, minor |dy| dx i)} ∪ stretch |dy| dx i (i + steps) top,
      alongY x0 y0 dy p ∈ screen.valid) (htop : ∀ t ∈ top, minor |dy| dx i ≤ t) :
    Draws screen (((Dest.at x y).put buffer shade).bind fun buffer =>
        vmaxLoop (addV dy) (2 * dx) (2 * (dx - absV dy)) shade steps
          (decision |dy| dx i (minor |dy| dx i)) (top.map (· - minor |dy| dx i)) (Dest.at x y)
          buffer) buffer
      (fill (alongY x0 y0 dy '' ({(i, minor |dy| dx i)} ∪ stretch |dy| dx i (i + steps) top))
        shade) := by
  have hq : (x, y) ∈ screen.valid := by
    rw [hx, hy]
    exact hscreen _ (.inl rfl)
  have hfirst : alongY x0 y0 dy (i, minor |dy| dx i) = (x, y) := by rw [alongY, hx, hy]
  rw [addV_eq, absV_eq, Set.image_union, Set.image_singleton, hfirst]
  exact (draws_put hq).union fun buffer =>
    draws_vmaxLoop hm hn hle steps hx hy (fun p hp => hscreen p (.inr hp)) htop

theorem draws_lineHMaxUnclipped (hdx : |dy| < dx)
    (hscreen : ∀ q ∈ alongX x0 y0 dy '' track dx |dy|, q ∈ screen.valid) :
    Draws screen (drawLineHMaxUnclipped buffer x0 y0 dx dy shade) buffer
      (fill (alongX x0 y0 dy '' track dx |dy|) shade) := by
  have hm : 0 < dx := (abs_nonneg dy).trans_lt hdx
  have hlast : dx = 0 + dx.toNat := by omega
  have hseg : track dx |dy| = {(0, minor dx |dy| 0)} ∪ stretch dx |dy| 0 (0 + dx.toNat) none := by
    rw [← hlast, track_eq hm.le, minor_zero hm.le]
  have hd : 2 * absV dy - dx = decision dx |dy| 0 (minor dx |dy| 0) := by
    rw [minor_zero hm.le, decision_zero, absV_eq]
  have hy : y0 = y0 + rise dy * minor dx |dy| 0 := by rw [minor_zero hm.le, mul_zero, add_zero]
  rw [hseg] at hscreen ⊢
  rw [drawLineHMaxUnclipped, hd]
  exact draws_hmax none hm hdx.le dx.toNat (Int.add_zero x0).symm hy
    (fun p hp => hscreen _ (Set.mem_image_of_mem _ hp)) (fun t ht => absurd ht (by simp))

theorem draws_lineVMaxUnclipped (hdy : 0 < |dy|) (hdx : 0 ≤ dx) (hle : dx ≤ |dy|)
    (hscreen : ∀ q ∈ alongY x0 y0 dy '' track |dy| dx, q ∈ screen.valid) :
    Draws screen (drawLineVMaxUnclipped buffer x0 y0 dx dy shade) buffer
      (fill (alongY x0 y0 dy '' track |dy| dx) shade) := by
  have hlast : |dy| = 0 + |dy|.toNat := by omega
  have hseg : track |dy| dx =
      {(0, minor |dy| dx 0)} ∪ stretch |dy| dx 0 (0 + |dy|.toNat) none := by
    rw [← hlast, track_eq hdy.le, minor_zero hdy.le]
  have hd : 2 * dx - absV dy = decision |dy| dx 0 (minor |dy| dx 0) := by
    rw [minor_zero hdy.le, decision_zero, absV_eq]
  have hx : x0 = x0 + minor |dy| dx 0 := by rw [minor_zero hdy.le, add_zero]
  have hy : y0 = y0 + rise dy * 0 := by rw [mul_zero, add_zero]
  have hsteps : (absV dy).toNat = |dy|.toNat := by rw [absV_eq]
  rw [hseg] at hscreen ⊢
  rw [drawLineVMaxUnclipped, hd, hsteps]
  exact draws_vmax none hdy hdx hle |dy|.toNat hx hy
    (fun p hp => hscreen _ (Set.mem_image_of_mem _ hp)) (fun t ht => absurd ht (by simp))

/-! ## On the display -/

theorem rise_mul_abs : rise dy * |dy| = dy := by
  rw [← absV_eq]
  unfold rise absV
  split <;> omega

/-- Up to `|dy|` steps lead to rows between that of the start and that of the end. -/
theorem rise_between {k : Int} (hk : 0 ≤ k) (hle : k ≤ |dy|) :
    min y (y + dy) ≤ y + rise dy * k ∧ y + rise dy * k ≤ max y (y + dy) := by
  rw [← absV_eq] at hle
  unfold rise
  unfold absV at hle
  split <;> split at hle <;> omega

theorem track_bounds {p : Int × Int} (hm : 0 ≤ m) (hn : 0 ≤ n) (hnm : n ≤ m)
    (hp : p ∈ track m n) : (0 ≤ p.1 ∧ p.1 ≤ m) ∧ 0 ≤ p.2 ∧ p.2 ≤ n := by
  obtain ⟨hi, hlast, hk⟩ := hp
  refine ⟨⟨hi, hlast⟩, ?_⟩
  obtain rfl | hm := hm.eq_or_lt
  · obtain rfl : n = 0 := Int.le_antisymm hnm hn
    rw [hk, minor_flat (Int.le_refl 0)]
    exact ⟨Int.le_refl 0, Int.le_refl 0⟩
  · rw [hk]
    exact ⟨minor_nonneg hm hn hi, minor_le hm hn hlast⟩

/-- A line is in the rectangle of its end points. -/
theorem lineRight_bounds {q : Point} (hdx : 0 ≤ dx) (hq : q ∈ lineRight x y dx dy) :
    q ∈ rect x (min y (y + dy)) (x + dx + 1) (max y (y + dy) + 1) := by
  unfold lineRight at hq
  split at hq
  · next hlong =>
      obtain ⟨p, hp, rfl⟩ := hq
      obtain ⟨hi, hk⟩ := track_bounds hdx (abs_nonneg dy) hlong.le hp
      have hrow := rise_between (y := y) hk.1 hk.2
      exact mem_rect.mpr ⟨by simp only [alongX]; omega, by simp only [alongX]; omega⟩
  · next hlong =>
      obtain ⟨p, hp, rfl⟩ := hq
      obtain ⟨hi, hk⟩ := track_bounds (abs_nonneg dy) hdx (by omega) hp
      have hrow := rise_between (y := y) hi.1 hi.2
      exact mem_rect.mpr ⟨by simp only [alongY]; omega, by simp only [alongY]; omega⟩

theorem mem_track_flat {p : Int × Int} (hm : 0 ≤ m) :
    p ∈ track m 0 ↔ (0 ≤ p.1 ∧ p.1 ≤ m) ∧ p.2 = 0 := by
  simp only [track, Set.mem_ofPred_eq, minor_flat hm, and_assoc]

theorem lineRight_horiz (hdx : 0 < dx) : lineRight x y dx 0 = rect x y (x + dx + 1) (y + 1) := by
  rw [lineRight, abs_zero, if_pos hdx]
  ext ⟨x', y'⟩
  simp only [Set.mem_image, mem_track_flat hdx.le, alongX, mem_rect, Prod.mk.injEq]
  constructor
  · rintro ⟨p, ⟨hi, hk⟩, hx, hy⟩
    rw [hk, mul_zero] at hy
    omega
  · rintro ⟨hx, hy⟩
    exact ⟨(x' - x, 0), ⟨by omega, rfl⟩, by omega, by simp only [mul_zero]; omega⟩

theorem lineRight_vert :
    lineRight x y 0 dy = rect x (min y (y + dy)) (x + 1) (max y (y + dy) + 1) := by
  have hdy := abs_nonneg dy
  rw [lineRight, if_neg (by omega)]
  ext ⟨x', y'⟩
  simp only [Set.mem_image, mem_track_flat hdy, alongY, mem_rect, Prod.mk.injEq]
  constructor
  · rintro ⟨p, ⟨hi, hk⟩, hx, hy⟩
    have hrow := rise_between (y := y) hi.1 hi.2
    omega
  · rintro ⟨hx, hy⟩
    refine ⟨(|y' - y|, 0), ⟨⟨abs_nonneg _, ?_⟩, rfl⟩, by omega, ?_⟩
    · rw [← absV_eq, ← absV_eq]
      unfold absV
      split <;> split <;> omega
    · show y + rise dy * |y' - y| = y'
      have hrow : rise (y' - y) * |y' - y| = y' - y := rise_mul_abs
      have hsame : rise dy * |y' - y| = rise (y' - y) * |y' - y| := by
        by_cases hne : y' = y
        · simp [hne]
        · congr 1
          unfold rise
          split <;> split <;> omega
      omega

theorem drawLineRight_eq : drawLineRightUnclipped buffer x0 y0 dx dy shade =
    if dx > |dy| then drawLineHMaxUnclipped buffer x0 y0 dx dy shade
    else drawLineVMaxUnclipped buffer x0 y0 dx dy shade := by
  unfold drawLineRightUnclipped
  split
  · next h => rw [abs_of_neg h]
  · next h => rw [abs_of_nonneg (by omega)]

theorem draws_lineRight (hdx : 0 < dx) (hdy : dy ≠ 0) (h0 : (x0, y0) ∈ screen.valid)
    (h1 : (x0 + dx, y0 + dy) ∈ screen.valid) :
    Draws screen (drawLineRightUnclipped buffer x0 y0 dx dy shade) buffer
      (fill (lineRight x0 y0 dx dy) shade) := by
  have h0 := mem_screen.mp h0
  have h1 := mem_screen.mp h1
  have hscreen : ∀ q ∈ lineRight x0 y0 dx dy, q ∈ screen.valid := by
    intro q hq
    have hq := mem_rect.mp (lineRight_bounds hdx.le hq)
    exact mem_screen.mpr ⟨by omega, by omega⟩
  rw [drawLineRight_eq]
  unfold lineRight at hscreen ⊢
  split
  · next hlong =>
      rw [if_pos hlong] at hscreen
      exact draws_lineHMaxUnclipped hlong hscreen
  · next hlong =>
      rw [if_neg hlong] at hscreen
      exact draws_lineVMaxUnclipped (abs_pos.mpr hdy) hdx.le (by omega) hscreen

/-- **A line between two points of the display is drawn as it is to be.** -/
theorem draws_lineUnclipped (h0 : (x0, y0) ∈ screen.valid) (h1 : (x1, y1) ∈ screen.valid) :
    Draws screen (vfdlibDrawLineUnclipped buffer x0 y0 x1 y1 shade) buffer
      (fill (line x0 y0 x1 y1) shade) := by
  have hx0 := mem_screen.mp h0
  have hx1 := mem_screen.mp h1
  simp only at hx0 hx1
  simp only [vfdlibDrawLineUnclipped]
  split
  · next hdx =>
      have hline : line x0 y0 x1 y1 = rect x0 (min y0 y1) (x0 + 1) (max y0 y1 + 1) := by
        rw [line, if_neg (by omega), hdx, lineRight_vert]
        congr 1 <;> omega
      rw [hline]
      split
      · next hdown =>
          have hmin : min y0 y1 = y0 := by omega
          have hmax : y1 - y0 + 1 = max y0 y1 + 1 - y0 := by omega
          rw [hmin, hmax]
          exact draws_vert hx0.1 hx0.2.1 (by omega)
      · next hup =>
          have hmin : min y0 y1 = y1 := by omega
          have hmax : -(y1 - y0) + 1 = max y0 y1 + 1 - y1 := by omega
          rw [hmin, hmax]
          exact draws_vert hx0.1 hx1.2.1 (by omega)
  · next hdx =>
      split
      · next hdy =>
          have hline : line x0 y0 x1 y1 = rect (min x0 x1) y0 (max x0 x1 + 1) (y0 + 1) := by
            unfold line
            split
            · have hflat : y0 - y1 = 0 := by omega
              rw [hflat, lineRight_horiz (by omega)]
              congr 1 <;> omega
            · rw [hdy, lineRight_horiz (by omega)]
              congr 1 <;> omega
          rw [hline]
          split
          · have hmin : min x0 x1 = x0 := by omega
            have hmax : x1 - x0 + 1 = max x0 x1 + 1 - x0 := by omega
            rw [hmin, hmax]
            exact draws_horiz hx0.1.1 (by omega) hx0.2
          · have hmin : min x0 x1 = x1 := by omega
            have hmax : -(x1 - x0) + 1 = max x0 x1 + 1 - x1 := by omega
            rw [hmin, hmax]
            exact draws_horiz hx1.1.1 (by omega) hx0.2
      · next hdy =>
          unfold line
          split
          · rw [neg_sub, neg_sub]
            exact draws_lineRight (by omega) (by omega) h1 (by rwa [add_sub_cancel, add_sub_cancel])
          · exact draws_lineRight (by omega) hdy h0 (by rwa [add_sub_cancel, add_sub_cancel])

/-! ## The shape is the line -/

/-- It does not matter which of the points is given first. -/
theorem line_comm : line x0 y0 x1 y1 = line x1 y1 x0 y0 := by
  unfold line
  obtain hlt | heq | hgt := lt_trichotomy x0 x1
  · rw [if_neg (by omega), if_pos (by omega)]
  · have hzero : x1 - x0 = 0 ∧ x0 - x1 = 0 := by omega
    rw [if_neg (by omega), if_neg (by omega), hzero.1, hzero.2, lineRight_vert, lineRight_vert]
    congr 1 <;> omega
  · rw [if_pos (by omega), if_neg (by omega)]

theorem abs_rise : |rise dy| = 1 := by
  unfold rise
  split <;> rfl

theorem track_nearest {p : Int × Int} (hm : 0 ≤ m) (hn : 0 ≤ n) (hnm : n ≤ m)
    (hp : p ∈ track m n) : 2 * |p.1 * n - p.2 * m| ≤ m := by
  obtain rfl | hpos := hm.eq_or_lt
  · obtain rfl : n = 0 := Int.le_antisymm hnm hn
    simp
  · obtain ⟨-, -, hk⟩ := hp
    obtain ⟨hlow, hhigh⟩ := minor_nearest (n := n) (i := p.1) hpos
    rw [← hk] at hlow hhigh
    have habs := abs_le.mpr ⟨hlow.le, hhigh⟩
    rwa [abs_mul] at habs

theorem lineRight_nearest {q : Point} (hdx : 0 ≤ dx) (hq : q ∈ lineRight x y dx dy) :
    2 * |(q.1 - x) * dy - (q.2 - y) * dx| ≤ max |dx| |dy| := by
  have hdy : dy = rise dy * |dy| := rise_mul_abs.symm
  unfold lineRight at hq
  split at hq
  · next hlong =>
      obtain ⟨p, hp, rfl⟩ := hq
      have hdist : (x + p.1 - x) * dy - (y + rise dy * p.2 - y) * dx =
          rise dy * (p.1 * |dy| - p.2 * dx) := by
        rw [add_sub_cancel_left, add_sub_cancel_left]
        nth_rewrite 1 [hdy]
        ring
      show 2 * |(x + p.1 - x) * dy - (y + rise dy * p.2 - y) * dx| ≤ _
      rw [hdist, abs_mul, abs_rise, one_mul, abs_of_nonneg hdx]
      exact (track_nearest hdx (abs_nonneg dy) hlong.le hp).trans (le_max_left _ _)
  · next hlong =>
      obtain ⟨p, hp, rfl⟩ := hq
      have hdist : (x + p.2 - x) * dy - (y + rise dy * p.1 - y) * dx =
          -(rise dy * (p.1 * dx - p.2 * |dy|)) := by
        rw [add_sub_cancel_left, add_sub_cancel_left]
        nth_rewrite 1 [hdy]
        ring
      show 2 * |(x + p.2 - x) * dy - (y + rise dy * p.1 - y) * dx| ≤ _
      rw [hdist, abs_neg, abs_mul, abs_rise, one_mul]
      exact (track_nearest (abs_nonneg dy) hdx (by omega) hp).trans (le_max_right _ _)

theorem line_nearest {q : Point} (hq : q ∈ line x0 y0 x1 y1) :
    2 * |(q.1 - x0) * (y1 - y0) - (q.2 - y0) * (x1 - x0)| ≤ max |x1 - x0| |y1 - y0| := by
  unfold line at hq
  split at hq
  · have hnear := lineRight_nearest (by omega) hq
    have hdist : (q.1 - x1) * (y0 - y1) - (q.2 - y1) * (x0 - x1) =
        -((q.1 - x0) * (y1 - y0) - (q.2 - y0) * (x1 - x0)) := by ring
    rwa [hdist, abs_neg, abs_sub_comm x0, abs_sub_comm y0] at hnear
  · exact lineRight_nearest (by omega) hq

theorem lineRight_column (hlong : dx > |dy|) (hx : x0 ≤ x ∧ x ≤ x0 + dx) :
    ∃! y, (x, y) ∈ lineRight x0 y0 dx dy := by
  rw [lineRight, if_pos hlong]
  refine ⟨y0 + rise dy * minor dx |dy| (x - x0), ?_, ?_⟩
  · refine ⟨(x - x0, minor dx |dy| (x - x0)), ⟨by simp only; omega, by simp only; omega, rfl⟩, ?_⟩
    simp only [alongX, add_sub_cancel]
  · rintro y ⟨p, ⟨-, -, hk⟩, hq⟩
    simp only [alongX, Prod.mk.injEq] at hq
    have hi : p.1 = x - x0 := by omega
    rw [← hq.2, hk, hi]

theorem lineRight_row (hlong : ¬ dx > |dy|) (hy : min y0 (y0 + dy) ≤ y ∧ y ≤ max y0 (y0 + dy)) :
    ∃! x, (x, y) ∈ lineRight x0 y0 dx dy := by
  have hsteps : 0 ≤ rise dy * (y - y0) ∧ rise dy * (y - y0) ≤ |dy| := by
    rw [← absV_eq]
    unfold rise absV
    split <;> omega
  have hsquare : ∀ i, rise dy * (rise dy * i) = i := by
    intro i
    unfold rise
    split <;> omega
  rw [lineRight, if_neg hlong]
  refine ⟨x0 + minor |dy| dx (rise dy * (y - y0)), ?_, ?_⟩
  · refine ⟨(rise dy * (y - y0), minor |dy| dx (rise dy * (y - y0))), ⟨hsteps.1, hsteps.2, rfl⟩, ?_⟩
    simp only [alongY, hsquare, add_sub_cancel]
  · rintro x ⟨p, ⟨-, -, hk⟩, hq⟩
    simp only [alongY, Prod.mk.injEq] at hq
    have hi : p.1 = rise dy * (y - y0) := by
      rw [← hq.2, add_sub_cancel_left, hsquare]
    rw [← hq.1, hk, hi]

/-- A line has one pixel in each column, or one in each row, between its points. -/
theorem line_column (hlong : |y1 - y0| < |x1 - x0|) (hx : min x0 x1 ≤ x ∧ x ≤ max x0 x1) :
    ∃! y, (x, y) ∈ line x0 y0 x1 y1 := by
  unfold line
  split
  · next h =>
      rw [abs_sub_comm x1, abs_of_nonneg (by omega : 0 ≤ x0 - x1), abs_sub_comm y1] at hlong
      exact lineRight_column hlong (by omega)
  · next h =>
      rw [abs_of_nonneg (by omega : 0 ≤ x1 - x0)] at hlong
      exact lineRight_column hlong (by omega)

theorem line_row (hlong : |x1 - x0| ≤ |y1 - y0|) (hy : min y0 y1 ≤ y ∧ y ≤ max y0 y1) :
    ∃! x, (x, y) ∈ line x0 y0 x1 y1 := by
  unfold line
  split
  · next h =>
      rw [abs_sub_comm x1, abs_of_nonneg (by omega : 0 ≤ x0 - x1), abs_sub_comm y1] at hlong
      exact lineRight_row (by omega) (by omega)
  · next h =>
      rw [abs_of_nonneg (by omega : 0 ≤ x1 - x0)] at hlong
      exact lineRight_row (by omega) (by omega)

/-- **A line is drawn between any two points of the display**, in either order: its pixels are at most half
a pixel away from the exact line, and there is one for each step along the axis along which it is
longer. -/
theorem drawLine_nearest (h0 : (x0, y0) ∈ screen.valid) (h1 : (x1, y1) ∈ screen.valid) :
    (Draws screen (vfdlibDrawLineUnclipped buffer x0 y0 x1 y1 shade) buffer
        (fill (line x0 y0 x1 y1) shade) ∧
      Draws screen (vfdlibDrawLineUnclipped buffer x1 y1 x0 y0 shade) buffer
        (fill (line x0 y0 x1 y1) shade)) ∧
      (∀ q ∈ line x0 y0 x1 y1,
        2 * |(q.1 - x0) * (y1 - y0) - (q.2 - y0) * (x1 - x0)| ≤ max |x1 - x0| |y1 - y0|) ∧
      (|y1 - y0| < |x1 - x0| →
        ∀ x, min x0 x1 ≤ x → x ≤ max x0 x1 → ∃! y, (x, y) ∈ line x0 y0 x1 y1) ∧
      (|x1 - x0| ≤ |y1 - y0| →
        ∀ y, min y0 y1 ≤ y → y ≤ max y0 y1 → ∃! x, (x, y) ∈ line x0 y0 x1 y1) := by
  refine ⟨⟨draws_lineUnclipped h0 h1, ?_⟩, fun _ hq => line_nearest hq, ?_, ?_⟩
  · rw [line_comm]
    exact draws_lineUnclipped h1 h0
  · exact fun hlong x hleft hright => line_column hlong ⟨hleft, hright⟩
  · exact fun hlong y htop hbottom => line_row hlong ⟨htop, hbottom⟩

theorem drawLine_nearest_steep :
    Draws screen (vfdlibDrawLineUnclipped (.replicate 2048 0) 10 3 2 30 2) (.replicate 2048 0)
      (fill (line 10 3 2 30) 2) :=
  (drawLine_nearest (mem_screen.mpr (by decide)) (mem_screen.mpr (by decide))).1.1

end Squash.Vfd
