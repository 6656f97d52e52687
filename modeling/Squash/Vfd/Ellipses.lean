import Squash.Foundations.DigitalEllipse
import Squash.Vfd.Rectangles

/-!
# Ellipses

An ellipse is drawn by quarters. Both loops keep the point that they are at, a decision variable, and
what is to be added to that; they are the same whether the ellipse is solid or not, and clipped or not,
so that here they are given what to draw at each turn. A turn is made at each point of the digital arc
(`flat_at`, `steep_at`).

The clipped functions call the unclipped ones when the ellipse is well within the clip area. What is
drawn is the same in both ways (`draws_outlineEllipse`, `draws_solidEllipse`). The outline is where the
exact ellipse is (`drawOutlineEllipse_near`), and the solid ellipse fills it (`drawSolidEllipse_fills`).

The integers are exact: the products fit into an `int` up to half axes of 128.
-/

namespace Squash.Vfd

open Picture DigitalEllipse

/-! ## The loops -/

/-- `x`, `y`, `d1` or `d2`, `deltaE` or `deltaS`, and `deltaSE`. -/
structure Turn where
  x : Int
  y : Int
  d : Int
  delta : Int
  deltaSE : Int
  deriving DecidableEq, Repr

/-- A turn in region 1. -/
def Turn.flat (a_2 b_2 : Int) (t : Turn) : Turn :=
  if t.d < 0 then -- choose E
    ⟨t.x + 1, t.y, t.d + t.delta, t.delta + 8 * b_2, t.deltaSE + 8 * b_2⟩
  else -- choose SE
    ⟨t.x + 1, t.y - 1, t.d + t.deltaSE, t.delta + 8 * b_2, t.deltaSE + (8 * a_2 + 8 * b_2)⟩

/-- A turn in region 2. -/
def Turn.steep (a_2 b_2 : Int) (t : Turn) : Turn :=
  if t.d < 0 then -- choose SE
    ⟨t.x + 1, t.y - 1, t.d + t.deltaSE, t.delta + 8 * a_2, t.deltaSE + (8 * a_2 + 8 * b_2)⟩
  else -- choose S
    ⟨t.x, t.y - 1, t.d + t.delta, t.delta + 8 * a_2, t.deltaSE + 8 * a_2⟩

/-- What is drawn in a turn, from what the variables are before it and after it. -/
abbrev Plot := Turn → Turn → Buffer → Option Buffer

/-- Region 1, and what comes after it. -/
def flatLoop (a_2 b_2 : Int) (plot : Plot) (rest : Turn → Buffer → Option Buffer) :
    Nat → Turn → Buffer → Option Buffer
  | 0, t, buffer => rest t buffer
  | turns + 1, t, buffer =>
    if 2 * a_2 * t.y - a_2 > 2 * b_2 * (t.x + 1) then
      (plot t (t.flat a_2 b_2) buffer).bind
        (flatLoop a_2 b_2 plot rest turns (t.flat a_2 b_2))
    else rest t buffer

/-- Region 2, and what comes after it. -/
def steepLoop (a_2 b_2 : Int) (plot : Plot) (rest : Turn → Buffer → Option Buffer) :
    Nat → Turn → Buffer → Option Buffer
  | 0, t, buffer => rest t buffer
  | turns + 1, t, buffer =>
    if t.y > 0 then
      (plot t (t.steep a_2 b_2) buffer).bind
        (steepLoop a_2 b_2 plot rest turns (t.steep a_2 b_2))
    else rest t buffer

/-- Both regions. The first has no more turns than columns, and the second as many as there are rows. -/
def drawEllipse (a b : Int) (plotFlat plotSteep : Plot) (rest : Turn → Buffer → Option Buffer) :
    Buffer → Option Buffer :=
  let a_2 := a * a
  let b_2 := b * b
  flatLoop a_2 b_2 plotFlat
    (fun t =>
      let d2 := 4 * b_2 * (t.x * t.x + t.x) + b_2 + 4 * a_2 * (t.y - 1) * (t.y - 1) - 4 * a_2 * b_2
      let deltaS := 4 * a_2 * (-2 * t.y + 3)
      steepLoop a_2 b_2 plotSteep rest t.y.toNat
        ⟨t.x, t.y, d2, deltaS, 4 * b_2 * (2 * t.x + 2) + deltaS⟩)
    a.natAbs ⟨0, b, 4 * b_2 - 4 * a_2 * b + a_2, 12 * b_2, 12 * b_2 - 8 * a_2 * b + 8 * a_2⟩

/-! ## The functions -/

def drawPixel4WaySymmetricUnclipped (buffer : Buffer) (cX cY x y : Int) (shade : Shade) :
    Option Buffer := do
  let buffer ← vfdlibDrawPointUnclipped buffer (cX + x) (cY + y) shade
  let buffer ← vfdlibDrawPointUnclipped buffer (cX + x) (cY - y) shade
  let buffer ← vfdlibDrawPointUnclipped buffer (cX - x) (cY + y) shade
  vfdlibDrawPointUnclipped buffer (cX - x) (cY - y) shade

def drawPixel4WaySymmetricClipped (clip : Clip) (buffer : Buffer) (cX cY x y : Int)
    (shade : Shade) : Option Buffer := do
  let buffer ← vfdlibDrawPointClipped clip buffer (cX + x) (cY + y) shade
  let buffer ← vfdlibDrawPointClipped clip buffer (cX + x) (cY - y) shade
  let buffer ← vfdlibDrawPointClipped clip buffer (cX - x) (cY + y) shade
  vfdlibDrawPointClipped clip buffer (cX - x) (cY - y) shade

/-- The outline, in terms of how the four pixels are drawn. -/
def drawOutlineEllipse (pixels : Int → Int → Buffer → Option Buffer) (a b : Int)
    (buffer : Buffer) : Option Buffer :=
  (pixels 0 b buffer).bind
    (drawEllipse a b (fun _ t => pixels t.x t.y) (fun _ t => pixels t.x t.y)
      fun _ buffer => some buffer)

def vfdlibDrawOutlineEllipseUnclipped (buffer : Buffer) (cX cY a b : Int) (shade : Shade) :
    Option Buffer :=
  drawOutlineEllipse (fun x y buffer => drawPixel4WaySymmetricUnclipped buffer cX cY x y shade)
    a b buffer

/-- The test for the unclipped function. -/
def wellWithin (clip : Clip) (cX cY a b : Int) : Prop :=
  cX - a > clip.xLeft ∧ cX + a < clip.xRight ∧ cY - b > clip.yTop ∧ cY + b < clip.yBottom

instance (clip : Clip) (cX cY a b : Int) : Decidable (wellWithin clip cX cY a b) :=
  inferInstanceAs (Decidable (_ ∧ _))

def vfdlibDrawOutlineEllipseClipped (clip : Clip) (buffer : Buffer) (cX cY a b : Int)
    (shade : Shade) : Option Buffer :=
  if wellWithin clip cX cY a b then vfdlibDrawOutlineEllipseUnclipped buffer cX cY a b shade
  else
    drawOutlineEllipse
      (fun x y buffer => drawPixel4WaySymmetricClipped clip buffer cX cY x y shade) a b buffer

/-- The rows of a solid ellipse, in terms of how a row is drawn. In region 1 the rows are drawn when the
next one is begun; in region 2 the row has the width of the next one already. -/
def drawSolidEllipse (row : Int → Int → Buffer → Option Buffer) (a b : Int) :
    Buffer → Option Buffer :=
  let rows (y x : Int) (buffer : Buffer) := (row y x buffer).bind (row (-y) x)
  drawEllipse a b (fun t _ buffer => if t.d < 0 then some buffer else rows t.y t.x buffer)
    (fun t t' buffer => rows t.y t'.x buffer) (fun t => row 0 t.x)

def vfdlibDrawSolidEllipseUnclipped (buffer : Buffer) (cX cY a b : Int) (shade : Shade) :
    Option Buffer :=
  drawSolidEllipse
    (fun y x buffer => vfdlibDrawLineHorizUnclipped buffer (cY + y) (cX - x) (2 * x) shade) a b buffer

def vfdlibDrawSolidEllipseClipped (clip : Clip) (buffer : Buffer) (cX cY a b : Int)
    (shade : Shade) : Option Buffer :=
  if wellWithin clip cX cY a b then vfdlibDrawSolidEllipseUnclipped buffer cX cY a b shade
  else
    drawSolidEllipse
      (fun y x buffer => vfdlibDrawLineHorizClipped clip buffer (cY + y) (cX - x) (cX + x) shade)
      a b buffer

/-! ## The turns follow the arc -/

section Turns

variable {a b x y : Int} {p : Int × Int}

/-- The variables of region 1 at a point. -/
def Turn.atFlat (a b : Int) (p : Int × Int) : Turn where
  x := p.1
  y := p.2
  d := excess a b (2 * p.1 + 2) (2 * p.2 - 1)
  delta := 4 * b ^ 2 * (2 * p.1 + 3)
  deltaSE := 4 * b ^ 2 * (2 * p.1 + 3) + 8 * a ^ 2 * (1 - p.2)

/-- The variables of region 2 at a point. -/
def Turn.atSteep (a b : Int) (p : Int × Int) : Turn where
  x := p.1
  y := p.2
  d := excess a b (2 * p.1 + 1) (2 * p.2 - 2)
  delta := 4 * a ^ 2 * (3 - 2 * p.2)
  deltaSE := 8 * b ^ 2 * (p.1 + 1) + 4 * a ^ 2 * (3 - 2 * p.2)

theorem flat_at (hflat : Flat a b p.1 p.2) :
    (Turn.atFlat a b p).flat (a * a) (b * b) = Turn.atFlat a b (next a b p) := by
  unfold Turn.flat next
  rw [if_pos hflat]
  show (if excess a b (2 * p.1 + 2) (2 * p.2 - 1) < 0 then _ else _) = _
  split
  · simp only [Turn.atFlat, excess, Turn.mk.injEq]
    refine ⟨trivial, trivial, ?_, ?_, ?_⟩ <;> ring
  · simp only [Turn.atFlat, excess, Turn.mk.injEq]
    refine ⟨trivial, trivial, ?_, ?_, ?_⟩ <;> ring

theorem steep_at (hsteep : ¬ Flat a b p.1 p.2) (hpos : 0 < p.2) :
    (Turn.atSteep a b p).steep (a * a) (b * b) = Turn.atSteep a b (next a b p) := by
  unfold Turn.steep next
  rw [if_neg hsteep, if_pos hpos]
  show (if excess a b (2 * p.1 + 1) (2 * p.2 - 2) < 0 then _ else _) = _
  split
  · simp only [Turn.atSteep, excess, Turn.mk.injEq]
    refine ⟨trivial, trivial, ?_, ?_, ?_⟩ <;> ring
  · simp only [Turn.atSteep, excess, Turn.mk.injEq]
    refine ⟨trivial, trivial, ?_, ?_, ?_⟩ <;> ring

theorem flat_start : (⟨0, b, 4 * (b * b) - 4 * (a * a) * b + a * a, 12 * (b * b),
    12 * (b * b) - 8 * (a * a) * b + 8 * (a * a)⟩ : Turn) = Turn.atFlat a b (arc a b 0) := by
  simp only [arc, Function.iterate_zero, id, Turn.atFlat, excess, Turn.mk.injEq]
  refine ⟨trivial, trivial, ?_, ?_, ?_⟩ <;> ring

theorem steep_start : (⟨x, y, 4 * (b * b) * (x * x + x) + b * b + 4 * (a * a) * (y - 1) * (y - 1) -
      4 * (a * a) * (b * b), 4 * (a * a) * (-2 * y + 3),
    4 * (b * b) * (2 * x + 2) + 4 * (a * a) * (-2 * y + 3)⟩ : Turn) = Turn.atSteep a b (x, y) := by
  simp only [Turn.atSteep, excess, Turn.mk.injEq]
  refine ⟨trivial, trivial, ?_, ?_, ?_⟩ <;> ring

theorem flat_iff : 2 * (a * a) * (Turn.atFlat a b p).y - a * a >
    2 * (b * b) * ((Turn.atFlat a b p).x + 1) ↔ Flat a b p.1 p.2 := by
  rw [Flat, sq, sq]
  rfl

end Turns

/-! ## What the loops draw -/

section Loops

variable {a b : Int} {buffer : Buffer} {shade : Shade} {plotFlat plotSteep : Plot}
  {rest : Turn → Buffer → Option Buffer} {shape : Int × Int → Set Point}

/-- What is drawn from a point of the arc on. -/
def shapeFrom (a b : Int) (shape : Int × Int → Set Point) (n : Nat) : Set Point :=
  {q | ∃ m, n ≤ m ∧ q ∈ shape (arc a b m)}

theorem shapeFrom_succ (n : Nat) :
    shapeFrom a b shape n = shape (arc a b n) ∪ shapeFrom a b shape (n + 1) := by
  ext q
  constructor
  · rintro ⟨m, hm, hq⟩
    rcases hm.eq_or_lt with rfl | hm
    · exact .inl hq
    · exact .inr ⟨m, hm, hq⟩
  · rintro (hq | ⟨m, hm, hq⟩)
    · exact ⟨n, le_refl n, hq⟩
    · exact ⟨m, by omega, hq⟩

/-- The arc has ended. -/
theorem shapeFrom_end {n : Nat} (hx : 0 ≤ (arc a b n).1) (hend : (arc a b n).2 ≤ 0) :
    shapeFrom a b shape n = shape (arc a b n) := by
  have hsame : ∀ k, arc a b (n + k) = arc a b n := by
    intro k
    induction k with
    | zero => rfl
    | succ k ih => rw [← Nat.add_assoc, arc_succ, ih, next_end hx hend]
  ext q
  constructor
  · rintro ⟨m, hm, hq⟩
    obtain ⟨k, rfl⟩ := Nat.exists_eq_add_of_le hm
    rwa [hsame k] at hq
  · exact fun hq => ⟨n, le_refl n, hq⟩

/-- What is drawn in each turn, and after the last. -/
structure Plots (a b : Int) (plotFlat plotSteep : Plot) (rest : Turn → Buffer → Option Buffer)
    (shape : Int × Int → Set Point) (shade : Shade) : Prop where
  flat : ∀ n, Flat a b (arc a b n).1 (arc a b n).2 → ∀ buffer,
    Draws screen (plotFlat (.atFlat a b (arc a b n)) (.atFlat a b (next a b (arc a b n))) buffer)
      buffer (fill (shape (arc a b n)) shade)
  steep : ∀ n, ¬ Flat a b (arc a b n).1 (arc a b n).2 → 0 < (arc a b n).2 → ∀ buffer,
    Draws screen (plotSteep (.atSteep a b (arc a b n)) (.atSteep a b (next a b (arc a b n))) buffer)
      buffer (fill (shape (arc a b n)) shade)
  rest : ∀ n, (arc a b n).2 = 0 → ∀ buffer,
    Draws screen (rest (.atSteep a b (arc a b n)) buffer) buffer (fill (shape (arc a b n)) shade)

variable (ha : 0 ≤ a) (hb : 0 ≤ b) (hplots : Plots a b plotFlat plotSteep rest shape shade)

include ha hb hplots

theorem draws_steepLoop (turns n : Nat) (hturns : turns = (arc a b n).2.toNat)
    (hsteep : ¬ Flat a b (arc a b n).1 (arc a b n).2) :
    Draws screen (steepLoop (a * a) (b * b) plotSteep rest turns (.atSteep a b (arc a b n)) buffer)
      buffer (fill (shapeFrom a b shape n) shade) := by
  have hinside := (onArc_arc ha hb n).inside
  induction turns generalizing n buffer with
  | zero =>
      have hy := hinside.bottom
      have hend : (arc a b n).2 = 0 := by omega
      rw [shapeFrom_end hinside.left hend.le]
      exact hplots.rest n hend buffer
  | succ turns ih =>
      have hpos : (Turn.atSteep a b (arc a b n)).y > 0 := by
        show 0 < (arc a b n).2
        omega
      have hnext : (arc a b n).1 ≤ (arc a b (n + 1)).1 ∧
          (arc a b (n + 1)).2 = (arc a b n).2 - 1 := by
        rw [arc_succ, next, if_neg hsteep, if_pos (show 0 < (arc a b n).2 from hpos)]
        split
        · exact ⟨by omega, rfl⟩
        · exact ⟨le_refl _, rfl⟩
      rw [steepLoop, if_pos hpos, steep_at hsteep hpos, shapeFrom_succ]
      refine (hplots.steep n hsteep hpos buffer).union fun buffer => ?_
      rw [← arc_succ]
      exact ih (n + 1) (by omega) (not_flat_of_le hsteep hnext.1 (by omega))
        (onArc_arc ha hb (n + 1)).inside

/-- From a turn in region 1 on, to the end. -/
theorem draws_flatLoop (turns n : Nat) (hturns : a ≤ turns + (arc a b n).1) :
    Draws screen
      (flatLoop (a * a) (b * b) plotFlat
        (fun t => steepLoop (a * a) (b * b) plotSteep rest t.y.toNat (.atSteep a b (t.x, t.y)))
        turns (.atFlat a b (arc a b n)) buffer)
      buffer (fill (shapeFrom a b shape n) shade) := by
  induction turns generalizing n buffer with
  | zero =>
      have hsteep : ¬ Flat a b (arc a b n).1 (arc a b n).2 := by
        intro hflat
        have hright := (onArc_next (onArc_arc ha hb n)).inside.right
        rw [next, if_pos hflat] at hright
        split at hright
        · simp only at hright
          omega
        · simp only at hright
          omega
      exact draws_steepLoop ha hb hplots _ n rfl hsteep
  | succ turns ih =>
      rw [flatLoop]
      by_cases hflat : Flat a b (arc a b n).1 (arc a b n).2
      · have hnext : (arc a b (n + 1)).1 = (arc a b n).1 + 1 := by
          rw [arc_succ, next, if_pos hflat]
          split <;> rfl
        rw [if_pos (flat_iff.mpr hflat), flat_at hflat, shapeFrom_succ]
        refine (hplots.flat n hflat buffer).union fun buffer => ?_
        rw [← arc_succ]
        exact ih (n + 1) (by push_cast at hturns; omega)
      · rw [if_neg (fun h => hflat (flat_iff.mp h))]
        exact draws_steepLoop ha hb hplots _ n rfl hflat

theorem draws_ellipse :
    Draws screen (drawEllipse a b plotFlat plotSteep rest buffer) buffer
      (fill (shapeFrom a b shape 0) shade) := by
  unfold drawEllipse
  simp only [steep_start, flat_start]
  refine draws_flatLoop ha hb hplots _ 0 ?_
  show a ≤ a.natAbs + 0
  omega

end Loops

/-! ## The outline -/

section Outline

variable {clip : Clip} {buffer : Buffer} {shade : Shade} {area : Set Point} {cX cY a b x y : Int}

/-- The four pixels at a point of the arc, and at its mirror images. -/
def fourWay (cX cY : Int) (p : Int × Int) : Set Point := {q | (|q.1 - cX|, |q.2 - cY|) = p}

/-- The pixels at the arc. -/
def outlineEllipse (cX cY a b : Int) : Set Point := {q | ∃ n, q ∈ fourWay cX cY (arc a b n)}

theorem fourWay_eq (hx : 0 ≤ x) (hy : 0 ≤ y) : fourWay cX cY (x, y) =
    {(cX + x, cY + y)} ∪ ({(cX + x, cY - y)} ∪ ({(cX - x, cY + y)} ∪ {(cX - x, cY - y)})) := by
  ext ⟨u, v⟩
  simp only [fourWay, Set.mem_ofPred_eq, Set.mem_union, Set.mem_singleton_iff, Prod.mk.injEq,
    Int.abs_eq_natAbs]
  omega

theorem draws_4WayClipped (hclip : clip.Valid) (hx : 0 ≤ x) (hy : 0 ≤ y) :
    Draws screen (drawPixel4WaySymmetricClipped clip buffer cX cY x y shade) buffer
      (fill (fourWay cX cY (x, y) ∩ clip.area) shade) := by
  simp only [fourWay_eq hx hy, Set.union_inter_distrib_right]
  exact (draws_pointClipped hclip).union fun _ => (draws_pointClipped hclip).union fun _ =>
    (draws_pointClipped hclip).union fun _ => draws_pointClipped hclip

theorem draws_4WayUnclipped (hclip : clip.Valid) (hwithin : wellWithin clip cX cY a b)
    (hx : 0 ≤ x) (hxa : x ≤ a) (hy : 0 ≤ y) (hyb : y ≤ b) :
    Draws screen (drawPixel4WaySymmetricUnclipped buffer cX cY x y shade) buffer
      (fill (fourWay cX cY (x, y) ∩ clip.area) shade) := by
  obtain ⟨hleft, htop, hwidth, hheight, hright, hbottom⟩ := hclip
  obtain ⟨hxLeft, hxRight, hyTop, hyBottom⟩ := hwithin
  have hin : fourWay cX cY (x, y) ∩ clip.area = fourWay cX cY (x, y) := by
    refine Set.inter_eq_left.mpr fun q hq => ?_
    rw [fourWay_eq hx hy] at hq
    obtain rfl | rfl | rfl | rfl := hq
    all_goals
      refine mem_rect.mpr ?_
      simp only
      omega
  have hpoint (u v : Int) (hu : |u - cX| ≤ a) (hv : |v - cY| ≤ b) (buffer : Buffer) :
      Draws screen (vfdlibDrawPointUnclipped buffer u v shade) buffer (fill {(u, v)} shade) := by
    rw [abs_le] at hu hv
    exact draws_point (mem_screen.mpr ⟨by simp only; omega, by simp only; omega⟩)
  have hcolumn : |cX + x - cX| ≤ a ∧ |cX - x - cX| ≤ a := by
    rw [abs_le, abs_le]
    omega
  have hrow : |cY + y - cY| ≤ b ∧ |cY - y - cY| ≤ b := by
    rw [abs_le, abs_le]
    omega
  rw [hin, fourWay_eq hx hy]
  exact (hpoint _ _ hcolumn.1 hrow.1 buffer).union fun buffer =>
    (hpoint _ _ hcolumn.1 hrow.2 buffer).union fun buffer =>
    (hpoint _ _ hcolumn.2 hrow.1 buffer).union fun buffer => hpoint _ _ hcolumn.2 hrow.2 buffer

/-- What is drawn in a turn. -/
def outlineStep (cX cY a b : Int) (area : Set Point) (p : Int × Int) : Set Point :=
  {q | 0 < p.2 ∧ q ∈ fourWay cX cY (next a b p) ∩ area}

theorem outlineStep_eq {p : Int × Int} (hpos : 0 < p.2) :
    outlineStep cX cY a b area p = fourWay cX cY (next a b p) ∩ area :=
  Set.ext fun _ => and_iff_right hpos

theorem outline_eq (ha : 0 ≤ a) (hb : 0 ≤ b) :
    fourWay cX cY (arc a b 0) ∩ area ∪ shapeFrom a b (outlineStep cX cY a b area) 0 =
      outlineEllipse cX cY a b ∩ area := by
  ext q
  constructor
  · rintro (⟨hq, harea⟩ | ⟨n, -, -, hq, harea⟩)
    · exact ⟨⟨0, hq⟩, harea⟩
    · exact ⟨⟨n + 1, arc_succ (a := a) (b := b) n ▸ hq⟩, harea⟩
  · rintro ⟨⟨n, hq⟩, harea⟩
    induction n with
    | zero => exact .inl ⟨hq, harea⟩
    | succ n ih =>
        by_cases hpos : 0 < (arc a b n).2
        · exact .inr ⟨n, Nat.zero_le n, hpos, arc_succ (a := a) (b := b) n ▸ hq, harea⟩
        · have hleft := (onArc_arc ha hb n).inside.left
          rw [arc_succ, next_end hleft (by omega)] at hq
          exact ih hq

theorem draws_outline {pixels : Int → Int → Buffer → Option Buffer} (ha : 0 ≤ a) (hb : 0 ≤ b)
    (hpixels : ∀ x y, 0 ≤ x → x ≤ a → 0 ≤ y → y ≤ b → ∀ buffer,
      Draws screen (pixels x y buffer) buffer (fill (fourWay cX cY (x, y) ∩ area) shade)) :
    Draws screen (drawOutlineEllipse pixels a b buffer) buffer
      (fill (outlineEllipse cX cY a b ∩ area) shade) := by
  have hnext (n : Nat) (hpos : 0 < (arc a b n).2) (buffer : Buffer) :
      Draws screen (pixels (next a b (arc a b n)).1 (next a b (arc a b n)).2 buffer) buffer
        (fill (outlineStep cX cY a b area (arc a b n)) shade) := by
    obtain ⟨hx, hxa, hy, hyb⟩ := (onArc_next (onArc_arc ha hb n)).inside
    rw [outlineStep_eq hpos]
    exact hpixels _ _ hx hxa hy hyb buffer
  rw [← outline_eq ha hb]
  refine (hpixels 0 b (le_refl 0) ha hb (le_refl b) buffer).union fun buffer => ?_
  refine draws_ellipse ha hb ⟨fun n hflat => ?_, fun n _ hpos => hnext n hpos, ?_⟩
  · exact hnext n (hflat.pos (onArc_arc ha hb n).inside.left).1
  · intro n hend buffer
    have hempty : outlineStep cX cY a b area (arc a b n) = ∅ :=
      Set.eq_empty_of_forall_notMem fun q hq => absurd hq.1 (by omega)
    rw [hempty]
    exact .nothing

/-- **The outline is drawn as far as it is in the clip area**, on both ways. -/
theorem draws_outlineEllipse (hclip : clip.Valid) (ha : 0 ≤ a) (hb : 0 ≤ b) :
    Draws screen (vfdlibDrawOutlineEllipseClipped clip buffer cX cY a b shade) buffer
      (fill (outlineEllipse cX cY a b ∩ clip.area) shade) := by
  unfold vfdlibDrawOutlineEllipseClipped
  split
  · next hwithin =>
      exact draws_outline ha hb fun x y hx hxa hy hyb _ =>
        draws_4WayUnclipped hclip hwithin hx hxa hy hyb
  · exact draws_outline ha hb fun x y hx _ hy _ _ => draws_4WayClipped hclip hx hy

theorem outline_near {q : Point} (ha : 0 ≤ a) (hb : 0 ≤ b) (hq : q ∈ outlineEllipse cX cY a b) :
    NearColumn a b |q.1 - cX| |q.2 - cY| ∨ NearRow a b |q.1 - cX| |q.2 - cY| := by
  obtain ⟨n, hq⟩ := hq
  have hnear := near_arc ha hb n
  rw [← show (|q.1 - cX|, |q.2 - cY|) = arc a b n from hq] at hnear
  exact hnear

theorem outline_row (ha : 0 ≤ a) (hb : 0 ≤ b) {v : Int} (hv : |v - cY| ≤ b) :
    ∃ u, (u, v) ∈ outlineEllipse cX cY a b := by
  obtain ⟨n, hrow⟩ := exists_row ha hb (abs_nonneg (v - cY)) hv
  have hx := (onArc_arc ha hb n).inside.left
  refine ⟨cX + (arc a b n).1, n, Prod.ext ?_ hrow.symm⟩
  show |cX + (arc a b n).1 - cX| = (arc a b n).1
  rw [add_sub_cancel_left, abs_of_nonneg hx]

/-- **The outline is drawn where the exact ellipse is**: the ellipse passes less than one step from each
pixel, no row of it is without one, and what of it is in the clip area is drawn. -/
theorem drawOutlineEllipse_near (hclip : clip.Valid) (ha : 0 ≤ a) (hb : 0 ≤ b) (buffer : Buffer)
    (cX cY : Int) (shade : Shade) :
    Draws screen (vfdlibDrawOutlineEllipseClipped clip buffer cX cY a b shade) buffer
        (fill (outlineEllipse cX cY a b ∩ clip.area) shade) ∧
      (∀ q ∈ outlineEllipse cX cY a b,
        NearColumn a b |q.1 - cX| |q.2 - cY| ∨ NearRow a b |q.1 - cX| |q.2 - cY|) ∧
      ∀ v, |v - cY| ≤ b → ∃ u, (u, v) ∈ outlineEllipse cX cY a b :=
  ⟨draws_outlineEllipse hclip ha hb, fun _ hq => outline_near ha hb hq,
    fun _ hv => outline_row ha hb hv⟩

theorem drawOutlineEllipse_near_wide :
    ∃ u, (u, 20) ∈ outlineEllipse 64 16 70 12 :=
  (drawOutlineEllipse_near Clip.valid_initial (show (0 : Int) ≤ 70 by decide)
    (show (0 : Int) ≤ 12 by decide) (.replicate 2048 0) 64 16 3).2.2 20 (by decide)

end Outline

/-! ## The solid ellipse -/

section Solid

variable {clip : Clip} {buffer : Buffer} {shade : Shade} {area : Set Point} {cX cY a b x y : Int}

/-- The pixels of a row and of its mirror image. As in all spans the right end is excluded. -/
def rows (cX cY y x : Int) : Set Point := {q | |q.2 - cY| = y ∧ cX - x ≤ q.1 ∧ q.1 < cX + x}

/-- The rows of all points of the arc. -/
def solidEllipse (cX cY a b : Int) : Set Point :=
  {q | ∃ n, q ∈ rows cX cY (arc a b n).2 (reach a b (arc a b n))}

theorem rows_eq (hy : 0 ≤ y) : rows cX cY y x =
    rect (cX - x) (cY + y) (cX + x) (cY + y + 1) ∪
      rect (cX - x) (cY + -y) (cX + x) (cY + -y + 1) := by
  ext q
  simp only [rows, Set.mem_ofPred_eq, Set.mem_union, mem_rect, Int.abs_eq_natAbs]
  omega

theorem rows_mono {x' : Int} (h : x ≤ x') : rows cX cY y x ⊆ rows cX cY y x' := by
  rintro q ⟨hrow, hleft, hright⟩
  exact ⟨hrow, by omega, by omega⟩

theorem rows_zero : rows cX cY y 0 = ∅ :=
  Set.eq_empty_of_forall_notMem fun q hq => absurd hq.2 (by omega)

/-- How far the rows of a turn are drawn. In region 1 only the last turn of a row draws it. -/
def width (a b : Int) (p : Int × Int) : Int :=
  if Flat a b p.1 p.2 ∧ excess a b (2 * p.1 + 2) (2 * p.2 - 1) < 0 then 0 else reach a b p

def solidStep (cX cY a b : Int) (area : Set Point) (p : Int × Int) : Set Point :=
  rows cX cY p.2 (width a b p) ∩ area

theorem width_le {n : Nat} (ha : 0 ≤ a) (hb : 0 ≤ b) :
    width a b (arc a b n) ≤ reach a b (arc a b n) := by
  have hx := (onArc_arc ha hb n).inside.left
  have hreach := le_reach (a := a) (b := b) (arc a b n)
  unfold width
  split
  · omega
  · exact le_refl _

/-- No row is lost for being drawn in its last turn only. -/
theorem solid_eq (ha : 0 ≤ a) (hb : 0 ≤ b) :
    shapeFrom a b (solidStep cX cY a b area) 0 = solidEllipse cX cY a b ∩ area := by
  ext q
  constructor
  · rintro ⟨n, -, hq, harea⟩
    exact ⟨⟨n, rows_mono (width_le ha hb) hq⟩, harea⟩
  · rintro ⟨⟨n, hq⟩, harea⟩
    obtain ⟨m, hrow, hfar, hlast⟩ := exists_last ha hb n
    refine ⟨m, Nat.zero_le m, ?_, harea⟩
    rw [width, if_neg hlast, hrow]
    exact rows_mono hfar hq

theorem draws_solid {row : Int → Int → Buffer → Option Buffer} (ha : 0 ≤ a) (hb : 0 ≤ b)
    (hrow : ∀ y x, -b ≤ y → y ≤ b → x ≤ a → ∀ buffer, Draws screen (row y x buffer) buffer
      (fill (rect (cX - x) (cY + y) (cX + x) (cY + y + 1) ∩ area) shade)) :
    Draws screen (drawSolidEllipse row a b buffer) buffer
      (fill (solidEllipse cX cY a b ∩ area) shade) := by
  have hrows (y x : Int) (hy : 0 ≤ y) (hyb : y ≤ b) (hx : x ≤ a) (buffer : Buffer) :
      Draws screen ((row y x buffer).bind (row (-y) x)) buffer
        (fill (rows cX cY y x ∩ area) shade) := by
    rw [rows_eq hy, Set.union_inter_distrib_right]
    exact (hrow y x (by omega) hyb hx buffer).union
      fun buffer => hrow (-y) x (by omega) (by omega) hx buffer
  rw [← solid_eq ha hb]
  refine draws_ellipse ha hb ⟨fun n hflat buffer => ?_, fun n hsteep hpos buffer => ?_,
    fun n hend buffer => ?_⟩
  · obtain ⟨hx, hxa, hy, hyb⟩ := (onArc_arc ha hb n).inside
    show Draws screen (if excess a b (2 * (arc a b n).1 + 2) (2 * (arc a b n).2 - 1) < 0 then
      some buffer else (row (arc a b n).2 (arc a b n).1 buffer).bind
        (row (-(arc a b n).2) (arc a b n).1)) buffer _
    unfold solidStep width
    split
    · next hin =>
        rw [if_pos ⟨hflat, hin⟩, rows_zero, Set.empty_inter]
        exact .nothing
    · next hout =>
        rw [if_neg (fun h => hout h.2), reach, if_pos hflat]
        exact hrows _ _ hy hyb hxa buffer
  · obtain ⟨hx, hxa, hy, hyb⟩ := (onArc_arc ha hb n).inside
    rw [solidStep, width, if_neg (fun h => hsteep h.1), reach, if_neg hsteep]
    exact hrows _ _ hy hyb (onArc_next (onArc_arc ha hb n)).inside.right buffer
  · obtain ⟨hx, hxa, hy, hyb⟩ := (onArc_arc ha hb n).inside
    have hsteep : ¬ Flat a b (arc a b n).1 (arc a b n).2 :=
      fun hflat => absurd (hflat.pos hx).1 (by omega)
    have hone : rows cX cY 0 (arc a b n).1 = rect (cX - (arc a b n).1) (cY + 0)
        (cX + (arc a b n).1) (cY + 0 + 1) := by
      rw [rows_eq (le_refl 0), neg_zero, Set.union_self]
    rw [solidStep, width, if_neg (fun h => hsteep h.1), reach, if_neg hsteep,
      next_end hx hend.le, hend, hone]
    exact hrow 0 _ (by omega) hb hxa buffer

/-- **The solid ellipse is drawn as far as it is in the clip area**, on both ways. -/
theorem draws_solidEllipse (hclip : clip.Valid) (ha : 0 ≤ a) (hb : 0 ≤ b) :
    Draws screen (vfdlibDrawSolidEllipseClipped clip buffer cX cY a b shade) buffer
      (fill (solidEllipse cX cY a b ∩ clip.area) shade) := by
  unfold vfdlibDrawSolidEllipseClipped
  split
  · next hwithin =>
      refine draws_solid ha hb fun y x hy hyb hx buffer => ?_
      obtain ⟨hleft, htop, hwidth, hheight, hright, hbottom⟩ := hclip
      obtain ⟨hxLeft, hxRight, hyTop, hyBottom⟩ := hwithin
      have hlength : 2 * x = cX + x - (cX - x) := by omega
      have hin : rect (cX - x) (cY + y) (cX + x) (cY + y + 1) ∩ clip.area =
          rect (cX - x) (cY + y) (cX + x) (cY + y + 1) := by
        refine Set.inter_eq_left.mpr fun q hq => ?_
        have hq := mem_rect.mp hq
        exact mem_rect.mpr (by omega)
      rw [hin, hlength]
      exact draws_horiz (by omega) (by omega) (by omega)
  · exact draws_solid ha hb fun y x _ _ _ _ => draws_horizClipped hclip

theorem mem_solidEllipse {u v : Int} (ha : 0 ≤ a) (hb : 0 ≤ b)
    (hin : excess a b (2 * |u| + 2) (2 * |v| + 1) < 0) :
    (cX + u, cY + v) ∈ solidEllipse cX cY a b := by
  have hv := lt_of_excess_neg hb (excess_comm ▸ hin)
  obtain ⟨n, hn⟩ := exists_row ha hb (abs_nonneg v) (by omega)
  have hreach := le_reach (a := a) (b := b) (arc a b n)
  have hlt := (onArc_arc ha hb n).lt_of_excess_neg (hn.symm ▸ hin)
  have hu := abs_lt.mp (hlt.trans_le hreach)
  refine ⟨n, ?_, by omega, by omega⟩
  show |cY + v - cY| = _
  rw [add_sub_cancel_left, hn]

theorem excess_of_solidEllipse {u v : Int} (ha : 0 ≤ a) (hb : 0 ≤ b)
    (hmem : (cX + u, cY + v) ∈ solidEllipse cX cY a b) :
    excess a b (2 * u + 1) (max (2 * |v| - 2) 0) ≤ 0 := by
  obtain ⟨n, hrow, hleft, hright⟩ := hmem
  simp only [add_sub_cancel_left] at hrow hleft hright
  have hpoint := onArc_arc ha hb n
  rw [hrow]
  rcases le_or_gt 0 u with hu | hu
  · exact hpoint.excess_reach hu (by omega)
  · have hmirror : 2 * u + 1 = -(2 * (-u - 1) + 1) := by ring
    rw [hmirror, excess_neg]
    exact hpoint.excess_reach (by omega) (by omega)

/-- **The inside of the ellipse is filled**: a pixel is drawn if the point one column and half a row
further out is still within the exact ellipse, and it is not drawn if even the row further in is outside
of the ellipse where the middle of the pixel is. -/
theorem drawSolidEllipse_fills (hclip : clip.Valid) (ha : 0 ≤ a) (hb : 0 ≤ b) (buffer : Buffer)
    (cX cY : Int) (shade : Shade) :
    Draws screen (vfdlibDrawSolidEllipseClipped clip buffer cX cY a b shade) buffer
        (fill (solidEllipse cX cY a b ∩ clip.area) shade) ∧
      ∀ u v, (excess a b (2 * |u| + 2) (2 * |v| + 1) < 0 →
          (cX + u, cY + v) ∈ solidEllipse cX cY a b) ∧
        ((cX + u, cY + v) ∈ solidEllipse cX cY a b →
          excess a b (2 * u + 1) (max (2 * |v| - 2) 0) ≤ 0) :=
  ⟨draws_solidEllipse hclip ha hb, fun _ _ =>
    ⟨mem_solidEllipse ha hb, excess_of_solidEllipse ha hb⟩⟩

theorem drawSolidEllipse_fills_wide : (64 + 60, 16 + -3) ∈ solidEllipse 64 16 70 12 :=
  ((drawSolidEllipse_fills Clip.valid_initial (show (0 : Int) ≤ 70 by decide)
    (show (0 : Int) ≤ 12 by decide) (.replicate 2048 0) 64 16 3).2 60 (-3)).1 (by decide)

end Solid

end Squash.Vfd
