import Mathlib.Algebra.Order.Ring.Abs
import Mathlib.Logic.Function.Iterate
import Mathlib.Tactic.Linarith
import Mathlib.Tactic.Ring

/-!
# Digital ellipses

The upper right quarter of the ellipse with the half axes `a` and `b` starts at its top, `(0, b)`, and
goes down to the right. While it is flat each step goes one to the right, and where it is steep each
step goes one down. Whether it goes diagonally is decided by which side of the ellipse the point halfway
between the two candidates is on. `excess` tells the side, and can be kept by additions alone.

The point taken is the nearest one except at the end of each part, where the ellipse bends most; but the
ellipse always passes less than one step from it (`near_arc`).

An ellipse is filled by rows, up to the point of the arc or to the next one (`reach`). That keeps within
the ellipse but for a row (`OnArc.excess_reach`), and leaves nothing out but a column
(`OnArc.lt_of_excess_neg`).
-/

namespace DigitalEllipse

variable {a b x y : Int}

/-- How far `(x / 2, y / 2)` is outside of the ellipse, up to a factor. -/
def excess (a b x y : Int) : Int := b ^ 2 * x ^ 2 + a ^ 2 * y ^ 2 - 4 * a ^ 2 * b ^ 2

/-- The ellipse falls by less than one at the next step to the right. -/
def Flat (a b x y : Int) : Prop := 2 * a ^ 2 * y - a ^ 2 > 2 * b ^ 2 * (x + 1)

instance : Decidable (Flat a b x y) := inferInstanceAs (Decidable (_ > _))

/-- The next point. -/
def next (a b : Int) (p : Int × Int) : Int × Int :=
  if Flat a b p.1 p.2 then
    if excess a b (2 * p.1 + 2) (2 * p.2 - 1) < 0 then (p.1 + 1, p.2) else (p.1 + 1, p.2 - 1)
  else if 0 < p.2 then
    if excess a b (2 * p.1 + 1) (2 * p.2 - 2) < 0 then (p.1 + 1, p.2 - 1) else (p.1, p.2 - 1)
  else p

/-- The points one after another. The last one is repeated. -/
def arc (a b : Int) (n : Nat) : Int × Int := (next a b)^[n] (0, b)

/-! ## Where the points are -/

structure Inside (a b x y : Int) : Prop where
  left : 0 ≤ x
  right : x ≤ a
  bottom : 0 ≤ y
  top : y ≤ b

/-- The ellipse crosses the column of the point between the next row below it and halfway to the row
above it. -/
structure NearColumn (a b x y : Int) : Prop where
  above : 0 ≤ excess a b (2 * x) (2 * y + 1)
  below : y = 0 ∨ excess a b (2 * x) (2 * y - 2) ≤ 0

/-- The ellipse crosses the row of the point between halfway to the column on the left and the next
column on the right. -/
structure NearRow (a b x y : Int) : Prop where
  left : x = 0 ∨ excess a b (2 * x - 1) (2 * y) ≤ 0
  right : 0 ≤ excess a b (2 * x + 2) (2 * y)

/-- What is known of a point in the flat part, and of the first one behind it. -/
structure FlatPoint (a b x y : Int) : Prop where
  inside : Inside a b x y
  near : NearColumn a b x y
  /-- The ellipse is not halfway to the row below yet, if it goes on to be flat. -/
  half : Flat a b x y → excess a b (2 * x) (2 * y - 1) ≤ 0

structure SteepPoint (a b x y : Int) : Prop where
  inside : Inside a b x y
  near : NearRow a b x y
  steep : ¬ Flat a b x y

theorem Flat.pos (h : Flat a b x y) (hx : 0 ≤ x) : 0 < y ∧ a ≠ 0 := by
  unfold Flat at h
  have hb : 0 ≤ b ^ 2 * x := mul_nonneg (sq_nonneg b) hx
  have hb' := sq_nonneg b
  constructor
  · by_contra hy
    have ha : a ^ 2 * y ≤ 0 := mul_nonpos_of_nonneg_of_nonpos (sq_nonneg a) (by omega)
    linarith [sq_nonneg a]
  · rintro rfl
    linarith

/-! ## Which side a point is on -/

theorem excess_mono {x' y' : Int} (hx : 0 ≤ x) (hxx' : x ≤ x') (hy : 0 ≤ y) (hyy' : y ≤ y') :
    excess a b x y ≤ excess a b x' y' := by
  have hb := mul_le_mul_of_nonneg_left (pow_le_pow_left₀ hx hxx' 2) (sq_nonneg b)
  have ha := mul_le_mul_of_nonneg_left (pow_le_pow_left₀ hy hyy' 2) (sq_nonneg a)
  unfold excess
  linarith

/-- A point within the ellipse is not to the right of it. -/
theorem lt_of_excess_neg (ha : 0 ≤ a) (h : excess a b x y < 0) : x < 2 * a := by
  by_contra hx
  have hout := mul_le_mul_of_nonneg_left
    (pow_le_pow_left₀ (show 0 ≤ 2 * a by omega) (show 2 * a ≤ x by omega) 2) (sq_nonneg b)
  have hy : 0 ≤ a ^ 2 * y ^ 2 := mul_nonneg (sq_nonneg a) (sq_nonneg y)
  unfold excess at h
  linarith

/-! ## The flat part -/

theorem flatPoint_start (ha : 0 ≤ a) (hb : 0 ≤ b) : FlatPoint a b 0 b := by
  have ha2 := sq_nonneg a
  have hab : 0 ≤ a ^ 2 * b := mul_nonneg ha2 hb
  have hab' : 0 < b → a ^ 2 * 1 ≤ a ^ 2 * b := fun hb => mul_le_mul_of_nonneg_left hb ha2
  refine ⟨⟨le_refl 0, ha, hb, le_refl b⟩, ⟨by unfold excess; linarith, ?_⟩, ?_⟩
  · rcases hb.eq_or_lt with hb | hb
    · exact .inl hb.symm
    · right
      unfold excess
      linarith [hab' hb]
  · intro hflat
    unfold excess
    linarith [hab' (hflat.pos (le_refl 0)).1]

/-- A step to the right: the point halfway down is still within the ellipse. -/
theorem FlatPoint.along (h : FlatPoint a b x y) (hflat : Flat a b x y)
    (hin : excess a b (2 * x + 2) (2 * y - 1) < 0) : FlatPoint a b (x + 1) y := by
  obtain ⟨⟨hx, hxa, hy, hyb⟩, ⟨habove, -⟩, -⟩ := h
  have hpos := (hflat.pos hx).1
  have hlt := lt_of_excess_neg (by omega) hin
  have hnext : 2 * (x + 1) = 2 * x + 2 := by ring
  refine ⟨⟨by omega, by omega, hy, hyb⟩, ⟨?_, .inr ?_⟩, fun _ => hnext ▸ hin.le⟩
  · exact habove.trans (excess_mono (by omega) (by omega) (by omega) (le_refl _))
  · rw [hnext]
    exact (excess_mono (by omega) (le_refl _) (by omega) (by omega)).trans hin.le

/-- A diagonal step: the point halfway down is on the ellipse or outside of it. -/
theorem FlatPoint.diagonal (h : FlatPoint a b x y) (hflat : Flat a b x y)
    (hout : 0 ≤ excess a b (2 * x + 2) (2 * y - 1)) : FlatPoint a b (x + 1) (y - 1) := by
  obtain ⟨⟨hx, hxa, hy, hyb⟩, -, hhalf⟩ := h
  obtain ⟨hpos, hane⟩ := hflat.pos hx
  have hhalf := hhalf hflat
  have ha2 : 0 < a ^ 2 := pow_pos (by omega) 2
  have hb2 : 0 ≤ b ^ 2 := sq_nonneg b
  have hright : x + 1 ≤ a := by
    have hin : excess a b (2 * x) 0 < 0 := by
      have hrow : a ^ 2 * 1 ≤ a ^ 2 * (2 * y - 1) ^ 2 :=
        mul_le_mul_of_nonneg_left (one_le_pow₀ (by omega)) ha2.le
      unfold excess at hhalf ⊢
      linarith
    have hlt := lt_of_excess_neg (by omega) hin
    omega
  have hnext : 2 * (x + 1) = 2 * x + 2 := by ring
  have hup : 2 * (y - 1) + 1 = 2 * y - 1 := by ring
  refine ⟨⟨by omega, hright, by omega, by omega⟩, ⟨by rw [hnext, hup]; exact hout, ?_⟩, ?_⟩
  · by_cases hlast : y - 1 = 0
    · exact .inl hlast
    right
    by_cases htwo : y = 2
    · subst htwo
      have hmono := excess_mono (a := a) (b := b) (show 0 ≤ 2 * (x + 1) by omega)
        (show 2 * (x + 1) ≤ 2 * a by omega) (le_refl (0 : Int)) (le_refl 0)
      unfold excess at hmono ⊢
      linarith
    · -- the step goes down by at most `4 * a ^ 2` more than to the ellipse
      have hy3 : a ^ 2 * 3 ≤ a ^ 2 * y := mul_le_mul_of_nonneg_left (by omega) ha2.le
      unfold excess at hhalf ⊢
      unfold Flat at hflat
      linarith
  · intro hflat'
    unfold excess at hhalf ⊢
    unfold Flat at hflat'
    linarith

/-! ## The steep part -/

theorem not_flat_of_le {x' y' : Int} (h : ¬ Flat a b x y) (hx : x ≤ x') (hy : y' ≤ y) :
    ¬ Flat a b x' y' := by
  have hb := mul_le_mul_of_nonneg_left hx (sq_nonneg b)
  have ha := mul_le_mul_of_nonneg_left hy (sq_nonneg a)
  unfold Flat at h ⊢
  linarith

/-- Behind the flat part the ellipse is at most two steps to the right. -/
theorem FlatPoint.two_steps (h : FlatPoint a b x y) (hsteep : ¬ Flat a b x y) (hpos : 0 < y) :
    0 ≤ excess a b (2 * x + 4) (2 * y - 2) := by
  obtain ⟨⟨hx, hxa, hy, hyb⟩, ⟨habove, -⟩, -⟩ := h
  have ha2 := sq_nonneg a
  have hb2 := sq_nonneg b
  by_cases hone : y = 1
  · subst hone
    by_contra hin
    have hlt := lt_of_excess_neg (by omega) (not_le.mp hin)
    -- the ellipse would be three steps away, but falls by less than three halves
    have hfar : b ^ 2 * ((x + 3) ^ 2 - x ^ 2) ≤ b ^ 2 * (a ^ 2 - x ^ 2) :=
      mul_le_mul_of_nonneg_left
        (sub_le_sub_right (pow_le_pow_left₀ (by omega) (by omega) 2) _) hb2
    have ha1 : 1 ≤ a ^ 2 := one_le_pow₀ (by omega)
    have hbx : 0 ≤ b ^ 2 * x := mul_nonneg hb2 hx
    unfold Flat at hsteep
    unfold excess at habove
    linarith
  · have hy2 : a ^ 2 * 2 ≤ a ^ 2 * y := mul_le_mul_of_nonneg_left (by omega) ha2
    unfold Flat at hsteep
    unfold excess at habove ⊢
    linarith

/-- A step down: the point halfway to the right is on the ellipse or outside of it. -/
theorem steepPoint_down (hinside : Inside a b x y) (hsteep : ¬ Flat a b x y) (hpos : 0 < y)
    (hleft : x = 0 ∨ excess a b (2 * x - 1) (2 * y - 2) ≤ 0)
    (hout : 0 ≤ excess a b (2 * x + 1) (2 * y - 2)) : SteepPoint a b x (y - 1) := by
  obtain ⟨hx, hxa, hy, hyb⟩ := hinside
  have hnext : 2 * (y - 1) = 2 * y - 2 := by ring
  refine ⟨⟨hx, hxa, by omega, by omega⟩, ⟨hnext ▸ hleft, ?_⟩,
    not_flat_of_le hsteep (le_refl x) (by omega)⟩
  rw [hnext]
  exact hout.trans (excess_mono (by omega) (by omega) (by omega) (le_refl _))

/-- A diagonal step: the point halfway to the right is still within the ellipse. -/
theorem steepPoint_diagonal (hinside : Inside a b x y) (hsteep : ¬ Flat a b x y) (hpos : 0 < y)
    (hin : excess a b (2 * x + 1) (2 * y - 2) < 0)
    (hright : 0 ≤ excess a b (2 * x + 4) (2 * y - 2)) : SteepPoint a b (x + 1) (y - 1) := by
  obtain ⟨hx, hxa, hy, hyb⟩ := hinside
  have hlt := lt_of_excess_neg (by omega) hin
  have hleft : 2 * (x + 1) - 1 = 2 * x + 1 := by ring
  have hnext : 2 * (y - 1) = 2 * y - 2 := by ring
  have hfar : 2 * (x + 1) + 2 = 2 * x + 4 := by ring
  refine ⟨⟨by omega, by omega, by omega, by omega⟩, ⟨.inr ?_, ?_⟩,
    not_flat_of_le hsteep (by omega) (by omega)⟩
  · rw [hleft, hnext]
    exact hin.le
  · rw [hfar, hnext]
    exact hright

theorem SteepPoint.two_steps (h : SteepPoint a b x y) :
    0 ≤ excess a b (2 * x + 4) (2 * y - 2) := by
  obtain ⟨-, ⟨-, hright⟩, hsteep⟩ := h
  have hb2 := sq_nonneg b
  unfold Flat at hsteep
  unfold excess at hright ⊢
  linarith

/-! ## Every point -/

/-- What is known of each point. -/
def OnArc (a b x y : Int) : Prop := FlatPoint a b x y ∨ SteepPoint a b x y

theorem OnArc.inside (h : OnArc a b x y) : Inside a b x y := h.elim (·.inside) (·.inside)

theorem OnArc.two_steps (h : OnArc a b x y) (hsteep : ¬ Flat a b x y) (hpos : 0 < y) :
    0 ≤ excess a b (2 * x + 4) (2 * y - 2) :=
  h.elim (·.two_steps hsteep hpos) (·.two_steps)

/-- The row below is reached within the ellipse. -/
theorem OnArc.row_below (h : OnArc a b x y) (hpos : 0 < y) :
    x = 0 ∨ excess a b (2 * x - 1) (2 * y - 2) ≤ 0 := by
  obtain ⟨hx, hxa, hy, hyb⟩ := h.inside
  rcases hx.eq_or_lt with hx | hx
  · exact .inl hx.symm
  right
  rcases h with h | h
  · have hbelow := h.near.below.resolve_left (by omega)
    exact (excess_mono (by omega) (by omega) (by omega) (le_refl _)).trans hbelow
  · have hleft := h.near.left.resolve_left (by omega)
    exact (excess_mono (by omega) (le_refl _) (by omega) (by omega)).trans hleft

theorem onArc_next {p : Int × Int} (h : OnArc a b p.1 p.2) :
    OnArc a b (next a b p).1 (next a b p).2 := by
  obtain ⟨x, y⟩ := p
  unfold next
  by_cases hflat : Flat a b x y
  · rw [if_pos hflat]
    have hpoint := h.resolve_right fun hsteep => hsteep.steep hflat
    split
    · next hin => exact .inl (hpoint.along hflat hin)
    · next hout => exact .inl (hpoint.diagonal hflat (not_lt.mp hout))
  · rw [if_neg hflat]
    split
    · next hpos =>
        right
        split
        · next hin => exact steepPoint_diagonal h.inside hflat hpos hin (h.two_steps hflat hpos)
        · next hout => exact steepPoint_down h.inside hflat hpos (h.row_below hpos) (not_lt.mp hout)
    · exact h

theorem onArc_arc (ha : 0 ≤ a) (hb : 0 ≤ b) (n : Nat) : OnArc a b (arc a b n).1 (arc a b n).2 := by
  induction n with
  | zero => exact .inl (flatPoint_start ha hb)
  | succ n ih =>
      rw [arc, Function.iterate_succ_apply']
      exact onArc_next ih

/-- **The ellipse passes near every point**, above or below it, or left or right of it. -/
theorem near_arc (ha : 0 ≤ a) (hb : 0 ≤ b) (n : Nat) :
    NearColumn a b (arc a b n).1 (arc a b n).2 ∨ NearRow a b (arc a b n).1 (arc a b n).2 :=
  (onArc_arc ha hb n).imp (·.near) (·.near)

/-! ## The way from the top to the right -/

theorem arc_succ (n : Nat) : arc a b (n + 1) = next a b (arc a b n) :=
  Function.iterate_succ_apply' ..

theorem row_next (p : Int × Int) : p.2 - 1 ≤ (next a b p).2 := by
  grind [next]

/-- Each step comes nearer to the right end, or down. -/
theorem next_measure {p : Int × Int} (hpos : 0 < p.2) :
    p.1 - p.2 < (next a b p).1 - (next a b p).2 := by
  grind [next]

theorem next_end {p : Int × Int} (hx : 0 ≤ p.1) (hend : p.2 ≤ 0) : next a b p = p := by
  have hsteep : ¬ Flat a b p.1 p.2 := fun hflat => absurd (hflat.pos hx).1 (by omega)
  rw [next, if_neg hsteep, if_neg (by omega)]

/-- The arc ends on the axis, after `a + b` steps at most. -/
theorem arc_end (ha : 0 ≤ a) (hb : 0 ≤ b) : ∃ n, (arc a b n).2 = 0 := by
  have hfar : ∀ n : Nat, 0 < (arc a b n).2 → n - b ≤ (arc a b n).1 - (arc a b n).2 := by
    intro n
    induction n with
    | zero => exact fun _ => by simp [arc]
    | succ n ih =>
        intro hpos
        have hinside := (onArc_arc ha hb n).inside
        have hpos' : 0 < (arc a b n).2 := by
          by_contra hend
          rw [arc_succ, next_end hinside.left (by omega)] at hpos
          omega
        have hmeasure := next_measure (a := a) (b := b) hpos'
        rw [arc_succ]
        have := ih hpos'
        push_cast
        omega
  refine ⟨(a + b + 1).toNat, ?_⟩
  obtain ⟨hx, hxa, hy, -⟩ := (onArc_arc ha hb (a + b + 1).toNat).inside
  by_contra hend
  have := hfar (a + b + 1).toNat (by omega)
  omega

/-- **No row is left out.** -/
theorem exists_row (ha : 0 ≤ a) (hb : 0 ≤ b) {v : Int} (hv : 0 ≤ v) (hvb : v ≤ b) :
    ∃ n, (arc a b n).2 = v := by
  obtain ⟨last, hlast⟩ := arc_end ha hb
  have hrows : ∀ n, (arc a b n).2 ≤ v → ∃ m, (arc a b m).2 = v := by
    intro n
    induction n with
    | zero => exact fun h => ⟨0, le_antisymm h hvb⟩
    | succ n ih =>
        intro h
        by_cases habove : (arc a b n).2 ≤ v
        · exact ih habove
        · have hstep := row_next (a := a) (b := b) (arc a b n)
          rw [← arc_succ] at hstep
          exact ⟨n + 1, by omega⟩
  exact hrows last (hlast ▸ hv)

/-! ## Rows -/

/-- How far the row of a point is filled: to the point, and in the steep part to the next one. -/
def reach (a b : Int) (p : Int × Int) : Int := if Flat a b p.1 p.2 then p.1 else (next a b p).1

theorem le_reach (p : Int × Int) : p.1 ≤ reach a b p := by
  grind [reach, next]

/-- In the flat part the last point of a row is the one before a diagonal step. -/
theorem exists_last (ha : 0 ≤ a) (hb : 0 ≤ b) (n : Nat) :
    ∃ m, (arc a b m).2 = (arc a b n).2 ∧ reach a b (arc a b n) ≤ reach a b (arc a b m) ∧
      ¬ (Flat a b (arc a b m).1 (arc a b m).2 ∧
        excess a b (2 * (arc a b m).1 + 2) (2 * (arc a b m).2 - 1) < 0) := by
  by_cases hend : Flat a b (arc a b n).1 (arc a b n).2 ∧
      excess a b (2 * (arc a b n).1 + 2) (2 * (arc a b n).2 - 1) < 0
  · have hnext : arc a b (n + 1) = ((arc a b n).1 + 1, (arc a b n).2) := by
      rw [arc_succ, next, if_pos hend.1, if_pos hend.2]
    have hcolumn : (arc a b (n + 1)).1 = (arc a b n).1 + 1 := by rw [hnext]
    have hright := (onArc_arc ha hb (n + 1)).inside.right
    obtain ⟨m, hrow, hfar, hlast⟩ := exists_last ha hb (n + 1)
    refine ⟨m, by rw [hrow, hnext], le_trans ?_ hfar, hlast⟩
    calc reach a b (arc a b n) = (arc a b n).1 := if_pos hend.1
      _ ≤ (arc a b (n + 1)).1 := by omega
      _ ≤ reach a b (arc a b (n + 1)) := le_reach _
  · exact ⟨n, rfl, le_refl _, hend⟩
termination_by (a - (arc a b n).1).toNat

theorem excess_comm : excess a b x y = excess b a y x := by
  unfold excess
  ring

theorem excess_neg : excess a b (-x) y = excess a b x y := by
  unfold excess
  ring

/-- The row is filled where the point one further out, and half a row, is still within the ellipse. -/
theorem OnArc.lt_of_excess_neg {u : Int} (h : OnArc a b x y)
    (hin : excess a b (2 * u + 2) (2 * y + 1) < 0) : u < x := by
  obtain ⟨hx, -, hy, -⟩ := h.inside
  by_contra hfar
  rcases h with h | h
  · have hmono : excess a b (2 * x) (2 * y + 1) ≤ excess a b (2 * u + 2) (2 * y + 1) :=
      excess_mono (by omega) (by omega) (by omega) (le_refl _)
    exact absurd hin (not_lt.mpr (h.near.above.trans hmono))
  · have hmono : excess a b (2 * x + 2) (2 * y) ≤ excess a b (2 * u + 2) (2 * y + 1) :=
      excess_mono (by omega) (by omega) (by omega) (by omega)
    exact absurd hin (not_lt.mpr (h.near.right.trans hmono))

/-- What is filled is within the ellipse, or at most one row above it. -/
theorem OnArc.excess_reach {p : Int × Int} {u : Int} (h : OnArc a b p.1 p.2) (hu : 0 ≤ u)
    (hreach : u < reach a b p) : excess a b (2 * u + 1) (max (2 * p.2 - 2) 0) ≤ 0 := by
  obtain ⟨hx, hxa, hy, -⟩ := h.inside
  unfold reach at hreach
  split at hreach
  · next hflat =>
      have hpos := (hflat.pos hx).1
      have hpoint := h.resolve_right fun hsteep => hsteep.steep hflat
      rw [max_eq_left (by omega)]
      exact (excess_mono (by omega) (by omega) (by omega) (le_refl _)).trans
        (hpoint.near.below.resolve_left (by omega))
  · next hsteep =>
      by_cases hpos : 0 < p.2
      · rw [max_eq_left (by omega)]
        rw [next, if_neg hsteep, if_pos hpos] at hreach
        split at hreach
        · next hin =>
            simp only at hreach
            exact (excess_mono (by omega) (by omega) (by omega) (le_refl _)).trans hin.le
        · simp only at hreach
          exact (excess_mono (by omega) (by omega) (by omega) (le_refl _)).trans
            ((h.row_below hpos).resolve_left (by omega))
      · rw [next_end hx (by omega)] at hreach
        rw [max_eq_right (by omega)]
        have hmono := excess_mono (a := a) (b := b) (show 0 ≤ 2 * u + 1 by omega)
          (show 2 * u + 1 ≤ 2 * a by omega) (le_refl (0 : Int)) (le_refl 0)
        refine hmono.trans (le_of_eq ?_)
        unfold excess
        ring

end DigitalEllipse
