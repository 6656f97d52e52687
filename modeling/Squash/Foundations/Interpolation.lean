import Mathlib.Algebra.Order.Field.Basic
import Mathlib.Algebra.Order.Floor.Ring
import Mathlib.Tactic.Linarith

/-!
# Linear interpolation of a table

`interpolate f z` is the value at `z` of the curve that goes in straight lines through the points
`f n` of a table. In a cell it lies between the two points (`interpolate_mem`), so that the curve
of a table that does not fall does not fall either, within a cell and from one to the next
(`interpolate_mono`).
-/

namespace Interpolation

variable {K : Type*} [Field K] [LinearOrder K] [FloorRing K]

/-- The cell of `z` ends at `⌈z⌉`. -/
def interpolate (f : ℤ → K) (z : K) : K :=
  f (⌈z⌉ - 1) * (⌈z⌉ - z) + f ⌈z⌉ * (1 - (⌈z⌉ - z))

variable [IsStrictOrderedRing K] {f : ℤ → K} {z w : K}

@[simp] theorem interpolate_intCast (f : ℤ → K) (n : ℤ) : interpolate f (n : K) = f n := by
  simp [interpolate]

theorem ceil_sub_mem (z : K) : 0 ≤ (⌈z⌉ : K) - z ∧ (⌈z⌉ : K) - z < 1 := by
  have hle := Int.le_ceil z
  have hlt := Int.ceil_lt_add_one z
  constructor <;> linarith

/-- The curve lies between the ends of its cell. -/
theorem interpolate_mem (hf : ∀ n, f n ≤ f (n + 1)) (z : K) :
    f (⌈z⌉ - 1) ≤ interpolate f z ∧ interpolate f z ≤ f ⌈z⌉ := by
  obtain ⟨hlow, hhigh⟩ := ceil_sub_mem z
  have hstep : f (⌈z⌉ - 1) ≤ f ⌈z⌉ := by
    have := hf (⌈z⌉ - 1)
    rwa [sub_add_cancel] at this
  -- the two distances are parts of the height of the cell
  have hbelow : 0 ≤ (f ⌈z⌉ - f (⌈z⌉ - 1)) * (1 - (⌈z⌉ - z)) :=
    mul_nonneg (sub_nonneg.mpr hstep) (sub_nonneg.mpr hhigh.le)
  have habove : 0 ≤ (f ⌈z⌉ - f (⌈z⌉ - 1)) * (⌈z⌉ - z) :=
    mul_nonneg (sub_nonneg.mpr hstep) hlow
  unfold interpolate
  constructor <;> linarith

/-- **The curve of a table that does not fall does not fall.** -/
theorem interpolate_mono (hf : ∀ n, f n ≤ f (n + 1)) (h : z ≤ w) :
    interpolate f z ≤ interpolate f w := by
  rcases (Int.ceil_mono h).eq_or_lt with hsame | hcell
  · -- one cell: a straight line
    have hstep : f (⌈w⌉ - 1) ≤ f ⌈w⌉ := by
      have := hf (⌈w⌉ - 1)
      rwa [sub_add_cancel] at this
    have hrise : 0 ≤ (f ⌈w⌉ - f (⌈w⌉ - 1)) * (w - z) :=
      mul_nonneg (sub_nonneg.mpr hstep) (sub_nonneg.mpr h)
    unfold interpolate
    rw [hsame]
    linarith
  · -- the end of the lower cell is between them
    calc interpolate f z ≤ f ⌈z⌉ := (interpolate_mem hf z).2
      _ ≤ f (⌈w⌉ - 1) := monotone_int_of_le_succ hf (Int.le_sub_one_of_lt hcell)
      _ ≤ interpolate f w := (interpolate_mem hf w).1

end Interpolation
