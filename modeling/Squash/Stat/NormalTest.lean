import Mathlib.Algebra.Order.Archimedean.Real.Basic
import Mathlib.Tactic.NormNum
import Squash.Foundations.Interpolation

/-!
# The test that favours good ratings

`normal_test` accepts a rating with the probability of the area under the normal curve up to it. The
area comes from a table of five values, between which the function interpolates.

The arithmetic is exact here: a `double` is an element of an ordered field, and `ceil` gives an
integer of any size. `normalTest_favours_better` is the result over the real numbers.
-/

namespace Squash.NormalTest

open Interpolation

variable {K : Type*} [Field K]

/-! ## `normal_test` -/

/-- `pdf[ i ]`. -/
def pdf (i : ℤ) : K := [0, 3413 / 10000, 4772 / 10000, 4987 / 10000, 5000 / 10000].getD i.toNat 0

theorem pdf_values : (pdf 0 : K) = 0 ∧ (pdf 1 : K) = 3413 / 10000 ∧ (pdf 2 : K) = 4772 / 10000 ∧
    (pdf 3 : K) = 4987 / 10000 ∧ (pdf 4 : K) = 5000 / 10000 :=
  ⟨rfl, rfl, rfl, rfl, rfl⟩

variable [LinearOrder K] [FloorRing K]

/-- `area`, before the sign is looked at. -/
def halfArea (z : K) : K :=
  let pdfPos := ⌈z⌉
  if z = 0 then 0
  else if pdfPos > 4 then 1 / 2
  else
    let ratio : K := pdfPos - z
    pdf (pdfPos - 1) * ratio + pdf pdfPos * (1 - ratio)

/-- `area`, which is what the random number is compared with. -/
def area (x a s : K) : K :=
  let z := (x - a) / s
  if z < 0 then 1 / 2 - halfArea |z| else 1 / 2 + halfArea |z|

/-- `normal_test`, where `rand() / (RAND_MAX + 1.0)` is `randVal`. Zero by zero is not a number. -/
def normalTest (x a s randVal : K) : Bool :=
  if x - a = 0 ∧ s = 0 then true else decide (area x a s > randVal)

theorem normalTest_iff {x a s randVal : K} (hs : s ≠ 0) :
    normalTest x a s randVal = true ↔ randVal < area x a s := by
  simp [normalTest, hs]

/-! ## The curve -/

/-- The table, which goes on with its last value. -/
def curve (n : ℤ) : K := pdf (min n 4)

theorem curve_of_le {n : ℤ} (hn : 4 ≤ n) : (curve n : K) = 1 / 2 := by
  rw [curve, min_eq_right hn, pdf_values.2.2.2.2]
  norm_num

variable [IsStrictOrderedRing K]

theorem curve_le_succ (n : ℤ) : (curve n : K) ≤ curve (n + 1) := by
  obtain hn | rfl | rfl | rfl | rfl | hn : n < 0 ∨ n = 0 ∨ n = 1 ∨ n = 2 ∨ n = 3 ∨ 4 ≤ n := by omega
  · have hlow : (min n 4).toNat = 0 := by omega
    have hnext : (min (n + 1) 4).toNat = 0 := by omega
    rw [curve, curve, pdf, pdf, hlow, hnext]
  · norm_num [curve, pdf_values]
  · norm_num [curve, pdf_values]
  · norm_num [curve, pdf_values]
  · norm_num [curve, pdf_values]
  · rw [curve, curve, min_eq_right hn, min_eq_right (Int.le_add_one hn)]

theorem curve_le (n : ℤ) : (curve n : K) ≤ 1 / 2 := by
  have hmono : (curve n : K) ≤ curve (max n 4) :=
    monotone_int_of_le_succ curve_le_succ (le_max_left n 4)
  rwa [curve_of_le (le_max_right n 4)] at hmono

/-- **The three cases of the source are one curve.** -/
theorem halfArea_eq_interpolate (z : K) : halfArea z = interpolate curve z := by
  unfold halfArea
  by_cases hzero : z = 0
  · rw [if_pos hzero, hzero, ← Int.cast_zero, interpolate_intCast]
    simp [curve, pdf]
  · rw [if_neg hzero]
    by_cases hend : ⌈z⌉ > 4
    · rw [if_pos hend, interpolate, curve_of_le (Int.le_sub_one_of_lt hend), curve_of_le hend.le]
      ring
    · have hcell : ⌈z⌉ ≤ 4 := Int.not_lt.mp hend
      rw [if_neg hend, interpolate, curve, curve, min_eq_left hcell,
        min_eq_left (by omega : ⌈z⌉ - 1 ≤ 4)]

theorem halfArea_mono {z w : K} (h : z ≤ w) : halfArea z ≤ halfArea w := by
  rw [halfArea_eq_interpolate, halfArea_eq_interpolate]
  exact interpolate_mono curve_le_succ h

theorem halfArea_mem {z : K} (hz : 0 ≤ z) : 0 ≤ halfArea z ∧ halfArea z ≤ 1 / 2 := by
  constructor
  · have hmono := halfArea_mono hz
    simpa [halfArea] using hmono
  · rw [halfArea_eq_interpolate]
    exact (interpolate_mem curve_le_succ z).2.trans (curve_le _)

/-! ## The area -/

variable {x y a s : K}

theorem area_mem (x a s : K) : 0 ≤ area x a s ∧ area x a s ≤ 1 := by
  obtain ⟨hlow, hhigh⟩ := halfArea_mem (abs_nonneg ((x - a) / s))
  simp only [area]
  split <;> constructor <;> linarith

/-- **A better rating has the larger area.** -/
theorem area_mono (hs : 0 < s) (h : x ≤ y) : area x a s ≤ area y a s := by
  have hz : (x - a) / s ≤ (y - a) / s := by
    apply div_le_div_of_nonneg_right _ hs.le
    linarith
  simp only [area]
  generalize (x - a) / s = z at hz
  generalize (y - a) / s = w at hz
  have hzmem := halfArea_mem (abs_nonneg z)
  have hwmem := halfArea_mem (abs_nonneg w)
  by_cases hzneg : z < 0
  · by_cases hwneg : w < 0
    · -- both below the average: the worse one is further away
      rw [if_pos hzneg, if_pos hwneg]
      have hcloser : halfArea |w| ≤ halfArea |z| := by
        apply halfArea_mono
        rw [abs_of_neg hzneg, abs_of_neg hwneg]
        exact neg_le_neg hz
      linarith
    · rw [if_pos hzneg, if_neg hwneg]
      linarith
  · have hwneg : ¬ w < 0 := not_lt.mpr ((not_lt.mp hzneg).trans hz)
    rw [if_neg hzneg, if_neg hwneg]
    have hfurther : halfArea |z| ≤ halfArea |w| := by
      apply halfArea_mono
      rwa [abs_of_nonneg (not_lt.mp hzneg), abs_of_nonneg (not_lt.mp hwneg)]
    linarith

theorem area_self (a s : K) : area a a s = 1 / 2 := by
  simp [area, halfArea]

theorem area_symm (a s d : K) : area (a + d) a s + area (a - d) a s = 1 := by
  have hright : (a + d - a) / s = d / s := by rw [add_sub_cancel_left]
  have hleft : (a - d - a) / s = -(d / s) := by rw [sub_sub_cancel_left, neg_div]
  simp only [area, hright, hleft, abs_neg]
  generalize d / s = z
  rcases lt_trichotomy z 0 with hneg | rfl | hpos
  · rw [if_pos hneg, if_neg (by linarith)]
    ring
  · norm_num [halfArea]
  · rw [if_neg (by linarith), if_pos (by linarith)]
    ring

/-- **Better ratings are never less likely.** Whatever random number accepts a rating accepts every
better one. The area is a probability, one half at the average, and symmetric around it. -/
theorem normalTest_favours_better (a s : ℝ) (hs : 0 < s) :
    (∀ randVal x y : ℝ, x ≤ y → normalTest x a s randVal = true →
      normalTest y a s randVal = true) ∧
    (∀ x, 0 ≤ area x a s ∧ area x a s ≤ 1) ∧ area a a s = 1 / 2 ∧
      ∀ d, area (a + d) a s + area (a - d) a s = 1 := by
  refine ⟨?_, fun x => area_mem x a s, area_self a s, area_symm a s⟩
  intro randVal x y h haccepted
  rw [normalTest_iff hs.ne'] at haccepted ⊢
  exact haccepted.trans_le (area_mono hs h)

/-- Around an average rating of 1/2. -/
theorem normalTest_favours_better_half :
    area (1 / 2 : ℝ) (1 / 2) 1 = 1 / 2 ∧
      area (1 / 2 + 3 : ℝ) (1 / 2) 1 + area (1 / 2 - 3) (1 / 2) 1 = 1 :=
  have h := normalTest_favours_better (1 / 2) 1 one_pos
  ⟨h.2.2.1, h.2.2.2 3⟩

end Squash.NormalTest
