import Mathlib.Data.Set.Insert
import Mathlib.Tactic.Linarith
import Mathlib.Tactic.Ring

/-!
# Digital lines

A line that goes `m` steps along one axis while it rises by `n ≤ m` along the other passes between the
points of the grid. `minor m n i` is the height of the point that is nearest to it after `i` steps, the
lower one of two that are equally near (`minor_nearest`).

A decision variable gives the points one after another, by additions alone (`minor_succ`). Where the line
is above a given height for the first time can be computed as well (`le_minor_iff_first`), so that a part
of the line can be had without the steps before it.
-/

namespace DigitalLine

variable {m n i j k : Int}

/-- The height of the line after `i` steps. For `m = 0` the line is a point, and this is 0. -/
def minor (m n i : Int) : Int := (2 * i * n + m - 1) / (2 * m)

/-- Twice the height of the exact line at the next step, less twice the height halfway between `k` and
`k + 1`, all times `m`. -/
def decision (m n i k : Int) : Int := (2 + 2 * i) * n - (1 + 2 * k) * m

/-! ## Heights -/

theorem le_minor_iff (hm : 0 < m) : k ≤ minor m n i ↔ (2 * k - 1) * m < 2 * i * n := by
  rw [minor, Int.le_ediv_iff_mul_le (by omega)]
  constructor <;> intro h <;> linarith

/-- **The exact line is at most half a step away.** -/
theorem minor_nearest (hm : 0 < m) :
    -m < 2 * (i * n - minor m n i * m) ∧ 2 * (i * n - minor m n i * m) ≤ m := by
  have hlow := (le_minor_iff (n := n) (i := i) hm).mp (Int.le_refl _)
  have hhigh : ¬ minor m n i + 1 ≤ minor m n i := by omega
  rw [le_minor_iff hm] at hhigh
  constructor <;> linarith

theorem minor_zero (hm : 0 ≤ m) : minor m n 0 = 0 := by
  obtain rfl | hm := hm.eq_or_lt
  · simp [minor]
  · rw [minor]
    apply Int.ediv_eq_zero_of_lt <;> linarith

theorem minor_flat (hm : 0 ≤ m) : minor m 0 i = 0 := by
  have hzero := minor_zero (n := 0) hm
  rw [minor, mul_zero] at hzero ⊢
  exact hzero

theorem minor_end (hm : 0 < m) : minor m n m = n := by
  apply Int.le_antisymm
  · by_contra h
    have h : n + 1 ≤ minor m n m := by omega
    rw [le_minor_iff hm] at h
    linarith
  · rw [le_minor_iff hm]
    linarith

theorem minor_mono (hm : 0 < m) (hn : 0 ≤ n) (h : i ≤ j) : minor m n i ≤ minor m n j := by
  have hrise : i * n ≤ j * n := Int.mul_le_mul_of_nonneg_right h hn
  have hi := (le_minor_iff (n := n) (i := i) hm).mp (Int.le_refl _)
  rw [le_minor_iff hm]
  linarith

theorem minor_nonneg (hm : 0 < m) (hn : 0 ≤ n) (hi : 0 ≤ i) : 0 ≤ minor m n i :=
  minor_zero hm.le ▸ minor_mono hm hn hi

theorem minor_le (hm : 0 < m) (hn : 0 ≤ n) (hi : i ≤ m) : minor m n i ≤ n := by
  have h := minor_mono hm hn hi
  rwa [minor_end hm] at h

/-! ## Step by step -/

theorem minor_succ (hm : 0 < m) (hn : 0 ≤ n) (hnm : n ≤ m) :
    minor m n (i + 1) =
      if decision m n i (minor m n i) ≤ 0 then minor m n i else minor m n i + 1 := by
  have hrise := minor_mono (i := i) (j := i + 1) hm hn (by omega)
  have hnext : minor m n (i + 1) ≤ minor m n i + 1 := by
    obtain ⟨-, hhigh⟩ := minor_nearest (n := n) (i := i) hm
    by_contra h
    have h : minor m n i + 2 ≤ minor m n (i + 1) := by omega
    rw [le_minor_iff hm] at h
    linarith
  have hup := le_minor_iff (n := n) (i := i + 1) (k := minor m n i + 1) hm
  unfold decision
  split
  · next hd =>
      have hsame : ¬ minor m n i + 1 ≤ minor m n (i + 1) := by
        rw [hup]
        linarith
      omega
  · next hd =>
      have hrises : minor m n i + 1 ≤ minor m n (i + 1) := by
        rw [hup]
        linarith
      omega

theorem decision_zero : decision m n 0 0 = 2 * n - m := by
  unfold decision
  ring

theorem decision_along : decision m n i k + 2 * n = decision m n (i + 1) k := by
  unfold decision
  ring

theorem decision_up : decision m n i k + 2 * (n - m) = decision m n (i + 1) (k + 1) := by
  unfold decision
  ring

/-! ## Parts of a line -/

/-- All points, as pairs of the steps and the height. -/
def track (m n : Int) : Set (Int × Int) := {p | 0 ≤ p.1 ∧ p.1 ≤ m ∧ p.2 = minor m n p.1}

/-- The points after step `i` and up to step `last`, as far as they are not higher than the top. -/
def stretch (m n i last : Int) (top : Option Int) : Set (Int × Int) :=
  {p | i < p.1 ∧ p.1 ≤ last ∧ p.2 = minor m n p.1 ∧ ∀ t ∈ top, p.2 ≤ t}

variable {last : Int} {top : Option Int}

theorem stretch_end (h : last ≤ i) : stretch m n i last top = ∅ := by
  ext p
  simp only [stretch, Set.mem_ofPred_eq, Set.mem_empty_iff_false, iff_false]
  omega

theorem stretch_succ (hlast : i < last) (htop : ∀ t ∈ top, minor m n (i + 1) ≤ t) :
    stretch m n i last top = {(i + 1, minor m n (i + 1))} ∪ stretch m n (i + 1) last top := by
  ext ⟨j, k⟩
  simp only [stretch, Set.mem_ofPred_eq, Set.mem_union, Set.mem_singleton_iff, Prod.mk.injEq]
  constructor
  · rintro ⟨hj, hlast, rfl, hk⟩
    by_cases hnext : j = i + 1
    · exact .inl ⟨hnext, by rw [hnext]⟩
    · exact .inr ⟨by omega, hlast, rfl, hk⟩
  · rintro (⟨rfl, rfl⟩ | ⟨hj, hlast, rfl, hk⟩)
    · exact ⟨by omega, by omega, rfl, htop⟩
    · exact ⟨by omega, hlast, rfl, hk⟩

/-- Above the top there is nothing more. -/
theorem stretch_top {t : Int} (hm : 0 < m) (hn : 0 ≤ n) (h : t < minor m n (i + 1)) :
    stretch m n i last (some t) = ∅ := by
  ext p
  simp only [stretch, Set.mem_ofPred_eq, Set.mem_empty_iff_false, iff_false]
  rintro ⟨hi, -, hp, htop⟩
  have hrise := minor_mono (i := i + 1) (j := p.1) hm hn (by omega)
  have htop := htop t rfl
  omega

theorem track_eq (hm : 0 ≤ m) : track m n = {(0, 0)} ∪ stretch m n 0 m none := by
  ext ⟨j, k⟩
  simp only [track, stretch, Set.mem_ofPred_eq, Set.mem_union, Set.mem_singleton_iff,
    Prod.mk.injEq, Option.not_mem_none, false_implies, implies_true, and_true]
  constructor
  · rintro ⟨hj, hlast, rfl⟩
    by_cases hzero : j = 0
    · exact .inl ⟨hzero, by rw [hzero, minor_zero hm]⟩
    · exact .inr ⟨by omega, hlast, rfl⟩
  · rintro (⟨rfl, rfl⟩ | ⟨hj, hlast, rfl⟩)
    · exact ⟨Int.le_refl 0, hm, (minor_zero hm).symm⟩
    · exact ⟨by omega, hlast, rfl⟩

/-! ## Without the steps before -/

/-- Rounding to the nearest, down in the middle. -/
theorem round_minor (hm : 0 < m) :
    i * n / m + (if i * n % m > m / 2 then 1 else 0) = minor m n i := by
  have hdiv := Int.mul_ediv_add_emod (i * n) m
  have hlow := Int.emod_nonneg (i * n) hm.ne'
  have hlt := Int.emod_lt_of_pos (i * n) hm
  generalize i * n / m = q at *
  generalize hr : i * n % m = r at *
  have hsum : 2 * i * n + m - 1 = 2 * r + m - 1 + 2 * m * q := by linarith
  rw [minor, hsum, Int.add_mul_ediv_left _ _ (by omega : 2 * m ≠ 0)]
  split
  · have hone : (2 * r + m - 1) / (2 * m) = 1 := by
      apply Int.le_antisymm
      · have h := Int.ediv_lt_of_lt_mul (a := 2 * r + m - 1) (b := 2) (c := 2 * m) (by omega) (by omega)
        omega
      · exact (Int.le_ediv_iff_mul_le (by omega)).mpr (by omega)
    omega
  · rw [Int.ediv_eq_zero_of_lt (by omega) (by omega)]
    omega

/-- The first step at which the line has the height `k`, if it rises. -/
def first (m n k : Int) : Int := (2 * k - 1) * m / (2 * n) + 1

theorem le_minor_iff_first (hm : 0 < m) (hn : 0 < n) : k ≤ minor m n i ↔ first m n k ≤ i := by
  have hlt : first m n k ≤ i ↔ (2 * k - 1) * m / (2 * n) < i := by
    unfold first
    omega
  rw [le_minor_iff hm, hlt, Int.ediv_lt_iff_lt_mul (by omega)]
  constructor <;> intro h <;> linarith

/-- A line that is below a height now is at it when it gets there. -/
theorem minor_first (hm : 0 < m) (hn : 0 < n) (hnm : n ≤ m) : minor m n (first m n k) = k := by
  have hat := (le_minor_iff_first (k := k) hm hn).mpr (Int.le_refl _)
  have hbefore : ¬ k ≤ minor m n (first m n k - 1) := by
    rw [le_minor_iff_first hm hn]
    omega
  have hstep := minor_succ (i := first m n k - 1) hm hn.le hnm
  rw [Int.sub_add_cancel] at hstep
  split at hstep <;> omega

end DigitalLine
