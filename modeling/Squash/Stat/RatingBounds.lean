import Mathlib.Algebra.Order.Field.Basic
import Mathlib.Algebra.Order.Ring.Rat
import Mathlib.Tactic.FieldSimp
import Mathlib.Tactic.Linarith
import Mathlib.Tactic.NormNum
import Squash.Stat.Rating

/-!
# The range of a rating

`get_rating` mixes the automatic rating, which is strictly between -1 and 1 whatever the counts are,
with the manual rating, which is scaled to the closed interval. The comment of the function promises
the open interval. That fails when `db_manual_rating_bias` leaves nothing of the automatic rating
and the manual one is at an end of its scale; `rating_ok_iff` shows that it fails nowhere else, and
that the rating never falls when a song is played or rated higher, and never rises when it is
skipped.
-/

namespace Squash

/-! ## The automatic rating -/

/-- `auto_rating`. -/
def autoRating (playCount skipCount : Int) : ℚ :=
  (playCount - skipCount : Int) / (playCount + skipCount + 1 : Int)

section Auto

variable {p q s t : Int}

theorem autoRating_mem (hp : 0 ≤ p) (hs : 0 ≤ s) : -1 < autoRating p s ∧ autoRating p s < 1 := by
  have hp' : (0 : ℚ) ≤ p := Int.cast_nonneg hp
  have hs' : (0 : ℚ) ≤ s := Int.cast_nonneg hs
  have hpos : (0 : ℚ) < p + s + 1 := by linarith
  unfold autoRating
  push_cast
  constructor
  · rw [lt_div_iff₀ hpos]
    linarith
  · rw [div_lt_iff₀ hpos]
    linarith

/-- What is missing to 1 gets smaller with every play. -/
theorem autoRating_mono_play (hp : 0 ≤ p) (hs : 0 ≤ s) (h : p ≤ q) :
    autoRating p s ≤ autoRating q s := by
  have hp' : (0 : ℚ) ≤ p := Int.cast_nonneg hp
  have hs' : (0 : ℚ) ≤ s := Int.cast_nonneg hs
  have h' : (p : ℚ) ≤ q := Int.cast_le.mpr h
  unfold autoRating
  push_cast
  rw [div_le_div_iff₀ (by linarith) (by linarith)]
  nlinarith

theorem autoRating_anti_skip (hp : 0 ≤ p) (hs : 0 ≤ s) (h : s ≤ t) :
    autoRating p t ≤ autoRating p s := by
  have hp' : (0 : ℚ) ≤ p := Int.cast_nonneg hp
  have hs' : (0 : ℚ) ≤ s := Int.cast_nonneg hs
  have h' : (s : ℚ) ≤ t := Int.cast_le.mpr h
  unfold autoRating
  push_cast
  rw [div_le_div_iff₀ (by linarith) (by linarith)]
  nlinarith

end Auto

/-! ## Mixing two ratings -/

section Mix

variable {a b m : ℚ}

/-- A value of the open interval and one of the closed interval, mixed: the result is in the open
interval unless only an end of the closed one is left. -/
theorem mix_mem_iff (ha : -1 < a ∧ a < 1) (hm : -1 ≤ m ∧ m ≤ 1) (hb : 0 ≤ b ∧ b ≤ 1) :
    (-1 < a * (1 - b) + m * b ∧ a * (1 - b) + m * b < 1) ↔ ¬ (b = 1 ∧ (m = -1 ∨ m = 1)) := by
  constructor
  · rintro ⟨hlow, hhigh⟩ ⟨rfl, rfl | rfl⟩
    · linarith
    · linarith
  · intro hinner
    rcases hb.2.lt_or_eq with hlt | rfl
    · constructor <;> nlinarith
    · have hlow : m ≠ -1 := fun h => hinner ⟨rfl, .inl h⟩
      have hhigh : m ≠ 1 := fun h => hinner ⟨rfl, .inr h⟩
      have hlow' := lt_of_le_of_ne hm.1 hlow.symm
      have hhigh' := lt_of_le_of_ne hm.2 hhigh
      constructor <;> linarith

end Mix

/-! ## `get_rating` -/

variable {config : Config} {stat : StatInfo}

theorem getRating_auto (h : stat.manualRating = -1) :
    getRating config stat = autoRating stat.playCount stat.skipCount := if_pos h

theorem getRating_manual (h : stat.manualRating ≠ -1) :
    getRating config stat =
      autoRating stat.playCount stat.skipCount * (1 - config.dbManualRatingBias) +
        ((stat.manualRating : ℚ) - 5) / 5 * config.dbManualRatingBias := if_neg h

/-- The ranges that the program keeps the statistics and the bias in. -/
structure InRange (config : Config) (stat : StatInfo) : Prop where
  playCount : 0 ≤ stat.playCount
  skipCount : 0 ≤ stat.skipCount
  manualRating : -1 ≤ stat.manualRating ∧ stat.manualRating ≤ 10
  bias : 0 ≤ config.dbManualRatingBias ∧ config.dbManualRatingBias ≤ 1

/-- The rating is in the open interval, and moves with the statistics as it should. -/
structure RatingOk (config : Config) (stat : StatInfo) : Prop where
  bounds : -1 < getRating config stat ∧ getRating config stat < 1
  play : ∀ n, stat.playCount ≤ n →
    getRating config stat ≤ getRating config { stat with playCount := n }
  skip : ∀ n, stat.skipCount ≤ n →
    getRating config { stat with skipCount := n } ≤ getRating config stat
  manual : 0 ≤ stat.manualRating → ∀ n, stat.manualRating ≤ n →
    getRating config stat ≤ getRating config { stat with manualRating := n }

/-- With the same manual rating the automatic one decides. -/
theorem getRating_le_of_auto {a b : StatInfo} (hbias : config.dbManualRatingBias ≤ 1)
    (hmanual : a.manualRating = b.manualRating)
    (hauto : autoRating a.playCount a.skipCount ≤ autoRating b.playCount b.skipCount) :
    getRating config a ≤ getRating config b := by
  by_cases hb : b.manualRating = -1
  · rwa [getRating_auto hb, getRating_auto (hmanual.trans hb)]
  · have ha : a.manualRating ≠ -1 := hmanual ▸ hb
    rw [getRating_manual hb, getRating_manual ha, hmanual]
    have hmix := mul_le_mul_of_nonneg_right hauto (sub_nonneg.mpr hbias)
    linarith

theorem getRating_mono_manual (h : InRange config stat) (hm : 0 ≤ stat.manualRating) {n : Int}
    (hn : stat.manualRating ≤ n) :
    getRating config stat ≤ getRating config { stat with manualRating := n } := by
  have hn' : (stat.manualRating : ℚ) ≤ n := Int.cast_le.mpr hn
  have hold : stat.manualRating ≠ -1 := by omega
  have hnew : n ≠ -1 := by omega
  rw [getRating_manual hold, getRating_manual hnew]
  have hscale : ((stat.manualRating : ℚ) - 5) / 5 ≤ ((n : ℚ) - 5) / 5 := by linarith
  have hmix := mul_le_mul_of_nonneg_right hscale h.bias.1
  linarith

/-- Where the rating is in the open interval. -/
theorem getRating_mem_iff (h : InRange config stat) :
    (-1 < getRating config stat ∧ getRating config stat < 1) ↔
      ¬ (config.dbManualRatingBias = 1 ∧ (stat.manualRating = 0 ∨ stat.manualRating = 10)) := by
  have hauto := autoRating_mem h.playCount h.skipCount
  obtain ⟨hlow, hhigh⟩ := h.manualRating
  by_cases hm : stat.manualRating = -1
  · rw [getRating_auto hm, iff_true_intro hauto, true_iff]
    omega
  · have hlow' : (0 : ℚ) ≤ stat.manualRating := by
      have hzero : 0 ≤ stat.manualRating := by omega
      exact_mod_cast hzero
    have hhigh' : (stat.manualRating : ℚ) ≤ 10 := by exact_mod_cast hhigh
    have hfirst : ((stat.manualRating : ℚ) - 5) / 5 = -1 ↔ stat.manualRating = 0 := by
      rw [div_eq_iff (by norm_num), sub_eq_iff_eq_add]
      norm_num
    have hlast : ((stat.manualRating : ℚ) - 5) / 5 = 1 ↔ stat.manualRating = 10 := by
      rw [div_eq_iff (by norm_num), sub_eq_iff_eq_add]
      norm_num
      norm_cast
    rw [getRating_manual hm, mix_mem_iff hauto ⟨by linarith, by linarith⟩ h.bias, hfirst, hlast]

/-- **The rating is what its comment promises unless only the manual rating counts and is at an end
of its scale.** -/
theorem rating_ok_iff (h : InRange config stat) :
    RatingOk config stat ↔
      ¬ (config.dbManualRatingBias = 1 ∧ (stat.manualRating = 0 ∨ stat.manualRating = 10)) := by
  rw [← getRating_mem_iff h]
  constructor
  · exact fun hok => hok.bounds
  · intro hbounds
    refine ⟨hbounds, ?_, ?_, fun hm n hn => getRating_mono_manual h hm hn⟩
    · intro n hn
      exact getRating_le_of_auto h.bias.2 rfl (autoRating_mono_play h.playCount h.skipCount hn)
    · intro n hn
      exact getRating_le_of_auto h.bias.2 rfl (autoRating_anti_skip h.playCount h.skipCount hn)

/-- A song without a manual rating. -/
theorem rating_ok_iff_auto : RatingOk ⟨false, 1⟩ ⟨3, 1, 10, -1, false⟩ :=
  (rating_ok_iff ⟨by decide, by decide, by decide, by norm_num⟩).mpr (by decide)

/-- With the bias at the end of its scale a song that is rated best has the rating 1. -/
theorem not_rating_ok_best : InRange ⟨false, 1⟩ ⟨3, 1, 10, 10, false⟩ ∧
    ¬ RatingOk ⟨false, 1⟩ ⟨3, 1, 10, 10, false⟩ := by
  refine ⟨⟨by decide, by decide, by decide, by norm_num⟩, ?_⟩
  intro hok
  have hbounds := hok.bounds.2
  norm_num [getRating] at hbounds

end Squash
