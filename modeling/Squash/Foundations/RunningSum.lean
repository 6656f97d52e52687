import Mathlib.Algebra.BigOperators.Group.List.Basic
import Mathlib.Tactic.Abel

/-!
# Sums kept while a list changes

A program that keeps the sum of a weight over a list can update it when an entry changes: take away
the old weight and add the new one. `prefixSum w l n` is the sum over the first `n` entries, for a
program that is still adding them up; an entry it has not come to yet does not count, and must not
be taken away either (`prefixSum_set_of_le`).
-/

namespace RunningSum

variable {α G : Type*} [AddCommGroup G] (w : α → G)

def prefixSum (l : List α) (n : Nat) : G := ((l.take n).map w).sum

variable {w} {l : List α} {n i : Nat} {a b : α}

@[simp] theorem prefixSum_zero : prefixSum w l 0 = 0 := by
  simp [prefixSum]

theorem prefixSum_length : prefixSum w l l.length = (l.map w).sum := by
  rw [prefixSum, List.take_length]

/-- The next entry is added. -/
theorem prefixSum_succ (h : l[n]? = some a) : prefixSum w l (n + 1) = prefixSum w l n + w a := by
  rw [prefixSum, List.take_add_one, h]
  simp [prefixSum]

/-- An entry that was added already changes. -/
theorem prefixSum_set_of_lt (h : l[i]? = some a) (hi : i < n) :
    prefixSum w (l.set i b) n = prefixSum w l n - w a + w b := by
  obtain ⟨hlt, rfl⟩ := List.getElem?_eq_some_iff.mp h
  have hsplit : l.take n = (l.take n).take i ++ l[i] :: (l.take n).drop (i + 1) := by
    have hlt' : i < (l.take n).length := by
      rw [List.length_take]
      omega
    have hget : (l.take n)[i] = l[i] := List.getElem_take
    rw [← hget, List.getElem_cons_drop, List.take_append_drop]
  rw [prefixSum, prefixSum, List.take_set, List.set_eq_take_append_cons_drop, if_pos]
  · conv_rhs => rw [hsplit]
    simp only [List.map_append, List.map_cons, List.sum_append, List.sum_cons]
    abel
  · rw [List.length_take]
    omega

/-- An entry that was not added yet changes. -/
theorem prefixSum_set_of_le (hi : n ≤ i) : prefixSum w (l.set i b) n = prefixSum w l n := by
  rw [prefixSum, prefixSum, List.take_set_of_le hi]

end RunningSum
