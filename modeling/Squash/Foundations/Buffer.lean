import Mathlib.Data.List.Basic
import Mathlib.Tactic.Common

/-!
# Writing into a buffer

A buffer is a list of fixed length. `write` puts elements at an index, and fails when they do not
all lie inside of the buffer; `take_write` says what stands in front of the end of what was written.
-/

namespace Buffer

variable {α : Type*} {buf buf' : List α} {k n : Nat} {xs : List α}

def write (buf : List α) (k : Nat) (xs : List α) : Option (List α) :=
  if k + xs.length ≤ buf.length then
    some (buf.take k ++ xs ++ buf.drop (k + xs.length))
  else none

theorem write_eq_some (h : k + xs.length ≤ buf.length) :
    write buf k xs = some (buf.take k ++ xs ++ buf.drop (k + xs.length)) := if_pos h

theorem write_eq_none : write buf k xs = none ↔ buf.length < k + xs.length := by
  unfold write
  split <;> simp_all

/-- What is overwritten has the length of what is written. -/
theorem write_append {pre old post : List α} (h : old.length = xs.length) :
    write (pre ++ (old ++ post)) pre.length xs = some (pre ++ (xs ++ post)) := by
  rw [write_eq_some (by simp [h]), List.take_left, ← h, ← List.append_assoc pre old,
    ← List.length_append, List.drop_left, List.append_assoc]

theorem length_write (h : write buf k xs = some buf') : buf'.length = buf.length := by
  unfold write at h
  split at h
  · cases h
    simp only [List.length_append, List.length_take, List.length_drop]
    omega
  · cases h

/-- The buffer up to the end of what was written. -/
theorem take_write (h : write buf k xs = some buf') :
    buf'.take (k + xs.length) = buf.take k ++ xs := by
  unfold write at h
  split at h
  · next hfits =>
      cases h
      have hlength : (buf.take k ++ xs).length = k + xs.length := by
        simp only [List.length_append, List.length_take]
        omega
      rw [← hlength, List.take_left]
  · cases h

/-- What was written up to the end of the buffer. -/
theorem write_end (h : write buf k xs = some buf') (hend : k + xs.length = buf.length) :
    buf' = buf.take k ++ xs := by
  rw [← take_write h, hend, ← length_write h, List.take_length]

end Buffer
