import Mathlib.Data.List.Basic
import Mathlib.Tactic.Common

/-!
# Lines of a text

`lines` cuts a text behind each separator, as reading it line by line does: there is no line behind
the last separator, and the last line need not have one. `unlines` puts a separator behind each line,
and `lines_unlines` is the round trip.
-/

namespace Lines

variable {α : Type*} (sep : α)

def unlines (ls : List (List α)) : List α := ls.flatMap (· ++ [sep])

variable {sep} {line : List α}

theorem unlines_append (ls ls' : List (List α)) :
    unlines sep (ls ++ ls') = unlines sep ls ++ unlines sep ls' := List.flatMap_append

theorem unlines_cons (line : List α) (ls : List (List α)) :
    unlines sep (line :: ls) = line ++ sep :: unlines sep ls := by
  simp [unlines]

variable [DecidableEq α]

variable (sep) in
def lines (text : List α) : List (List α) :=
  if (text.splitOn sep).getLast? = some [] then (text.splitOn sep).dropLast else text.splitOn sep

@[simp] theorem lines_nil : lines sep [] = [] := by
  simp [lines]

/-- The first line. -/
theorem lines_append (h : sep ∉ line) (text : List α) :
    lines sep (line ++ sep :: text) = line :: lines sep text := by
  obtain ⟨piece, pieces, hpieces⟩ := List.exists_cons_of_ne_nil (List.splitOn_ne_nil sep text)
  unfold lines
  rw [List.splitOn_append_cons_self_of_not_mem h, hpieces, List.getLast?_cons_cons]
  split
  · rfl
  · rfl

/-- **What was put on lines is read line by line.** -/
theorem lines_unlines {ls : List (List α)} (h : ∀ line ∈ ls, sep ∉ line) :
    lines sep (unlines sep ls) = ls := by
  induction ls with
  | nil => exact lines_nil
  | cons line ls ih =>
      obtain ⟨hline, hls⟩ := List.forall_mem_cons.mp h
      rw [unlines_cons, lines_append hline, ih hls]

theorem not_mem_of_mem_splitOn {text : List α} : ∀ piece ∈ text.splitOn sep, sep ∉ piece := by
  induction text with
  | nil => simp
  | cons c text ih =>
      obtain ⟨piece, pieces, hpieces⟩ := List.exists_cons_of_ne_nil (List.splitOn_ne_nil sep text)
      rw [hpieces] at ih
      obtain ⟨hpiece, hrest⟩ := List.forall_mem_cons.mp ih
      rw [List.splitOn_cons_eq_if_modifyHead, hpieces]
      by_cases hc : (c == sep) = true
      · rw [if_pos hc]
        exact List.forall_mem_cons.mpr ⟨List.not_mem_nil, ih⟩
      · rw [if_neg hc]
        have hne : sep ≠ c := fun heq => hc (beq_iff_eq.mpr heq.symm)
        refine List.forall_mem_cons.mpr ⟨?_, hrest⟩
        simp [hne, hpiece]

/-- No line has a separator in it. -/
theorem not_mem_of_mem_lines {text : List α} (h : line ∈ lines sep text) : sep ∉ line := by
  unfold lines at h
  split at h
  · exact not_mem_of_mem_splitOn _ (List.dropLast_subset _ h)
  · exact not_mem_of_mem_splitOn _ h

end Lines
