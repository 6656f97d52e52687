import Mathlib.Data.List.Basic
import Mathlib.Tactic.Common

/-!
# Filling up

`fill` adds elements one after another as long as there is room. An element that does not fit is
either added in part or makes the run fail, which is left to `add`; the loop only looks at the room
before it.

Nested loops with the same guard are one loop (`fill_flatMap`). `fill_cases` is the rule for such a
loop: an invariant that relates what was added to the state holds where it stops, and there was room
in front of each element that it took.
-/

namespace Filling

variable {σ α β ε : Type} {room : σ → Prop} [DecidablePred room] {add : σ → α → Except ε σ}

def fill (room : σ → Prop) [DecidablePred room] (add : σ → α → Except ε σ) :
    σ → List α → Except ε σ
  | s, [] => .ok s
  | s, x :: xs => if room s then add s x >>= fun s => fill room add s xs else .ok s

theorem fill_full {s : σ} (h : ¬ room s) (xs : List α) : fill room add s xs = .ok s := by
  cases xs with
  | nil => rfl
  | cons x xs => exact if_neg h

theorem fill_cons {s : σ} (h : room s) (x : α) (xs : List α) :
    fill room add s (x :: xs) = add s x >>= fun s => fill room add s xs := if_pos h

theorem fill_append (xs ys : List α) (s : σ) :
    fill room add s (xs ++ ys) = fill room add s xs >>= fun s => fill room add s ys := by
  induction xs generalizing s with
  | nil => rfl
  | cons x xs ih =>
      by_cases h : room s
      · rw [List.cons_append, fill_cons h, fill_cons h]
        cases add s x with
        | error e => rfl
        | ok s' => exact ih s'
      · rw [fill_full h, fill_full h]
        exact (fill_full h ys).symm

/-- A loop in a loop. -/
theorem fill_flatMap (f : β → List α) (xs : List β) (s : σ) :
    fill room (fun s x => fill room add s (f x)) s xs = fill room add s (xs.flatMap f) := by
  induction xs generalizing s with
  | nil => rfl
  | cons x xs ih =>
      rw [List.flatMap_cons, fill_append]
      by_cases h : room s
      · rw [fill_cons h]
        simp only [ih]
      · rw [fill_full h, fill_full h]
        exact (fill_full h _).symm

/-- The loop took `read`, and left `rest` because there was no more room. -/
structure Filled (room : σ → Prop) (I : List α → σ → Prop) (xs read rest : List α) (s : σ) :
    Prop where
  split : xs = read ++ rest
  holds : I read s
  full : rest ≠ [] → ¬ room s
  before : ∀ before x after, read = before ++ x :: after → ∃ s', I before s' ∧ room s'

/-- The loop took `before`, and failed at the next element. -/
structure Failed (room : σ → Prop) (add : σ → α → Except ε σ) (I : List α → σ → Prop)
    (xs before : List α) (x : α) (s : σ) (e : ε) : Prop where
  split : ∃ after, xs = before ++ x :: after
  holds : I before s
  room : room s
  fails : add s x = .error e

variable (room add) in
/-- **The rule of the loop.** -/
theorem fill_cases {I : List α → σ → Prop}
    (step : ∀ read s x s', I read s → room s → add s x = .ok s' → I (read ++ [x]) s')
    {s : σ} (init : I [] s) (xs : List α) :
    (∃ read rest s', fill room add s xs = .ok s' ∧ Filled room I xs read rest s') ∨
      ∃ before x s' e, fill room add s xs = .error e ∧ Failed room add I xs before x s' e := by
  induction xs generalizing I s with
  | nil =>
      exact .inl ⟨[], [], s, rfl, rfl, init, fun h => absurd rfl h,
        fun before x after h => by simp at h⟩
  | cons x xs ih =>
      by_cases hroom : room s
      · rw [fill_cons hroom]
        cases hadd : add s x with
        | error e => exact .inr ⟨[], x, s, e, rfl, ⟨xs, rfl⟩, init, hroom, hadd⟩
        | ok s' =>
            -- the rest of the run, for the invariant with `x` in front of what it took
            rcases ih (I := fun read => I (x :: read)) (fun read => step (x :: read))
                (step [] s x s' init hroom hadd) with
              ⟨read, rest, t, hfill, hsplit, hholds, hfull, hbefore⟩ |
              ⟨before, y, t, e, hfill, ⟨after, hsplit⟩, hholds, hroom', hfails⟩
            · refine .inl ⟨x :: read, rest, t, hfill, congrArg (x :: ·) hsplit, hholds, hfull, ?_⟩
              intro before y after hread
              cases before with
              | nil => exact ⟨s, init, hroom⟩
              | cons z before =>
                  obtain ⟨rfl, hrest⟩ := List.cons.inj hread
                  exact hbefore before y after hrest
            · exact .inr ⟨x :: before, y, t, e, hfill, ⟨after, congrArg (x :: ·) hsplit⟩, hholds,
                hroom', hfails⟩
      · exact .inl ⟨[], x :: xs, s, fill_full hroom _, rfl, init, fun _ => hroom,
          fun before y after h => by simp at h⟩

end Filling
