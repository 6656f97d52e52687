import Mathlib.Data.List.DropRight
import Mathlib.Tactic.Common

/-!
# The end of a list in a circle of slots

A program that keeps the last `cap` elements of a growing list in `N` slots has element `g` in slot
`g % N`. `Holds` says so of a state of the slots; `read` goes around the circle, and reads the end of
the list exactly when `Holds` is true (`read_eq_rtake_iff`). `holds_append_iff` is what is left to
show when the list grows. `delayed_iff` is about new elements of which some come one place late.
-/

namespace Circular

variable {α : Type*} {slot : Nat → α} {N cap head len : Nat} {l ys : List α}

/-- So many slots from `head` on. -/
def read (slot : Nat → α) (N head len : Nat) : List α :=
  (List.range len).map fun i => slot ((head + i) % N)

/-- The last `cap` elements of the list are in their slots. -/
def Holds (slot : Nat → α) (N cap : Nat) (l : List α) : Prop :=
  ∀ g x, l.length ≤ g + cap → l[g]? = some x → slot (g % N) = x

@[simp] theorem length_read : (read slot N head len).length = len := by
  simp [read]

theorem read_mod : read slot N (head % N) len = read slot N head len := by
  apply List.map_congr_left
  intro i _
  rw [Nat.mod_add_mod]

theorem getElem?_read {i : Nat} (hi : i < len) :
    (read slot N head len)[i]? = some (slot ((head + i) % N)) := by
  simp [read, hi]

theorem holds_nil : Holds slot N cap [] := by
  intro g x _ hx
  cases hx

theorem getElem?_rtake {i : Nat} : (l.rtake cap)[i]? = l[l.length - cap + i]? := by
  rw [List.rtake, List.getElem?_drop]

theorem read_eq_rtake_iff :
    read slot N (l.length - cap) (min l.length cap) = l.rtake cap ↔ Holds slot N cap l := by
  constructor
  · intro hread g x hg hx
    have hlt : g < l.length := (List.getElem?_eq_some_iff.mp hx).1
    obtain ⟨i, rfl⟩ : ∃ i, g = l.length - cap + i := ⟨g - (l.length - cap), by omega⟩
    have hget := congrArg (fun m => m[i]?) hread
    simp only [getElem?_read (show i < min l.length cap by omega), getElem?_rtake, hx] at hget
    exact Option.some.inj hget
  · intro hholds
    apply List.ext_getElem?
    intro i
    rw [getElem?_rtake]
    by_cases hi : i < min l.length cap
    · have hlt : l.length - cap + i < l.length := by omega
      rw [getElem?_read hi, List.getElem?_eq_getElem hlt]
      exact congrArg some (hholds _ _ (by omega) (List.getElem?_eq_getElem hlt))
    · rw [List.getElem?_eq_none (by rw [length_read]; omega),
        List.getElem?_eq_none (by omega)]

/-- The elements that were there and still count, and the new ones. -/
theorem holds_append_iff (hys : ys.length ≤ cap) : Holds slot N cap (l ++ ys) ↔
    (∀ g x, l.length + ys.length ≤ g + cap → l[g]? = some x → slot (g % N) = x) ∧
      ∀ k x, ys[k]? = some x → slot ((l.length + k) % N) = x := by
  constructor
  · intro hholds
    constructor
    · intro g x hg hx
      have hlt : g < l.length := (List.getElem?_eq_some_iff.mp hx).1
      apply hholds g x (by rwa [List.length_append])
      rwa [List.getElem?_append_left hlt]
    · intro k x hx
      apply hholds (l.length + k) x (by rw [List.length_append]; omega)
      rwa [List.getElem?_append_right (by omega), Nat.add_sub_cancel_left]
  · rintro ⟨hold, hnew⟩ g x hg hx
    rw [List.length_append] at hg
    by_cases hlt : g < l.length
    · rw [List.getElem?_append_left hlt] at hx
      exact hold g x hg hx
    · obtain ⟨k, rfl⟩ : ∃ k, g = l.length + k := ⟨g - l.length, by omega⟩
      rw [List.getElem?_append_right (by omega), Nat.add_sub_cancel_left] at hx
      exact hnew k x hx

/-! ## Elements that come late -/

/-- Elements in their places up to number `f`, and each one after that in the place of the next: they
are all in their places exactly when those from `f` on are what place `f` holds. -/
theorem delayed_iff {place : Nat → α} {f : Nat} {last : α}
    (hfront : ∀ k < f, ∀ x, ys[k]? = some x → place k = x) (hlast : place f = last)
    (hback : ∀ k, f ≤ k → k + 1 < ys.length → ∀ x, ys[k]? = some x → place (k + 1) = x) :
    (∀ k x, ys[k]? = some x → place k = x) ↔ ∀ x ∈ ys.drop f, x = last := by
  constructor
  · intro hall x hx
    obtain ⟨m, hm⟩ := List.mem_iff_getElem?.mp hx
    rw [List.getElem?_drop] at hm
    clear hx
    induction m generalizing x with
    | zero => exact (hall f x hm).symm.trans hlast
    | succ m ih =>
        -- the place holds the element before, which is the last one by induction
        have hlt : f + m + 1 < ys.length := (List.getElem?_eq_some_iff.mp hm).1
        have hprev := List.getElem?_eq_getElem (Nat.lt_of_succ_lt hlt)
        have hplace := hback (f + m) (Nat.le_add_right f m) hlt _ hprev
        exact (hall (f + m + 1) x hm).symm.trans (hplace.trans (ih _ hprev))
  · intro hsame k x hx
    have hlt : k < ys.length := (List.getElem?_eq_some_iff.mp hx).1
    have hmem : ∀ j z, f ≤ j → ys[j]? = some z → z = last := by
      intro j z hj hz
      apply hsame
      rw [List.mem_iff_getElem?]
      refine ⟨j - f, ?_⟩
      rwa [List.getElem?_drop, Nat.add_sub_cancel' hj]
    rcases Nat.lt_trichotomy k f with hk | rfl | hk
    · exact hfront k hk x hx
    · rw [hlast, hmem k x (Nat.le_refl k) hx]
    · obtain ⟨j, rfl⟩ : ∃ j, k = j + 1 := ⟨k - 1, by omega⟩
      have hprev := List.getElem?_eq_getElem (Nat.lt_of_succ_lt hlt)
      rw [hback j (by omega) hlt _ hprev, hmem j _ (by omega) hprev, hmem (j + 1) x (by omega) hx]

end Circular
