import Mathlib.Data.List.Basic
import Mathlib.Tactic.Common

/-!
# Arrays that grow

An array with a count of what is in it and the size that was allocated. Before an element is added
the array is made longer if it is full, twice as long unless it is empty. A cell that was allocated
and not written to yet is `none`, and a write outside of the memory fails.

`Holds` is the invariant: the memory is as long as the array says, and starts with these elements.
`Holds.ensureAlloc` makes room and loses nothing, and then `Holds.push` succeeds.
-/

structure GrowingArray (α : Type*) where
  cells : List (Option α)
  count : Nat
  allocated : Nat

namespace GrowingArray

variable {α : Type*} {a : GrowingArray α} {xs : List α}

def empty : GrowingArray α := ⟨[], 0, 0⟩

/-- `realloc`: what fits is kept. -/
def resize (cells : List (Option α)) (size : Nat) : List (Option α) :=
  cells.take size ++ List.replicate (size - cells.length) none

/-- Make room for one more element. -/
def ensureAlloc (initial : Nat) (a : GrowingArray α) : GrowingArray α :=
  if a.allocated ≤ a.count then
    let allocated := if a.count = 0 then initial else a.allocated * 2
    { a with cells := resize a.cells allocated, allocated }
  else a

/-- Write to the next cell. -/
def push (x : α) (a : GrowingArray α) : Option (GrowingArray α) :=
  if a.count < a.cells.length then
    some { a with cells := a.cells.set a.count (some x), count := a.count + 1 }
  else none

structure Holds (a : GrowingArray α) (xs : List α) : Prop where
  count : a.count = xs.length
  memory : a.cells.length = a.allocated
  room : a.count ≤ a.allocated
  cells : a.cells.take a.count = xs.map some

theorem holds_empty : (empty : GrowingArray α).Holds [] := ⟨rfl, rfl, Nat.le_refl 0, rfl⟩

@[simp] theorem length_resize (cells : List (Option α)) (size : Nat) :
    (resize cells size).length = size := by
  rw [resize, List.length_append, List.length_take, List.length_replicate]
  omega

/-- The beginning is kept. -/
theorem take_resize {cells : List (Option α)} {n size : Nat} (hn : n ≤ cells.length)
    (hsize : n ≤ size) : (resize cells size).take n = cells.take n := by
  rw [resize, List.take_append_of_le_length (by rw [List.length_take]; omega), List.take_take,
    Nat.min_eq_left hsize]

theorem Holds.count_le_length (h : a.Holds xs) : a.count ≤ a.cells.length := h.memory ▸ h.room

/-- An array of any greater size holds the same. -/
theorem Holds.resize (h : a.Holds xs) {size : Nat} (hsize : a.count ≤ size) :
    { a with cells := GrowingArray.resize a.cells size, allocated := size : GrowingArray α }.Holds
      xs :=
  ⟨h.count, length_resize a.cells size, hsize,
    (take_resize h.count_le_length hsize).trans h.cells⟩

/-- **There is a cell to write to**, and nothing is lost. -/
theorem Holds.ensureAlloc (h : a.Holds xs) {initial : Nat} (hinitial : 0 < initial) :
    (a.ensureAlloc initial).Holds xs ∧
      (a.ensureAlloc initial).count < (a.ensureAlloc initial).allocated := by
  have hroom := h.room
  unfold GrowingArray.ensureAlloc
  split
  · next hfull =>
      obtain ⟨allocated, hallocated, hlt⟩ : ∃ allocated,
          (if a.count = 0 then initial else a.allocated * 2) = allocated ∧
            a.count < allocated := by
        refine ⟨_, rfl, ?_⟩
        split <;> omega
      simp only [hallocated]
      exact ⟨h.resize (Nat.le_of_lt hlt), hlt⟩
  · next hfree => exact ⟨h, Nat.not_le.mp hfree⟩

theorem Holds.push (h : a.Holds xs) (hroom : a.count < a.allocated) (x : α) :
    ∃ a', a.push x = some a' ∧ a'.Holds (xs ++ [x]) := by
  have hcell : a.count < a.cells.length := h.memory ▸ hroom
  refine ⟨_, if_pos hcell, ?_, ?_, hroom, ?_⟩
  · rw [List.length_append, h.count]
    rfl
  · rw [List.length_set]
    exact h.memory
  · rw [List.take_add_one, List.take_set_of_le (Nat.le_refl _), h.cells,
      List.getElem?_set_self hcell, List.map_append]
    rfl

/-- Growing and writing never fails. -/
theorem Holds.add (h : a.Holds xs) {initial : Nat} (hinitial : 0 < initial) (x : α) :
    ∃ a', (a.ensureAlloc initial).push x = some a' ∧ a'.Holds (xs ++ [x]) := by
  obtain ⟨hholds, hroom⟩ := h.ensureAlloc hinitial
  exact hholds.push hroom x

/-- The array cut to what is in it. -/
theorem Holds.trim (h : a.Holds xs) : GrowingArray.resize a.cells a.count = xs.map some := by
  have hle := h.count_le_length
  rw [GrowingArray.resize, Nat.sub_eq_zero_of_le hle, h.cells]
  exact List.append_nil _

end GrowingArray
