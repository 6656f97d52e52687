import Mathlib.Algebra.Group.Int.Defs
import Mathlib.Algebra.Group.Nat.Defs
import Mathlib.Data.List.Basic
import Mathlib.Tactic.Common

/-!
# Records in a byte memory

A memory gives a byte for each address. `store` writes bytes from an address on and `load` reads
some; what is read is what was stored there last (`load_store_self`, `load_store_of_disjoint`), and
a long store is a short one and another behind it (`store_append`).

A record is a list of fields that lie behind each other without gaps. `offset_disjoint` says that
two of its fields have no byte in common.
-/

namespace ByteMemory

variable {β : Type*} {m : Nat → β} {a b n : Nat} {bytes rest : List β}

/-! ## Loading and storing -/

def load (m : Nat → β) (a n : Nat) : List β := (List.range n).map fun i => m (a + i)

def store (m : Nat → β) (a : Nat) (bytes : List β) : Nat → β :=
  fun x => if a ≤ x then bytes.getD (x - a) (m x) else m x

@[simp] theorem length_load : (load m a n).length = n := by
  simp [load]

theorem getElem?_load {i : Nat} (hi : i < n) : (load m a n)[i]? = some (m (a + i)) := by
  simp [load, hi]

theorem store_at {i : Nat} {x : β} (h : bytes[i]? = some x) : store m a bytes (a + i) = x := by
  rw [store, if_pos (Nat.le_add_right a i), Nat.add_sub_cancel_left, List.getD_eq_getElem?_getD, h]
  rfl

theorem store_of_lt {x : Nat} (h : x < a) : store m a bytes x = m x := if_neg (Nat.not_le.mpr h)

theorem store_of_ge {x : Nat} (h : a + bytes.length ≤ x) : store m a bytes x = m x := by
  rw [store, if_pos (by omega), List.getD_eq_getElem?_getD, List.getElem?_eq_none (by omega)]
  rfl

/-- **What was stored is read back.** -/
@[simp] theorem load_store_self : load (store m a bytes) a bytes.length = bytes := by
  apply List.ext_getElem?
  intro i
  by_cases hi : i < bytes.length
  · rw [getElem?_load hi, List.getElem?_eq_getElem hi]
    exact congrArg some (store_at (List.getElem?_eq_getElem hi))
  · rw [List.getElem?_eq_none (by rw [length_load]; omega), List.getElem?_eq_none (by omega)]

/-- **A store changes nothing elsewhere.** -/
theorem load_store_of_disjoint (h : a + n ≤ b ∨ b + bytes.length ≤ a) :
    load (store m b bytes) a n = load m a n := by
  apply List.map_congr_left
  intro i hi
  have hi : i < n := List.mem_range.mp hi
  obtain h | h := h
  · exact store_of_lt (by omega)
  · exact store_of_ge (by omega)

theorem load_add (k : Nat) : load m a (k + n) = load m a k ++ load m (a + k) n := by
  simp only [load, List.range_add, List.map_append, List.map_map, Function.comp_def, Nat.add_assoc]

/-- A store at the beginning of what is read. -/
theorem load_store_beginning :
    load (store m a bytes) a (bytes.length + n) = bytes ++ load m (a + bytes.length) n := by
  rw [load_add, load_store_self, load_store_of_disjoint (.inr (Nat.le_refl _))]

/-- A long store is two short ones. -/
theorem store_append :
    store m a (bytes ++ rest) = store (store m a bytes) (a + bytes.length) rest := by
  funext x
  by_cases hbefore : x < a
  · rw [store_of_lt hbefore, store_of_lt (by omega), store_of_lt hbefore]
  · obtain ⟨i, rfl⟩ := Nat.exists_eq_add_of_le (Nat.not_lt.mp hbefore)
    by_cases hfirst : i < bytes.length
    · rw [store_of_lt (show a + i < a + bytes.length by omega),
        store_at (List.getElem?_eq_getElem hfirst)]
      apply store_at
      rw [List.getElem?_append_left hfirst, List.getElem?_eq_getElem hfirst]
    · obtain ⟨j, rfl⟩ := Nat.exists_eq_add_of_le (Nat.not_lt.mp hfirst)
      by_cases hsecond : j < rest.length
      · rw [← Nat.add_assoc, store_at (List.getElem?_eq_getElem hsecond), Nat.add_assoc]
        apply store_at
        rw [List.getElem?_append_right (Nat.le_add_right _ _), Nat.add_sub_cancel_left,
          List.getElem?_eq_getElem hsecond]
      · rw [store_of_ge (by rw [List.length_append]; omega), store_of_ge (by omega),
          store_of_ge (by omega)]

/-! ## Records -/

section Record

variable {F : Type*} [DecidableEq F] (size : F → Nat)

/-- Where a field begins. -/
def offset : List F → F → Nat
  | [], _ => 0
  | g :: fields, f => if g = f then 0 else size g + offset fields f

variable {size} {fields : List F} {f g : F}

/-- **The fields of a record do not overlap.** -/
theorem offset_disjoint (hf : f ∈ fields) (hg : g ∈ fields) (hne : f ≠ g) :
    offset size fields f + size f ≤ offset size fields g ∨
      offset size fields g + size g ≤ offset size fields f := by
  induction fields with
  | nil => cases hf
  | cons h fields ih =>
      rw [offset, offset]
      by_cases hhf : h = f
      · rw [if_pos hhf, if_neg (fun hhg => hne (hhf.symm.trans hhg)), hhf]
        omega
      · by_cases hhg : h = g
        · rw [if_neg hhf, if_pos hhg, hhg]
          omega
        · have hf' := (List.mem_cons.mp hf).resolve_left (Ne.symm hhf)
          have hg' := (List.mem_cons.mp hg).resolve_left (Ne.symm hhg)
          rw [if_neg hhf, if_neg hhg]
          have := ih hf' hg'
          omega

end Record

/-! ## Numbers -/

/-- The last `n` bytes of a number, the low one first. -/
def bytesLE : Nat → Nat → List UInt8
  | 0, _ => []
  | n + 1, x => UInt8.ofNat x :: bytesLE n (x / 256)

@[simp] theorem length_bytesLE (n x : Nat) : (bytesLE n x).length = n := by
  induction n generalizing x with
  | zero => rfl
  | succ n ih => rw [bytesLE, List.length_cons, ih]

theorem bytesLE_add (k n x : Nat) : bytesLE (k + n) x = bytesLE k x ++ bytesLE n (x / 256 ^ k) := by
  induction k generalizing x with
  | zero => rw [Nat.zero_add, Nat.pow_zero, Nat.div_one]; rfl
  | succ k ih =>
      rw [Nat.add_right_comm, bytesLE, ih, bytesLE, List.cons_append, Nat.div_div_eq_div_mul,
        Nat.pow_succ, Nat.mul_comm 256]

end ByteMemory
