import Mathlib.Algebra.Group.Int.Defs
import Mathlib.Algebra.Group.Nat.Defs
import Mathlib.Data.List.Basic
import Mathlib.Tactic.Common

/-!
# Buffers of 16-bit samples

Sound in 16 bits is a list of bytes: two for each sample, the low one first, and the samples of the
channels that belong to one moment behind each other.

- `int16s`: the samples in a list of bytes.
- `interleave`: the order in which the samples of several channels stand.
- `Cursor`: a buffer that is written through a running index.

`Cursor.putAll_fill` says what a loop leaves in a buffer that it fills from the first byte to the
last, `getElem?_interleave` where a sample is found in it.
-/

namespace Pcm

abbrev Byte := UInt8

/-! ## Two bytes -/

/-- The signed value of two bytes, the low one first. -/
def int16 (lo hi : Byte) : Int :=
  let value : Int := lo.toNat + 256 * hi.toNat
  if value < 32768 then value else value - 65536

/-- The samples that a list of bytes stands for; a single last byte is not a sample. -/
def int16s : List Byte → List Int
  | lo :: hi :: bytes => int16 lo hi :: int16s bytes
  | _ => []

/-- A value of 16 bits is read back exactly when both bytes are its own. -/
theorem int16_eq_iff {lo hi : Byte} {x : Int} (hlow : -32768 ≤ x) (hhigh : x < 32768) :
    int16 lo hi = x ↔ (lo.toNat : Int) = x % 256 ∧ (hi.toNat : Int) = x / 256 % 256 := by
  have hlo : lo.toNat < 256 := lo.toNat_lt
  have hhi : hi.toNat < 256 := hi.toNat_lt
  unfold int16
  generalize lo.toNat = a at *
  generalize hi.toNat = b at *
  show (if (a + 256 * b : Int) < 32768 then (a + 256 * b : Int) else a + 256 * b - 65536) = x ↔ _
  split <;> omega

theorem int16s_flatMap {α : Type*} (l : List α) (lo hi : α → Byte) :
    int16s (l.flatMap fun x => [lo x, hi x]) = l.map fun x => int16 (lo x) (hi x) := by
  induction l with
  | nil => rfl
  | cons x l ih =>
      show int16 (lo x) (hi x) :: int16s (l.flatMap fun x => [lo x, hi x]) = _
      rw [ih, List.map_cons]

/-! ## The bytes of a word -/

/-- The conversion of a word to a `char`. -/
def toByte (x : Int32) : Byte := x.toUInt32.toUInt8

theorem toNat_toUInt32 (x : Int32) : (x.toUInt32.toNat : Int) = x.toInt % 2 ^ 32 := by
  have hlt : x.toBitVec.toNat < 2 ^ 32 := x.toBitVec.isLt
  have hmod : ((x.toBitVec.toNat : Int).bmod (2 ^ 32)) % ((2 ^ 32 : Nat) : Int) =
      (x.toBitVec.toNat : Int) % ((2 ^ 32 : Nat) : Int) := Int.bmod_emod
  rw [← Int32.toInt_toBitVec, BitVec.toInt_eq_toNat_bmod]
  show (x.toBitVec.toNat : Int) = _ % ((2 ^ 32 : Nat) : Int)
  rw [hmod, ← Int.natCast_emod, Nat.mod_eq_of_lt hlt]

theorem toNat_toByte (x : Int32) : ((toByte x).toNat : Int) = x.toInt % 256 := by
  have hword := toNat_toUInt32 x
  rw [toByte, UInt32.toNat_toUInt8]
  omega

theorem toInt_shiftRight_eight (x : Int32) : (x >>> 8).toInt = x.toInt / 256 := by
  rw [← Int32.toInt_toBitVec, Int32.toBitVec_shiftRight, BitVec.toInt_sshiftRight',
    Int32.toInt_toBitVec, Int.shiftRight_eq_div_pow]
  rfl

theorem toInt_shiftRight_thirteen (x : Int32) : (x >>> 13).toInt = x.toInt / 8192 := by
  rw [← Int32.toInt_toBitVec, Int32.toBitVec_shiftRight, BitVec.toInt_sshiftRight',
    Int32.toInt_toBitVec, Int.shiftRight_eq_div_pow]
  rfl

theorem toNat_low_byte (x : UInt32) : (x &&& 0xff).toUInt8.toNat = x.toNat % 256 := by
  have hmask : x.toNat &&& 255 = x.toNat % 256 := Nat.and_two_pow_sub_one_eq_mod x.toNat 8
  rw [UInt32.toNat_toUInt8, UInt32.toNat_and]
  show (x.toNat &&& 255) % 256 = _
  omega

theorem toNat_second_byte (x : UInt32) : (x >>> 8).toUInt8.toNat = x.toNat / 256 % 256 := by
  rw [UInt32.toNat_toUInt8, UInt32.toNat_shiftRight, Nat.shiftRight_eq_div_pow]
  rfl

/-! ## Interleaved samples -/

section Interleave

variable {α β : Type*} {channels blocksize : Nat} {sample : Nat → Nat → α}

/-- The samples `sample i j` of channel `i` at the moment `j`, moment by moment. -/
def interleave (channels blocksize : Nat) (sample : Nat → Nat → α) : List α :=
  (List.range blocksize).flatMap fun j => (List.range channels).map fun i => sample i j

theorem interleave_succ : interleave channels (blocksize + 1) sample =
    interleave channels blocksize sample ++ (List.range channels).map fun i => sample i blocksize := by
  rw [interleave, List.range_succ, List.flatMap_append, List.flatMap_singleton]
  rfl

@[simp] theorem length_interleave :
    (interleave channels blocksize sample).length = blocksize * channels := by
  induction blocksize with
  | zero => simp [interleave]
  | succ n ih => rw [interleave_succ, List.length_append, ih, List.length_map, List.length_range,
      Nat.succ_mul]

/-- **Where a sample stands.** -/
theorem getElem?_interleave {i j : Nat} (hi : i < channels) (hj : j < blocksize) :
    (interleave channels blocksize sample)[j * channels + i]? = some (sample i j) := by
  induction blocksize with
  | zero => omega
  | succ n ih =>
      rw [interleave_succ]
      obtain hlt | rfl : j < n ∨ j = n := by omega
      · have hbound : j * channels + i < n * channels := by
          calc j * channels + i < (j + 1) * channels := by rw [Nat.succ_mul]; omega
            _ ≤ n * channels := Nat.mul_le_mul_right channels hlt
        rw [List.getElem?_append_left (by rwa [length_interleave])]
        exact ih hlt
      · rw [List.getElem?_append_right (by rw [length_interleave]; omega), length_interleave,
          Nat.add_sub_cancel_left]
        simp [hi]

theorem map_interleave (f : α → β) : (interleave channels blocksize sample).map f =
    interleave channels blocksize fun i j => f (sample i j) := by
  rw [interleave, interleave, List.map_flatMap]
  simp only [List.map_map, Function.comp_def]

end Interleave

/-! ## Writing through a running index -/

/-- A buffer and the index of the next element. -/
structure Cursor (α : Type*) where
  buffer : List α
  k : Nat
  deriving DecidableEq, Repr

namespace Cursor

variable {α β : Type*}

/-- `buffer[ k++ ] = x`; `none` outside of the buffer. -/
def put (c : Cursor α) (x : α) : Option (Cursor α) :=
  if c.k < c.buffer.length then some ⟨c.buffer.set c.k x, c.k + 1⟩ else none

def putAll (c : Cursor α) (xs : List α) : Option (Cursor α) := xs.foldlM put c

theorem putAll_pair (c : Cursor α) (x y : α) :
    c.putAll [x, y] = (c.put x).bind fun c => c.put y := by
  show ((c.put x).bind fun c => (c.put y).bind some) = _
  simp only [Option.bind_fun_some]

theorem putAll_append (c : Cursor α) (xs ys : List α) :
    c.putAll (xs ++ ys) = (c.putAll xs).bind fun c => c.putAll ys := by
  rw [putAll, List.foldlM_append]
  rfl

/-- A loop whose turns write lists writes the lists behind each other. -/
theorem foldlM_putAll {step : Cursor α → β → Option (Cursor α)} {f : β → List α}
    (hstep : ∀ c b, step c b = c.putAll (f b)) (l : List β) (c : Cursor α) :
    l.foldlM step c = c.putAll (l.flatMap f) := by
  induction l generalizing c with
  | nil => rfl
  | cons b l ih =>
      rw [List.foldlM_cons, hstep, List.flatMap_cons, putAll_append]
      cases c.putAll (f b) with
      | none => rfl
      | some c => exact ih c

theorem putAll_eq (xs : List α) (c : Cursor α) (h : c.k + xs.length ≤ c.buffer.length) :
    c.putAll xs = some ⟨c.buffer.take c.k ++ xs ++ c.buffer.drop (c.k + xs.length),
      c.k + xs.length⟩ := by
  induction xs generalizing c with
  | nil => simp [putAll]
  | cons x xs ih =>
      rw [List.length_cons] at h
      have hk : c.k < c.buffer.length := by omega
      show (c.put x).bind (fun c => c.putAll xs) = _
      rw [put, if_pos hk, Option.bind_some, ih _ (by simp; omega)]
      have htake : (c.buffer.set c.k x).take (c.k + 1) = c.buffer.take c.k ++ [x] := by
        rw [List.take_add_one, List.take_set_of_le (Nat.le_refl _), List.getElem?_set_self hk]
        rfl
      have hdrop : (c.buffer.set c.k x).drop (c.k + (xs.length + 1)) =
          c.buffer.drop (c.k + (xs.length + 1)) := List.drop_set_of_lt (by omega)
      simp [htake, hdrop, Nat.add_assoc, Nat.add_comm 1]

/-- **A buffer that is filled from its first element to its last holds what was written.** -/
theorem putAll_fill {buffer xs : List α} (h : xs.length = buffer.length) :
    (Cursor.mk buffer 0).putAll xs = some ⟨xs, xs.length⟩ := by
  rw [putAll_eq _ _ (by simp [h])]
  simp [h]

end Cursor

end Pcm
