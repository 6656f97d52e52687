import Mathlib.Data.List.TakeWhile
import Mathlib.Tactic.Common

/-!
# Decimal numbers in text

`print` is what `printf` writes for `%d` and `%ld`, `parse` what `atoi` and `atol` read: white
space, a sign, and digits up to the first other character. A number too large for the machine's
type is undefined behaviour for them; here the numbers are unbounded.

    parse_print : parse (print n) = n
-/

namespace Decimal

def print : Int → List Char
  | .ofNat n => Nat.toDigits 10 n
  | .negSucc n => '-' :: Nat.toDigits 10 (n + 1)

/-- `isspace` in the C locale. -/
def isSpace (c : Char) : Bool :=
  c == ' ' || ('\t'.toNat ≤ c.toNat && c.toNat ≤ '\r'.toNat)

/-- The number that the leading digits stand for. -/
def parseNat (s : List Char) : Nat := Nat.ofDigitChars 10 (s.takeWhile Char.isDigit) 0

def parse (s : List Char) : Int :=
  match s.dropWhile isSpace with
  | '-' :: s => -(parseNat s : Int)
  | '+' :: s => parseNat s
  | s => parseNat s

/-! ## Reading back what was written -/

theorem parseNat_toDigits (n : Nat) : parseNat (Nat.toDigits 10 n) = n := by
  have hdigits : (Nat.toDigits 10 n).takeWhile Char.isDigit = Nat.toDigits 10 n := by
    rw [List.takeWhile_eq_self_iff]
    intro c hc
    exact Nat.isDigit_of_mem_toDigits (by omega) (by omega) hc
  rw [parseNat, hdigits, Nat.ofDigitChars_toDigits (by omega) (by omega)]

theorem isDigit_ne {c : Char} (h : c.isDigit) : c ≠ '-' ∧ c ≠ '+' ∧ isSpace c = false := by
  rw [Char.isDigit_iff_toNat] at h
  refine ⟨?_, ?_, ?_⟩
  · rintro rfl
    exact absurd h (by decide)
  · rintro rfl
    exact absurd h (by decide)
  · have hspace : c ≠ ' ' := by
      rintro rfl
      exact absurd h (by decide)
    have htab : '\r'.toNat = 13 := rfl
    simp only [isSpace, htab, Bool.or_eq_false_iff, beq_eq_false_iff_ne, ne_eq, hspace,
      not_false_eq_true, Bool.and_eq_false_iff, decide_eq_false_iff_not, true_and]
    have hzero : '0'.toNat = 48 := rfl
    omega

theorem parse_print (n : Int) : parse (print n) = n := by
  cases n with
  | ofNat n =>
      obtain ⟨c, s, hs⟩ := List.exists_cons_of_ne_nil (Nat.toDigits_ne_nil (n := n) (b := 10))
      have hc : c.isDigit :=
        Nat.isDigit_of_mem_toDigits (b := 10) (n := n) (by omega) (by omega) (by simp [hs])
      obtain ⟨hminus, hplus, hspace⟩ := isDigit_ne hc
      have hvalue := parseNat_toDigits n
      rw [hs] at hvalue
      show parse (Nat.toDigits 10 n) = n
      rw [parse, hs, List.dropWhile_cons_of_neg (by simp [hspace])]
      split
      · next heq => exact absurd (List.cons.inj heq).1 hminus
      · next heq => exact absurd (List.cons.inj heq).1 hplus
      · rw [hvalue]
  | negSucc n =>
      show parse ('-' :: Nat.toDigits 10 (n + 1)) = Int.negSucc n
      rw [parse, List.dropWhile_cons_of_neg (by decide)]
      show -(parseNat (Nat.toDigits 10 (n + 1)) : Int) = Int.negSucc n
      rw [parseNat_toDigits]
      rfl

/-! ## The characters of a number -/

theorem print_ne_nil (n : Int) : print n ≠ [] := by
  cases n with
  | ofNat n => exact Nat.toDigits_ne_nil
  | negSucc n => exact List.cons_ne_nil _ _

theorem mem_print {n : Int} {c : Char} (h : c ∈ print n) : c = '-' ∨ c.isDigit := by
  cases n with
  | ofNat n => exact .inr (Nat.isDigit_of_mem_toDigits (by omega) (by omega) h)
  | negSucc n =>
      rcases List.mem_cons.mp h with h | h
      · exact .inl h
      · exact .inr (Nat.isDigit_of_mem_toDigits (by omega) (by omega) h)

end Decimal
