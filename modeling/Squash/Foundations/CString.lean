import Mathlib.Data.List.Basic
import Mathlib.Tactic.Common

/-!
# Strings that end with a terminator

A pointer is the list of what lies from there to the end of its object, and a string in memory ends
at the first terminator. The functions below read one element after another and answer `none` when
they would read beyond the object; on strings with their terminators they never do:

    strlen_terminated, strcmp_terminated, strncmp_terminated, strncmp_whole, strpbrk_terminated

`strsep` takes pieces off a string and writes terminators between them. `strstr` is about strings
without their terminators, and finds all parts of a string (`strstr_isSome`).
-/

namespace CString

variable {α : Type*} [DecidableEq α] (nul : α)

def strlen : List α → Option Nat
  | [] => none
  | c :: s => if c = nul then some 0 else (strlen s).map (· + 1)

/-- `strcmp( s, t ) == 0`. -/
def strcmp : List α → List α → Option Bool
  | c :: s, d :: t => if c ≠ d then some false else if c = nul then some true else strcmp s t
  | _, _ => none

/-- `strncmp( s, t, n ) == 0`. -/
def strncmp : Nat → List α → List α → Option Bool
  | 0, _, _ => some true
  | n + 1, c :: s, d :: t =>
    if c ≠ d then some false else if c = nul then some true else strncmp n s t
  | _ + 1, _, _ => none

variable {nul} {s t : List α}

theorem strlen_terminated (h : nul ∉ s) (rest : List α) :
    strlen nul (s ++ nul :: rest) = some s.length := by
  induction s with
  | nil => simp [strlen]
  | cons c s ih =>
      have hc : c ≠ nul := fun hc => h (by simp [hc])
      rw [List.cons_append, strlen, if_neg hc, ih fun hmem => h (List.mem_cons_of_mem c hmem)]
      rfl

/-- So many characters of two strings are compared, and none beyond their ends. -/
theorem strncmp_strings (hs : nul ∉ s) (ht : nul ∉ t) (n : Nat) (rest rest' : List α) :
    strncmp nul n (s ++ nul :: rest) (t ++ nul :: rest') =
      some (decide (s.take n = t.take n)) := by
  induction n generalizing s t with
  | zero => simp [strncmp]
  | succ n ih =>
      cases s with
      | nil =>
          cases t with
          | nil => simp [strncmp]
          | cons d t =>
              have hd : nul ≠ d := fun hd => ht (by simp [hd])
              simp [strncmp, hd]
      | cons c s =>
          have hc : c ≠ nul := fun hc => hs (by simp [hc])
          cases t with
          | nil => simp [strncmp, hc]
          | cons d t =>
              have hrest := ih (fun hmem => hs (List.mem_cons_of_mem c hmem))
                fun hmem => ht (List.mem_cons_of_mem d hmem)
              by_cases hcd : c = d
              · subst hcd
                simp [strncmp, hc, hrest]
              · simp [strncmp, hcd]

/-- Beyond the terminator the bound does not matter. -/
theorem strncmp_eq_strcmp {n : Nat} (hn : s.length < n) (rest u : List α) :
    strncmp nul n (s ++ nul :: rest) u = strcmp nul (s ++ nul :: rest) u := by
  induction s generalizing n u with
  | nil =>
      obtain ⟨n, rfl⟩ := Nat.exists_eq_add_of_lt hn
      cases u with
      | nil => rfl
      | cons d u => simp [strncmp, strcmp]
  | cons c s ih =>
      rw [List.length_cons] at hn
      obtain ⟨n, rfl⟩ := Nat.exists_eq_add_of_lt hn
      cases u with
      | nil => rfl
      | cons d u => rw [List.cons_append, strncmp, strcmp, ih (by omega)]

/-- **Strings are compared as a whole**, and not beyond their ends. -/
theorem strcmp_terminated (hs : nul ∉ s) (ht : nul ∉ t) (rest rest' : List α) :
    strcmp nul (s ++ nul :: rest) (t ++ nul :: rest') = some (decide (s = t)) := by
  rw [← strncmp_eq_strcmp (by omega : s.length < s.length + t.length + 1), strncmp_strings hs ht,
    List.take_of_length_le (by omega), List.take_of_length_le (by omega)]

/-- A string is compared with the beginning of another. -/
theorem strncmp_terminated (hs : nul ∉ s) (ht : nul ∉ t) (rest rest' : List α) :
    strncmp nul s.length (s ++ nul :: rest) (t ++ nul :: rest') = some (decide (s <+: t)) := by
  rw [strncmp_strings hs ht, List.take_length]
  simp only [List.prefix_iff_eq_take]

/-- With the terminator it is compared as a whole. -/
theorem strncmp_whole (hs : nul ∉ s) (ht : nul ∉ t) (rest rest' : List α) :
    strncmp nul (s.length + 1) (s ++ nul :: rest) (t ++ nul :: rest') =
      some (decide (s = t)) := by
  rw [strncmp_eq_strcmp (Nat.lt_succ_self _), strcmp_terminated hs ht]

/-! ## Searching a string -/

/-- `strstr( haystack, needle )` on the strings themselves: the rest of the first from where the
second is found. -/
def strstr (haystack needle : List α) : Option (List α) :=
  if needle.isPrefixOf haystack then some haystack
  else match haystack with
    | [] => none
    | _ :: haystack => strstr haystack needle

/-- It finds a part of the string. -/
theorem strstr_isSome (haystack needle : List α) :
    (strstr haystack needle).isSome = true ↔ needle <:+: haystack := by
  induction haystack with
  | nil =>
      cases needle with
      | nil => simp [strstr]
      | cons c needle => simp [strstr]
  | cons c haystack ih =>
      rw [strstr, List.infix_cons_iff, ← ih]
      by_cases hprefix : needle <+: c :: haystack
      · simp [List.isPrefixOf_iff_prefix.mpr hprefix, hprefix]
      · have hno : needle.isPrefixOf (c :: haystack) = false := by
          rw [Bool.eq_false_iff]
          exact fun h => hprefix (List.isPrefixOf_iff_prefix.mp h)
        simp [hno, hprefix]

section Search

variable (nul) (accept : α → Bool)

/-- `strpbrk( s, accept )`: where the first accepted element is, if there is one in front of the
terminator. -/
def strpbrk : List α → Option (Option Nat)
  | [] => none
  | c :: s =>
    if c = nul then some none
    else if accept c then some (some 0)
    else (strpbrk s).map (·.map (· + 1))

variable {nul accept} {line : List α} (hline : ∀ c ∈ line, c ≠ nul ∧ accept c = false)

include hline

theorem strpbrk_terminated (rest : List α) :
    strpbrk nul accept (line ++ nul :: rest) = some none := by
  induction line with
  | nil => simp [strpbrk]
  | cons c line ih =>
      obtain ⟨⟨hc, haccept⟩, hline⟩ := List.forall_mem_cons.mp hline
      rw [List.cons_append, strpbrk, if_neg hc, haccept, ih hline]
      rfl

theorem strpbrk_found {c : α} (hc : c ≠ nul) (haccept : accept c = true) (rest : List α) :
    strpbrk nul accept (line ++ c :: rest) = some (some line.length) := by
  induction line with
  | nil => simp [strpbrk, hc, haccept]
  | cons d line ih =>
      obtain ⟨⟨hd, hno⟩, hline⟩ := List.forall_mem_cons.mp hline
      rw [List.cons_append, strpbrk, if_neg hd, hno, ih hline]
      rfl

end Search

/-! ## Cutting a string into pieces -/

section Strsep

variable (nul) (delim : α)

/-- `strsep( &cur, delim )` for one delimiter: the memory afterwards, and where `cur` points to then,
which is nowhere after the last piece. -/
def strsep (memory : List α) (cur : Nat) : Option (List α × Option Nat) :=
  ((memory.drop cur).findIdx? fun c => c = delim ∨ c = nul).map fun k =>
    if memory[cur + k]? = some delim then (memory.set (cur + k) nul, some (cur + k + 1))
    else (memory, none)

variable {nul delim} {line : List α} (hdelim : delim ∉ line) (hnul : nul ∉ line) (pre : List α)

include hdelim hnul

theorem findIdx?_line : line.findIdx? (fun c => c = delim ∨ c = nul) = none := by
  rw [List.findIdx?_eq_none_iff]
  intro c hc
  have hne : c ≠ delim ∧ c ≠ nul := ⟨fun h => hdelim (h ▸ hc), fun h => hnul (h ▸ hc)⟩
  simp [hne.1, hne.2]

theorem findIdx?_piece {c : α} (hc : c = delim ∨ c = nul) (rest : List α) :
    ((pre ++ (line ++ c :: rest)).drop pre.length).findIdx? (fun c => c = delim ∨ c = nul) =
      some line.length := by
  rw [List.drop_left, List.findIdx?_append, findIdx?_line hdelim hnul, List.findIdx?_cons]
  simp [hc]

/-- A piece that ends at a delimiter, which is overwritten. -/
theorem strsep_delim (rest : List α) :
    strsep nul delim (pre ++ (line ++ delim :: rest)) pre.length =
      some (pre ++ (line ++ nul :: rest), some (pre.length + line.length + 1)) := by
  rw [strsep, findIdx?_piece hdelim hnul pre (.inl rfl), Option.map_some, if_pos (by simp)]
  simp

/-- The last piece. -/
theorem strsep_nul (hne : nul ≠ delim) (rest : List α) :
    strsep nul delim (pre ++ (line ++ nul :: rest)) pre.length =
      some (pre ++ (line ++ nul :: rest), none) := by
  rw [strsep, findIdx?_piece hdelim hnul pre (.inr rfl), Option.map_some, if_neg (by simp [hne])]

/-- Without a terminator the memory is left. -/
theorem strsep_end : strsep nul delim (pre ++ line) pre.length = none := by
  rw [strsep, List.drop_left, findIdx?_line hdelim hnul, Option.map_none]

end Strsep

end CString
