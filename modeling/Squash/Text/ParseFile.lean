import Squash.Foundations.Decimal

/-!
# `parse_file`

The reader of all of Squash's own files. It walks over the characters with a state machine and calls
`add_data` for each key it finds, with the header that was read last. The calls have no influence on
the reader, so the model lists them first (`parse`) and makes them afterwards (`parseFile`).

The source marks the token it is in by `cur_start` and `cur_end`; here a state carries the text
between the two, and the blanks after it that are part of the token only if more of it follows.
Texts are lists of characters. The C library takes them as strings, which end at the first NUL
(`cString`); where nothing is said about it, there is none.

The last section says how the lines that Squash itself writes are read back.
-/

namespace Squash

/-- A text as a C string ends at the first null character. -/
def cString (s : List Char) : List Char := s.takeWhile (· != '\x00')

theorem cString_append {s : List Char} (h : '\x00' ∉ s) (t : List Char) :
    cString (s ++ t) = s ++ cString t := by
  rw [cString, List.takeWhile_append_of_pos]
  · rfl
  · intro c hc
    rw [bne_iff_ne]
    rintro rfl
    exact h hc

theorem cString_eq_self {s : List Char} (h : '\x00' ∉ s) : cString s = s := by
  have happend := cString_append h []
  rw [List.append_nil] at happend
  exact happend.trans (List.append_nil s)

theorem not_mem_cString (s : List Char) : '\x00' ∉ cString s := by
  intro h
  have hne := List.mem_takeWhile_imp h
  exact absurd rfl (bne_iff_ne.mp hne)

/-- The arguments of one call of `add_data`; no value is the null pointer. -/
structure AddData where
  header : Option (List Char)
  key : List Char
  value : Option (List Char)
  deriving DecidableEq, Repr

inductive ParseState where
  | inComment
  | beforeToken
  | inHeader (text : List Char)
  | inKey (text gap : List Char)
  | beforeValue (key : List Char)
  | inValue (key text gap : List Char)
  deriving DecidableEq, Repr

structure Parser where
  state : ParseState
  curHeader : Option (List Char)
  deriving DecidableEq, Repr

def isBlank (c : Char) : Bool := c == ' ' || c == '\t'

def isEol (c : Char) : Bool := c == '\r' || c == '\n'

/-- One turn of the loop over the file. -/
def Parser.step (p : Parser) (c : Char) : Parser × List AddData :=
  match p.state with
  | .inComment => (if c = '\n' then { p with state := .beforeToken } else p, [])
  | .beforeToken =>
    (if c = '#' then { p with state := .inComment }
      else if isBlank c || isEol c then p
      else if c = '[' then { p with state := .inHeader [] }
      else { p with state := .inKey [c] [] }, [])
  | .inHeader text =>
    -- an empty header clears the current one
    (if c = ']' then ⟨.beforeToken, if text = [] then none else some text⟩
      else if isEol c then { p with state := .beforeToken }
      else { p with state := .inHeader (text ++ [c]) }, [])
  | .inKey text gap =>
    (if c = '=' then { p with state := .beforeValue text }
      else if isBlank c then { p with state := .inKey text (gap ++ [c]) }
      else if isEol c then { p with state := .beforeToken }
      else { p with state := .inKey (text ++ gap ++ [c]) [] }, [])
  | .beforeValue key =>
    if isBlank c then (p, [])
    else if isEol c then ({ p with state := .beforeToken }, [⟨p.curHeader, key, none⟩])
    else ({ p with state := .inValue key [c] [] }, [])
  | .inValue key text gap =>
    if isBlank c then ({ p with state := .inValue key text (gap ++ [c]) }, [])
    else if isEol c then ({ p with state := .beforeToken }, [⟨p.curHeader, key, some text⟩])
    else ({ p with state := .inValue key (text ++ gap ++ [c]) [] }, [])

/-- The `switch( state )` after the loop. -/
def Parser.finish (p : Parser) : List AddData :=
  match p.state with
  | .beforeValue key => [⟨p.curHeader, key, none⟩]
  | .inValue key text _ => [⟨p.curHeader, key, some text⟩]
  | _ => []

/-- The calls that the rest of the file leads to. -/
def parse (p : Parser) : List Char → List AddData
  | [] => p.finish
  | c :: rest => (p.step c).2 ++ parse (p.step c).1 rest

variable {α : Type}

/-- `parse_file` on a file's contents, with the boolean it returns. There is nothing to read when
the file cannot be opened, or when it is empty, since `mmap` fails then. A callback that follows a
null pointer ends the program. -/
def parseFile (contents : Option (List Char)) (addData : α → AddData → Option α) (data : α) :
    Option (α × Bool) :=
  match contents with
  | none | some [] => some (data, false)
  | some text => ((parse ⟨.beforeToken, none⟩ text).foldlM addData data).map (·, true)

theorem parseFile_some {text : List Char} (h : text ≠ []) (addData : α → AddData → Option α)
    (data : α) : parseFile (some text) addData data =
      ((parse ⟨.beforeToken, none⟩ text).foldlM addData data).map (·, true) := by
  cases text with
  | nil => exact absurd rfl h
  | cons c text => rfl

/-! ## Lines read back -/

/-- A text that the reader takes as it is: on one line, and not blank at either end. -/
structure Trimmed (s : List Char) : Prop where
  ne_nil : s ≠ []
  no_eol : ∀ c ∈ s, isEol c = false
  head : ∀ c ∈ s.head?, isBlank c = false
  last : ∀ c ∈ s.getLast?, isBlank c = false

/-- A text that the reader takes as a key. -/
structure IsKey (s : List Char) : Prop extends Trimmed s where
  no_eq : '=' ∉ s
  start : ∀ c ∈ s.head?, c ≠ '#' ∧ c ≠ '['

/-- Both as a test of the characters. -/
def isTrimmed (s : List Char) : Bool :=
  !s.isEmpty && s.all (fun c => !isEol c) && s.head?.all (fun c => !isBlank c) &&
    s.getLast?.all fun c => !isBlank c

def isKey (s : List Char) : Bool :=
  isTrimmed s && s.all (fun c => c != '=') && s.head?.all fun c => c != '#' && c != '['

theorem isTrimmed_iff {s : List Char} : isTrimmed s = true ↔ Trimmed s := by
  simp only [isTrimmed, Bool.and_eq_true, Bool.not_eq_true', List.isEmpty_eq_false_iff,
    List.all_eq_true, Option.all_eq_true]
  constructor
  · rintro ⟨⟨⟨hne, heol⟩, hhead⟩, hlast⟩
    exact ⟨hne, heol, hhead, hlast⟩
  · intro h
    exact ⟨⟨⟨h.ne_nil, h.no_eol⟩, h.head⟩, h.last⟩

theorem isKey_iff {s : List Char} : isKey s = true ↔ IsKey s := by
  simp only [isKey, Bool.and_eq_true, isTrimmed_iff, List.all_eq_true, bne_iff_ne, ne_eq,
    Option.all_eq_true]
  constructor
  · rintro ⟨⟨htrim, heq⟩, hstart⟩
    exact ⟨htrim, fun hmem => heq '=' hmem rfl, hstart⟩
  · intro h
    refine ⟨⟨h.toTrimmed, ?_⟩, h.start⟩
    rintro c hc rfl
    exact h.no_eq hc

instance (s : List Char) : Decidable (Trimmed s) := decidable_of_iff _ isTrimmed_iff

instance (s : List Char) : Decidable (IsKey s) := decidable_of_iff _ isKey_iff

/-- What `fprintf( file, "key=%s\n", value )` writes. -/
def keyLine (key value : List Char) : List Char := key ++ '=' :: value ++ ['\n']

theorem not_space {c : Char} (h : Decimal.isSpace c = false) :
    isBlank c = false ∧ isEol c = false := by
  have hne : ∀ d : Char, Decimal.isSpace d = true → c ≠ d := by
    rintro d hd rfl
    rw [h] at hd
    cases hd
  simp [isBlank, isEol, hne ' ' rfl, hne '\t' rfl, hne '\r' rfl, hne '\n' rfl]

variable {header : Option (List Char)} {rest : List Char}

theorem parse_comment (text : List Char) (h : '\n' ∉ text) :
    parse ⟨.beforeToken, header⟩ ('#' :: (text ++ '\n' :: rest)) =
      parse ⟨.beforeToken, header⟩ rest := by
  show parse ⟨.inComment, header⟩ (text ++ '\n' :: rest) = _
  induction text with
  | nil => rfl
  | cons c text ih =>
      have hc : c ≠ '\n' := fun hc => h (by simp [hc])
      rw [List.cons_append, parse]
      simp only [Parser.step, hc, if_false, List.nil_append]
      exact ih fun hmem => h (List.mem_cons_of_mem _ hmem)

theorem parse_newline : parse ⟨.beforeToken, header⟩ ('\n' :: rest) =
    parse ⟨.beforeToken, header⟩ rest := rfl

/-- The machine gathers a text of such characters, and keeps blanks back until something follows
them. -/
structure Gathers (state : List Char → List Char → ParseState) (takes : Char → Prop) : Prop where
  blank : ∀ {header text gap c}, takes c → isBlank c = true →
    Parser.step ⟨state text gap, header⟩ c = (⟨state text (gap ++ [c]), header⟩, [])
  char : ∀ {header text gap c}, takes c → isBlank c = false →
    Parser.step ⟨state text gap, header⟩ c = (⟨state (text ++ gap ++ [c]) [], header⟩, [])

theorem gathers_inKey : Gathers .inKey fun c => isEol c = false ∧ c ≠ '=' where
  blank := by
    rintro header text gap c ⟨heol, heq⟩ hblank
    simp [Parser.step, heq, hblank]
  char := by
    rintro header text gap c ⟨heol, heq⟩ hblank
    simp [Parser.step, heq, hblank, heol]

theorem gathers_inValue (key : List Char) : Gathers (.inValue key) fun c => isEol c = false where
  blank := by
    intro header text gap c heol hblank
    simp [Parser.step, hblank]
  char := by
    intro header text gap c heol hblank
    simp [Parser.step, hblank, heol]

section Gathers

variable {state : List Char → List Char → ParseState} {takes : Char → Prop}
  (h : Gathers state takes) {s : List Char} (hs : ∀ c ∈ s, takes c)

include h hs

/-- The rest of a key, or of a value, up to its last character. -/
theorem parse_gathers (hne : s ≠ []) (hlast : ∀ c ∈ s.getLast?, isBlank c = false)
    (text gap : List Char) :
    parse ⟨state text gap, header⟩ (s ++ rest) =
      parse ⟨state (text ++ gap ++ s) [], header⟩ rest := by
  induction s generalizing text gap with
  | nil => exact absurd rfl hne
  | cons c s ih =>
      obtain ⟨hc, hs⟩ := List.forall_mem_cons.mp hs
      rw [List.cons_append, parse]
      cases s with
      | nil =>
          rw [h.char hc (hlast c rfl)]
          rfl
      | cons d s =>
          have hlast' : ∀ c ∈ (d :: s).getLast?, isBlank c = false := by
            simpa [List.getLast?_cons_cons] using hlast
          cases hblank : isBlank c with
          | true =>
              rw [h.blank hc hblank, ih hs (List.cons_ne_nil d s) hlast']
              simp
          | false =>
              rw [h.char hc hblank, ih hs (List.cons_ne_nil d s) hlast']
              simp

/-- A key or a value behind its first character. -/
theorem parse_gathered {c : Char} (htrim : Trimmed (c :: s)) :
    parse ⟨state [c] [], header⟩ (s ++ rest) = parse ⟨state (c :: s) [], header⟩ rest := by
  by_cases hne : s = []
  · subst hne
    rfl
  · have hlast : ∀ d ∈ s.getLast?, isBlank d = false := by
      intro d hd
      apply htrim.last d
      rw [List.getLast?_cons, hd]
      rfl
    rw [parse_gathers h hs hne hlast]
    rfl

end Gathers

theorem parse_key {key : List Char} (h : IsKey key) :
    parse ⟨.beforeToken, header⟩ (key ++ '=' :: rest) =
      parse ⟨.beforeValue key, header⟩ rest := by
  obtain ⟨c, s, rfl⟩ := List.exists_cons_of_ne_nil h.ne_nil
  have hblank := h.head c rfl
  have heol := h.no_eol c List.mem_cons_self
  obtain ⟨hhash, hbracket⟩ := h.start c rfl
  have hstart : parse ⟨.beforeToken, header⟩ ((c :: s) ++ '=' :: rest) =
      parse ⟨.inKey [c] [], header⟩ (s ++ '=' :: rest) := by
    rw [List.cons_append, parse]
    simp [Parser.step, hhash, hbracket, hblank, heol]
  have hchars : ∀ d ∈ s, isEol d = false ∧ d ≠ '=' := by
    intro d hd
    refine ⟨h.no_eol d (List.mem_cons_of_mem _ hd), ?_⟩
    rintro rfl
    exact h.no_eq (List.mem_cons_of_mem _ hd)
  rw [hstart, parse_gathered gathers_inKey hchars h.toTrimmed]
  rfl

theorem parse_value {key value : List Char} (h : Trimmed value) :
    parse ⟨.beforeValue key, header⟩ (value ++ '\n' :: rest) =
      ⟨header, key, some value⟩ :: parse ⟨.beforeToken, header⟩ rest := by
  obtain ⟨c, s, rfl⟩ := List.exists_cons_of_ne_nil h.ne_nil
  have hblank := h.head c rfl
  have heol := h.no_eol c List.mem_cons_self
  have hstart : parse ⟨.beforeValue key, header⟩ ((c :: s) ++ '\n' :: rest) =
      parse ⟨.inValue key [c] [], header⟩ (s ++ '\n' :: rest) := by
    rw [List.cons_append, parse]
    simp [Parser.step, hblank, heol]
  have hchars : ∀ d ∈ s, isEol d = false := fun d hd => h.no_eol d (List.mem_cons_of_mem _ hd)
  rw [hstart, parse_gathered (gathers_inValue key) hchars h]
  rfl

/-- A line `key=value` leads to one call with that key and that value. -/
theorem parse_keyLine {key value : List Char} (hkey : IsKey key) (hvalue : Trimmed value) :
    parse ⟨.beforeToken, header⟩ (keyLine key value ++ rest) =
      ⟨header, key, some value⟩ :: parse ⟨.beforeToken, header⟩ rest := by
  have hline : keyLine key value ++ rest = key ++ '=' :: (value ++ '\n' :: rest) := by
    simp [keyLine]
  rw [hline, parse_key hkey, parse_value hvalue]

theorem trimmed_print (n : Int) : Trimmed (Decimal.print n) := by
  have hchar : ∀ c ∈ Decimal.print n, isBlank c = false ∧ isEol c = false := by
    intro c hc
    rcases Decimal.mem_print hc with rfl | hdigit
    · decide
    · obtain ⟨-, -, hspace⟩ := Decimal.isDigit_ne hdigit
      exact not_space hspace
  refine ⟨Decimal.print_ne_nil n, fun c hc => (hchar c hc).2, ?_, ?_⟩
  · intro c hc
    exact (hchar c (List.mem_of_mem_head? hc)).1
  · intro c hc
    exact (hchar c (List.mem_of_mem_getLast? hc)).1

/-- A line with a number. -/
theorem parse_numberLine {key : List Char} (hkey : IsKey key) (n : Int) :
    parse ⟨.beforeToken, header⟩ (keyLine key (Decimal.print n) ++ rest) =
      ⟨header, key, some (Decimal.print n)⟩ :: parse ⟨.beforeToken, header⟩ rest :=
  parse_keyLine hkey (trimmed_print n)

/-! ## Small letters -/

/-- Only capital letters become something else, and then a small letter. -/
theorem eq_of_toLower {c d : Char} (hc : ¬ ('a'.val ≤ c.val ∧ c.val ≤ 'z'.val))
    (h : d.toLower = c) : d = c := by
  unfold Char.toLower at h
  split at h
  · next hupper =>
      exfalso
      apply hc
      subst h
      have hge : 65 ≤ d.val.toNat := UInt32.le_iff_toNat_le.mp hupper.1
      have hle : d.val.toNat ≤ 90 := UInt32.le_iff_toNat_le.mp hupper.2
      have hsum : (d.val + ('a'.val - 'A'.val)).toNat = d.val.toNat + 32 := by
        have hoffset : ('a'.val - 'A'.val).toNat = 32 := rfl
        rw [UInt32.toNat_add, hoffset]
        exact Nat.mod_eq_of_lt (by omega)
      constructor
      · apply UInt32.le_iff_toNat_le.mpr
        rw [hsum]
        show 97 ≤ _
        omega
      · apply UInt32.le_iff_toNat_le.mpr
        rw [hsum]
        show _ ≤ 122
        omega
  · exact h

end Squash
