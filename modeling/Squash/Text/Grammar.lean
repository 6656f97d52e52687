import Mathlib.Data.List.DropRight
import Mathlib.Data.List.TakeWhile
import Squash.Foundations.Transition
import Squash.Text.ParseFile

/-!
# The line grammar of `parse_file`

The files are meant to be read line by line, and this is how: `readLine` says what a line is, on its
own, and `reference` which calls a text stands for. The reader is a machine over characters instead;
`runLine_reads` says where it stands at the end of a line.

The two differ in comments. Everywhere else a carriage return ends the line, but in a comment the
reader waits for the line feed, so the lines between the two are hidden from it (`mark`). It makes
the calls of the other lines (`parse_eq_visible`), and these are all the calls exactly when nothing
in the hidden lines matters (`parseFileCalls_eq_reference_iff`).
-/

namespace Squash

open Transition

/-! ## Lines -/

/-- What a line says. A header that is set to no name is `some none`. -/
structure Line where
  header : Option (Option (List Char))
  entry : Option (List Char × Option (List Char))
  comment : Bool
  deriving DecidableEq, Repr

def Line.nothing : Line := ⟨none, none, false⟩

/-- The text up to the first `c`. -/
def before (c : Char) (s : List Char) : List Char := s.takeWhile (· != c)

/-- The text behind the first `c`. -/
def after (c : Char) (s : List Char) : List Char := (s.dropWhile (· != c)).tail

def trimEnd (s : List Char) : List Char := s.rdropWhile isBlank

def headerName (s : List Char) : Option (List Char) := if s = [] then none else some s

def readValue (s : List Char) : Option (List Char) :=
  match s.dropWhile isBlank with
  | [] => none
  | c :: rest => some (trimEnd (c :: rest))

theorem length_after_le (c : Char) (s : List Char) : (after c s).length ≤ s.length := by
  have h := List.length_dropWhile_le (· != c) s
  rw [after, List.length_tail]
  omega

def readLine : List Char → Line
  | [] => .nothing
  | c :: rest =>
    if isBlank c then readLine rest
    else if c = '#' then ⟨none, none, true⟩
    else if c = '[' then
      if rest.contains ']' then
        -- what follows a header is read as a line again
        let line := readLine (after ']' rest)
        { line with header := line.header.or (some (headerName (before ']' rest))) }
      else .nothing
    else if rest.contains '=' then
      ⟨none, some (trimEnd (c :: before '=' rest), readValue (after '=' rest)), false⟩
    else .nothing
termination_by line => line.length
decreasing_by
  · exact Nat.lt_succ_self _
  · exact Nat.lt_succ_of_le (length_after_le ']' rest)

/-- The header in force behind a line. -/
def Line.headerFrom (line : Line) (header : Option (List Char)) : Option (List Char) :=
  line.header.getD header

/-- The call that a line leads to, if it has an entry. -/
def Line.calls (line : Line) (header : Option (List Char)) : List AddData :=
  (line.entry.map fun entry => ⟨line.headerFrom header, entry.1, entry.2⟩).toList

/-- The calls that lines lead to, from a header on. -/
def lineCalls : Option (List Char) → List Line → List AddData
  | _, [] => []
  | header, line :: lines => line.calls header ++ lineCalls (line.headerFrom header) lines

/-- **The reference.** The calls that a text leads to. -/
def reference (text : List Char) : List AddData :=
  lineCalls none ((text.splitOnP isEol).map readLine)

/-! ## The calls of `parse_file` -/

/-- Keep the calls that are made. -/
def record (calls : List AddData) (call : AddData) : Option (List AddData) := some (calls ++ [call])

/-- The calls of `parse_file` on a file's contents. -/
def parseFileCalls (text : List Char) : Option (List AddData) :=
  (parseFile (some text) record []).map Prod.fst

theorem foldlM_record (calls past : List AddData) :
    calls.foldlM record past = some (past ++ calls) := by
  induction calls generalizing past with
  | nil => simp
  | cons call calls ih =>
      rw [List.foldlM_cons, record]
      show List.foldlM record (past ++ [call]) calls = _
      rw [ih, List.append_assoc]
      rfl

theorem parseFileCalls_eq (text : List Char) :
    parseFileCalls text = some (parse ⟨.beforeToken, none⟩ text) := by
  cases text with
  | nil => rfl
  | cons c text =>
      rw [parseFileCalls, parseFile_some (List.cons_ne_nil c text), foldlM_record]
      rfl

/-! ## The machine over one line -/

/-- Where the machine stands after so many characters of a line. -/
def runLine (p : Parser) (line : List Char) : Parser := line.foldl (fun p c => (p.step c).1) p

@[simp] theorem runLine_nil (p : Parser) : runLine p [] = p := rfl

theorem runLine_cons (p : Parser) (c : Char) (line : List Char) :
    runLine p (c :: line) = runLine (p.step c).1 line := rfl

theorem runLine_append (p : Parser) (s t : List Char) :
    runLine p (s ++ t) = runLine (runLine p s) t := List.foldl_append

/-- Calls are made at the ends of lines only. -/
theorem step_of_not_eol {c : Char} (h : isEol c = false) (p : Parser) : (p.step c).2 = [] := by
  obtain ⟨state, header⟩ := p
  cases state with
  | beforeValue key =>
      cases hblank : isBlank c <;> simp [Parser.step, h, hblank]
  | inValue key text gap =>
      cases hblank : isBlank c <;> simp [Parser.step, h, hblank]
  | _ => rfl

theorem eq_before_after {c : Char} {s : List Char} (h : s.contains c = true) :
    s = before c s ++ c :: after c s := by
  induction s with
  | nil => cases h
  | cons d s ih =>
      by_cases hd : d = c
      · subst hd
        simp [before, after]
      · have hs : s.contains c = true := by simpa [Ne.symm hd] using h
        have ih := ih hs
        simpa [before, after, hd] using ih

theorem mem_before {c d : Char} {s : List Char} (h : d ∈ before c s) : d ∈ s ∧ d ≠ c := by
  refine ⟨(List.takeWhile_sublist _).subset h, ?_⟩
  simpa using List.mem_takeWhile_imp h

/-- A part of a line. -/
theorem noEol_before {s : List Char} (h : ∀ d ∈ s, isEol d = false) (c : Char) :
    ∀ d ∈ before c s, isEol d = false ∧ d ≠ c := by
  intro d hd
  obtain ⟨hmem, hne⟩ := mem_before hd
  exact ⟨h d hmem, hne⟩

theorem noEol_after {s : List Char} (h : ∀ d ∈ s, isEol d = false) (c : Char) :
    ∀ d ∈ after c s, isEol d = false := by
  intro d hd
  apply h d
  apply (List.dropWhile_suffix _).subset
  exact List.mem_of_mem_tail hd

theorem noEol_without {c : Char} {s : List Char} (h : ∀ d ∈ s, isEol d = false)
    (hno : s.contains c = false) : ∀ d ∈ s, isEol d = false ∧ d ≠ c := by
  intro d hd
  refine ⟨h d hd, ?_⟩
  rintro rfl
  simp [hd] at hno

/-- At the end of a line the machine does what it does at the end of the file, but a carriage return
does not get it out of a comment. -/
theorem step_of_eol {c : Char} (h : isEol c = true) (p : Parser) :
    p.step c = (⟨if p.state = .inComment ∧ c = '\r' then .inComment else .beforeToken,
      p.curHeader⟩, p.finish) := by
  have hc : c = '\r' ∨ c = '\n' := by simpa [isEol] using h
  obtain ⟨state, header⟩ := p
  cases hc with
  | inl hcr =>
      subst hcr
      cases state <;> rfl
  | inr hlf =>
      subst hlf
      cases state <;> rfl

variable {header : Option (List Char)}

theorem runLine_inComment (line : List Char) (h : ∀ c ∈ line, isEol c = false) :
    runLine ⟨.inComment, header⟩ line = ⟨.inComment, header⟩ := by
  induction line with
  | nil => rfl
  | cons c line ih =>
      have hc : c ≠ '\n' := by
        rintro rfl
        exact absurd (h '\n' List.mem_cons_self) (by decide)
      have hstep : (Parser.step ⟨.inComment, header⟩ c).1 = ⟨.inComment, header⟩ := if_neg hc
      rw [runLine_cons, hstep]
      exact ih fun d hd => h d (List.mem_cons_of_mem c hd)

theorem runLine_inHeader {s : List Char} (h : ∀ c ∈ s, isEol c = false ∧ c ≠ ']')
    (text : List Char) :
    runLine ⟨.inHeader text, header⟩ s = ⟨.inHeader (text ++ s), header⟩ := by
  induction s generalizing text with
  | nil => simp
  | cons c s ih =>
      obtain ⟨heol, hc⟩ := h c List.mem_cons_self
      have hstep : (Parser.step ⟨.inHeader text, header⟩ c).1 =
          ⟨.inHeader (text ++ [c]), header⟩ := by
        simp [Parser.step, heol, hc]
      rw [runLine_cons, hstep, ih fun d hd => h d (List.mem_cons_of_mem c hd), List.append_assoc]
      rfl

def gapEnd (s : List Char) : List Char := s.rtakeWhile isBlank

theorem trimEnd_snoc_blank {c : Char} (h : isBlank c = true) (w : List Char) :
    trimEnd (w ++ [c]) = trimEnd w ∧ gapEnd (w ++ [c]) = gapEnd w ++ [c] :=
  ⟨List.rdropWhile_concat_pos _ _ _ h, List.rtakeWhile_concat_pos _ _ _ h⟩

theorem trimEnd_snoc {c : Char} (h : isBlank c = false) (w : List Char) :
    trimEnd (w ++ [c]) = trimEnd w ++ gapEnd w ++ [c] ∧ gapEnd (w ++ [c]) = [] := by
  have hno : ¬ isBlank c = true := by simp [h]
  have hsplit : trimEnd w ++ gapEnd w = w := List.rdropWhile_append_rtakeWhile
  rw [hsplit]
  exact ⟨List.rdropWhile_concat_neg _ _ _ hno, List.rtakeWhile_concat_neg _ _ _ hno⟩

theorem trimEnd_singleton {c : Char} (h : isBlank c = false) :
    trimEnd [c] = [c] ∧ gapEnd [c] = [] := trimEnd_snoc h []

/-- What the machine gathers it keeps apart from the blanks behind it. -/
theorem runLine_gathers {state : List Char → List Char → ParseState} {takes : Char → Prop}
    (hstate : Gathers state takes) {s : List Char} (h : ∀ c ∈ s, takes c) (w : List Char) :
    runLine ⟨state (trimEnd w) (gapEnd w), header⟩ s =
      ⟨state (trimEnd (w ++ s)) (gapEnd (w ++ s)), header⟩ := by
  induction s generalizing w with
  | nil => simp
  | cons c s ih =>
      obtain ⟨hc, hs⟩ := List.forall_mem_cons.mp h
      have hstep : (Parser.step ⟨state (trimEnd w) (gapEnd w), header⟩ c).1 =
          ⟨state (trimEnd (w ++ [c])) (gapEnd (w ++ [c])), header⟩ := by
        cases hblank : isBlank c with
        | true =>
            obtain ⟨htext, hgap⟩ := trimEnd_snoc_blank hblank w
            rw [hstate.blank hc hblank, htext, hgap]
        | false =>
            obtain ⟨htext, hgap⟩ := trimEnd_snoc hblank w
            rw [hstate.char hc hblank, htext, hgap]
      rw [runLine_cons, hstep, ih hs, List.append_assoc]
      rfl

/-- A key starts with its first character, which is not blank. -/
theorem runLine_key {c : Char} {s : List Char} (hc : isBlank c = false)
    (h : ∀ d ∈ s, isEol d = false ∧ d ≠ '=') :
    runLine ⟨.inKey [c] [], header⟩ s =
      ⟨.inKey (trimEnd (c :: s)) (gapEnd (c :: s)), header⟩ := by
  obtain ⟨htext, hgap⟩ := trimEnd_singleton hc
  have hinKey : runLine ⟨.inKey (trimEnd [c]) (gapEnd [c]), header⟩ s = _ :=
    runLine_gathers gathers_inKey h [c]
  rw [htext, hgap] at hinKey
  exact hinKey

/-- Behind the `=` the machine reads the value. -/
theorem finish_beforeValue {s : List Char} (h : ∀ c ∈ s, isEol c = false) (key : List Char) :
    (runLine ⟨.beforeValue key, header⟩ s).curHeader = header ∧
      (runLine ⟨.beforeValue key, header⟩ s).state ≠ .inComment ∧
      (runLine ⟨.beforeValue key, header⟩ s).finish = [⟨header, key, readValue s⟩] := by
  induction s with
  | nil =>
      refine ⟨rfl, ?_, rfl⟩
      intro hstate
      cases hstate
  | cons c s ih =>
      have hs : ∀ d ∈ s, isEol d = false := fun d hd => h d (List.mem_cons_of_mem c hd)
      rw [runLine_cons]
      cases hblank : isBlank c with
      | true =>
          have hstep : (Parser.step ⟨.beforeValue key, header⟩ c).1 =
              ⟨.beforeValue key, header⟩ := by
            simp [Parser.step, hblank]
          have hvalue : readValue (c :: s) = readValue s := by
            simp [readValue, hblank]
          rw [hstep, hvalue]
          exact ih hs
      | false =>
          obtain ⟨htext, hgap⟩ := trimEnd_singleton hblank
          have hstep : (Parser.step ⟨.beforeValue key, header⟩ c).1 =
              ⟨.inValue key (trimEnd [c]) (gapEnd [c]), header⟩ := by
            simp [Parser.step, hblank, h c List.mem_cons_self, htext, hgap]
          have hvalue : readValue (c :: s) = some (trimEnd (c :: s)) := by
            simp [readValue, hblank]
          rw [hstep, runLine_gathers (gathers_inValue key) hs, hvalue]
          refine ⟨rfl, ?_, rfl⟩
          intro hstate
          cases hstate

/-- The machine stands at the end of a line that it has read. -/
structure Reads (p : Parser) (header : Option (List Char)) (line : Line) : Prop where
  inForce : p.curHeader = line.headerFrom header
  calls : p.finish = line.calls header
  comment : p.state = .inComment ↔ line.comment = true

theorem reads_key {c : Char} {rest : List Char} (hc : isBlank c = false)
    (hrest : ∀ d ∈ rest, isEol d = false) (h : rest.contains '=' = true) :
    Reads (runLine ⟨.inKey [c] [], header⟩ rest) header
      ⟨none, some (trimEnd (c :: before '=' rest), readValue (after '=' rest)), false⟩ := by
  have hrun : runLine ⟨.inKey [c] [], header⟩ rest =
      runLine ⟨.beforeValue (trimEnd (c :: before '=' rest)), header⟩ (after '=' rest) := by
    conv => lhs; rw [eq_before_after h]
    rw [runLine_append, runLine_key hc (noEol_before hrest '='), runLine_cons]
    rfl
  obtain ⟨hheader, hstate, hfinish⟩ :=
    @finish_beforeValue header _ (noEol_after hrest '=') (trimEnd (c :: before '=' rest))
  rw [hrun]
  exact ⟨hheader, hfinish, iff_of_false hstate nofun⟩

theorem reads_noKey {c : Char} {rest : List Char} (hc : isBlank c = false)
    (hrest : ∀ d ∈ rest, isEol d = false) (h : rest.contains '=' = false) :
    Reads (runLine ⟨.inKey [c] [], header⟩ rest) header .nothing := by
  rw [runLine_key hc (noEol_without hrest h)]
  exact ⟨rfl, rfl, iff_of_false nofun nofun⟩

/-- A header is over at the first bracket; what follows is read as a line again. -/
theorem runLine_header {rest : List Char} (hrest : ∀ d ∈ rest, isEol d = false)
    (h : rest.contains ']' = true) :
    runLine ⟨.inHeader [], header⟩ rest =
      runLine ⟨.beforeToken, headerName (before ']' rest)⟩ (after ']' rest) := by
  conv => lhs; rw [eq_before_after h]
  rw [runLine_append, runLine_inHeader (noEol_before hrest ']'), runLine_cons]
  rfl

theorem reads_noHeader {rest : List Char} (hrest : ∀ d ∈ rest, isEol d = false)
    (h : rest.contains ']' = false) :
    Reads (runLine ⟨.inHeader [], header⟩ rest) header .nothing := by
  rw [runLine_inHeader (noEol_without hrest h)]
  exact ⟨rfl, rfl, iff_of_false nofun nofun⟩

/-- A header in front of a line is in force for it unless the line sets another. -/
theorem Reads.under {p : Parser} {name : Option (List Char)} {line : Line}
    (h : Reads p name line) :
    Reads p header { line with header := line.header.or (some name) } := by
  have hheader : ({ line with header := line.header.or (some name) } : Line).headerFrom header =
      line.headerFrom name := by
    obtain ⟨header', entry, comment⟩ := line
    cases header' <;> rfl
  refine ⟨h.inForce.trans hheader.symm, ?_, h.comment⟩
  rw [h.calls, Line.calls, Line.calls, hheader]

/-- **The machine reads lines.** -/
theorem runLine_reads (line : List Char) (h : ∀ c ∈ line, isEol c = false) :
    Reads (runLine ⟨.beforeToken, header⟩ line) header (readLine line) := by
  induction line using readLine.induct generalizing header with
  | case1 =>
      rw [readLine]
      exact ⟨rfl, rfl, iff_of_false nofun nofun⟩
  | case2 c rest hblank ih =>
      have hstep : (Parser.step ⟨.beforeToken, header⟩ c).1 = ⟨.beforeToken, header⟩ := by
        have hne : c ≠ '#' := by
          rintro rfl
          exact absurd hblank (by decide)
        simp [Parser.step, hblank, hne]
      rw [runLine_cons, hstep, readLine, if_pos hblank]
      exact ih (List.forall_mem_cons.mp h).2
  | case3 rest hblank =>
      have hrest := (List.forall_mem_cons.mp h).2
      rw [runLine_cons]
      show Reads (runLine ⟨.inComment, header⟩ rest) header _
      rw [runLine_inComment rest hrest, readLine]
      exact ⟨rfl, rfl, iff_of_true rfl rfl⟩
  | case4 rest hclosed hblank hne ih =>
      have hrest := (List.forall_mem_cons.mp h).2
      rw [runLine_cons]
      show Reads (runLine ⟨.inHeader [], header⟩ rest) header _
      rw [runLine_header hrest hclosed, readLine, if_neg hblank, if_neg hne, if_pos rfl,
        if_pos hclosed]
      exact (ih (noEol_after hrest ']')).under
  | case5 rest hopen hblank hne =>
      have hrest := (List.forall_mem_cons.mp h).2
      rw [runLine_cons]
      show Reads (runLine ⟨.inHeader [], header⟩ rest) header _
      rw [readLine, if_neg hblank, if_neg hne, if_pos rfl, if_neg hopen]
      apply reads_noHeader hrest
      simpa using hopen
  | case6 c rest hblank hhash hbracket hkey =>
      have hc : isBlank c = false := by simpa using hblank
      obtain ⟨hfirst, hrest⟩ := List.forall_mem_cons.mp h
      have hstep : (Parser.step ⟨.beforeToken, header⟩ c).1 = ⟨.inKey [c] [], header⟩ := by
        simp [Parser.step, hhash, hbracket, hc, hfirst]
      rw [runLine_cons, hstep, readLine, if_neg hblank, if_neg hhash, if_neg hbracket,
        if_pos hkey]
      exact reads_key hc hrest hkey
  | case7 c rest hblank hhash hbracket hkey =>
      have hc : isBlank c = false := by simpa using hblank
      obtain ⟨hfirst, hrest⟩ := List.forall_mem_cons.mp h
      have hstep : (Parser.step ⟨.beforeToken, header⟩ c).1 = ⟨.inKey [c] [], header⟩ := by
        simp [Parser.step, hhash, hbracket, hc, hfirst]
      rw [runLine_cons, hstep, readLine, if_neg hblank, if_neg hhash, if_neg hbracket,
        if_neg hkey]
      apply reads_noKey hc hrest
      simpa using hkey

/-! ## Hidden lines -/

/-- The lines of a text, each with whether a carriage return ended it. -/
def cut : List Char → List (List Char × Bool)
  | [] => [([], false)]
  | c :: rest =>
    if isEol c then ([], c == '\r') :: cut rest
    else (cut rest).modifyHead fun line => (c :: line.1, line.2)

/-- The lines, each with whether it is hidden: behind a comment that a carriage return ended, until
a line feed. -/
def mark : Bool → List (List Char × Bool) → List (Bool × Line)
  | _, [] => []
  | hidden, (text, cr) :: lines =>
    (hidden, readLine text) :: mark ((hidden || (readLine text).comment) && cr) lines

def marked (text : List Char) : List (Bool × Line) := mark false (cut text)

/-- The lines that are not hidden. -/
def visible (lines : List (Bool × Line)) : List Line :=
  (lines.filter fun line => !line.1).map Prod.snd

/-- More text in front of the first line. -/
def continued (read : List Char) (lines : List (List Char × Bool)) : List (List Char × Bool) :=
  lines.modifyHead fun line => (read ++ line.1, line.2)

theorem continued_nil (lines : List (List Char × Bool)) : continued [] lines = lines := by
  cases lines <;> rfl

theorem continued_eol {c : Char} (h : isEol c = true) (read text : List Char) :
    continued read (cut (c :: text)) = (read, c == '\r') :: cut text := by
  simp [continued, cut, h]

theorem continued_snoc {c : Char} (h : isEol c = false) (read text : List Char) :
    continued read (cut (c :: text)) = continued (read ++ [c]) (cut text) := by
  simp only [continued, cut, h, if_false, Bool.false_eq_true]
  cases cut text with
  | nil => rfl
  | cons line lines => simp

theorem cut_texts (text : List Char) : (cut text).map Prod.fst = text.splitOnP isEol := by
  induction text with
  | nil => rfl
  | cons c text ih =>
      rw [List.splitOnP_cons_eq_if_modifyHead, ← ih, cut]
      split
      · rfl
      · cases cut text <;> rfl

theorem mark_lines (hidden : Bool) (lines : List (List Char × Bool)) :
    (mark hidden lines).map Prod.snd = (lines.map Prod.fst).map readLine := by
  induction lines generalizing hidden with
  | nil => rfl
  | cons line lines ih =>
      rw [mark, List.map_cons, ih]
      rfl

/-- The reference reads all lines. -/
theorem reference_eq (text : List Char) :
    reference text = lineCalls none ((marked text).map Prod.snd) := by
  rw [marked, mark_lines, cut_texts, reference]

/-- Where the machine starts to read a line. -/
def lineStart (hidden : Bool) : ParseState := if hidden then .inComment else .beforeToken

/-- From the middle of a line, of which `read` was read, the machine makes the calls of the lines
that are not hidden. -/
theorem parse_runLine (text read : List Char) (hidden : Bool) (header : Option (List Char))
    (hread : ∀ c ∈ read, isEol c = false) :
    parse (runLine ⟨lineStart hidden, header⟩ read) text =
      lineCalls header (visible (mark hidden (continued read (cut text)))) := by
  induction text generalizing read hidden header with
  | nil =>
      cases hidden with
      | true =>
          show (runLine ⟨.inComment, header⟩ read).finish = []
          rw [runLine_inComment read hread]
          rfl
      | false =>
          have hreads := @runLine_reads header read hread
          show (runLine ⟨.beforeToken, header⟩ read).finish = lineCalls header [readLine (read ++ [])]
          rw [hreads.calls, List.append_nil, lineCalls, lineCalls, List.append_nil]
  | cons c text ih =>
      cases heol : isEol c with
      | true =>
          -- the next line starts with nothing read
          have hnext : ∀ hidden header, parse ⟨lineStart hidden, header⟩ text =
              lineCalls header (visible (mark hidden (cut text))) := by
            intro hidden header
            have hnext := ih [] hidden header nofun
            rw [continued_nil] at hnext
            exact hnext
          rw [parse, step_of_eol heol, continued_eol heol, mark]
          cases hidden with
          | true =>
              show (runLine ⟨.inComment, header⟩ read).finish ++ parse
                ⟨if (runLine ⟨.inComment, header⟩ read).state = .inComment ∧ c = '\r' then _ else _,
                  (runLine ⟨.inComment, header⟩ read).curHeader⟩ text =
                lineCalls header (visible (mark (c == '\r') (cut text)))
              rw [runLine_inComment read hread, ← hnext]
              by_cases hcr : c = '\r' <;> simp [hcr, lineStart, Parser.finish]
          | false =>
              have hreads := @runLine_reads header read hread
              show (runLine ⟨.beforeToken, header⟩ read).finish ++ parse
                ⟨if (runLine ⟨.beforeToken, header⟩ read).state = .inComment ∧ c = '\r' then _ else _,
                  (runLine ⟨.beforeToken, header⟩ read).curHeader⟩ text =
                (readLine read).calls header ++ lineCalls ((readLine read).headerFrom header)
                  (visible (mark ((readLine read).comment && c == '\r') (cut text)))
              rw [hreads.calls, hreads.inForce, ← hnext]
              simp only [hreads.comment, lineStart, Bool.and_eq_true, beq_iff_eq]
      | false =>
          have hsnoc : ∀ d ∈ read ++ [c], isEol d = false := by
            intro d hd
            rcases List.mem_append.mp hd with hd | hd
            · exact hread d hd
            · obtain rfl := List.mem_singleton.mp hd
              exact heol
          rw [parse, step_of_not_eol heol, continued_snoc heol, ← ih (read ++ [c]) hidden header hsnoc,
            runLine_append]
          rfl

/-- **`parse_file` makes the calls of the lines that are not hidden.** -/
theorem parse_eq_visible (text : List Char) :
    parse ⟨.beforeToken, none⟩ text = lineCalls none (visible (marked text)) := by
  have h := parse_runLine text [] false none nofun
  rw [continued_nil] at h
  exact h

/-! ## When nothing hidden matters -/

/-- The header in force behind some lines. -/
def headerAfter (header : Option (List Char)) (lines : List Line) : Option (List Char) :=
  lines.foldl (fun header line => line.headerFrom header) header

/-- A line that has an entry is not hidden, and no hidden line has set its header. -/
def Unaffected (header seen : Option (List Char)) (past : List (Bool × Line))
    (line : Bool × Line) : Prop :=
  line.2.entry ≠ none → line.1 = false ∧
    line.2.headerFrom (headerAfter header (past.map Prod.snd)) =
      line.2.headerFrom (headerAfter seen (visible past))

/-- What is hidden in a text does not matter. -/
def HiddenIdle (text : List Char) : Prop := Lawful (Unaffected none none) (marked text)

theorem length_lineCalls_visible_le (header seen : Option (List Char)) (lines : List (Bool × Line)) :
    (lineCalls seen (visible lines)).length ≤ (lineCalls header (lines.map Prod.snd)).length := by
  induction lines generalizing header seen with
  | nil => exact Nat.le_refl 0
  | cons line lines ih =>
      obtain ⟨hidden, line⟩ := line
      have ih := fun header seen => ih header seen
      cases hidden with
      | true =>
          have hlines : visible ((true, line) :: lines) = visible lines := rfl
          rw [hlines, List.map_cons, lineCalls, List.length_append]
          exact Nat.le_add_left_of_le (ih _ _)
      | false =>
          have hlines : visible ((false, line) :: lines) = line :: visible lines := rfl
          have hcalls : (line.calls seen).length = (line.calls header).length := by
            cases hentry : line.entry <;> simp [Line.calls, hentry]
          rw [hlines, List.map_cons, lineCalls, lineCalls, List.length_append, List.length_append,
            hcalls]
          exact Nat.add_le_add_left (ih _ _) _

/-- All lines make the calls of those that are not hidden exactly when the hidden ones are idle. -/
theorem lineCalls_visible_iff (header seen : Option (List Char)) (lines : List (Bool × Line)) :
    lineCalls seen (visible lines) = lineCalls header (lines.map Prod.snd) ↔
      Lawful (Unaffected header seen) lines := by
  induction lines generalizing header seen with
  | nil => exact iff_of_true rfl lawful_nil
  | cons line lines ih =>
      obtain ⟨hidden, line⟩ := line
      rw [lawful_cons]
      cases hidden with
      | true =>
          show lineCalls seen (visible lines) = line.calls header ++
            lineCalls (line.headerFrom header) (lines.map Prod.snd) ↔ _
          have htail := ih (line.headerFrom header) seen
          cases hentry : line.entry with
          | none =>
              have hcalls : line.calls header = [] := by simp [Line.calls, hentry]
              rw [hcalls, List.nil_append, htail]
              exact ⟨fun h => ⟨fun hne => absurd hentry hne, h⟩, And.right⟩
          | some entry =>
              constructor
              · intro h
                -- the hidden line's call makes them too many
                have hcalls : (line.calls header).length = 1 := by simp [Line.calls, hentry]
                have hlength := congrArg List.length h
                have hle := length_lineCalls_visible_le (line.headerFrom header) seen lines
                rw [List.length_append, hcalls] at hlength
                omega
              · intro h
                have hunaffected := h.1 (by simp [hentry])
                exact absurd hunaffected.1 nofun
      | false =>
          show line.calls seen ++ lineCalls (line.headerFrom seen) (visible lines) =
            line.calls header ++ lineCalls (line.headerFrom header) (lines.map Prod.snd) ↔ _
          have htail := ih (line.headerFrom header) (line.headerFrom seen)
          cases hentry : line.entry with
          | none =>
              have hcalls : ∀ h, line.calls h = [] := by simp [Line.calls, hentry]
              rw [hcalls, hcalls, List.nil_append, List.nil_append, htail]
              exact ⟨fun h => ⟨fun hne => absurd hentry hne, h⟩, And.right⟩
          | some entry =>
              have hcalls : ∀ h, line.calls h = [⟨line.headerFrom h, entry.1, entry.2⟩] := by
                simp [Line.calls, hentry]
              rw [hcalls, hcalls, List.singleton_append, List.singleton_append, List.cons.injEq,
                AddData.mk.injEq, htail]
              constructor
              · rintro ⟨⟨hheader, -, -⟩, hlines⟩
                exact ⟨fun _ => ⟨rfl, hheader.symm⟩, hlines⟩
              · intro h
                have hunaffected := h.1 (by simp [hentry])
                exact ⟨⟨hunaffected.2.symm, rfl, rfl⟩, h.2⟩

/-- **`parse_file` follows its line grammar exactly when nothing hidden in comments matters.** -/
theorem parseFileCalls_eq_reference_iff (text : List Char) :
    parseFileCalls text = some (reference text) ↔ HiddenIdle text := by
  rw [parseFileCalls_eq, parse_eq_visible, reference_eq, Option.some.injEq]
  exact lineCalls_visible_iff none none (marked text)

/-- A comment that a carriage return ends, and a line behind it. -/
theorem parseFileCalls_ne_reference :
    parseFileCalls "#a\rk=v\n".toList ≠ some (reference "#a\rk=v\n".toList) := by
  decide +kernel

/-! ## What the calls look like -/

theorem trimmed_trimEnd {c : Char} {rest : List Char} (hc : isBlank c = false)
    (heol : ∀ d ∈ c :: rest, isEol d = false) :
    Trimmed (trimEnd (c :: rest)) ∧ (trimEnd (c :: rest)).head? = some c := by
  have hstart : trimEnd (c :: rest) <+: c :: rest := List.rdropWhile_prefix _ _
  have hne : trimEnd (c :: rest) ≠ [] := by
    intro hnil
    have hblank := List.rdropWhile_eq_nil_iff.mp hnil c List.mem_cons_self
    simp [hc] at hblank
  have hhead : (trimEnd (c :: rest)).head? = some c := by
    obtain ⟨d, s, hds⟩ := List.exists_cons_of_ne_nil hne
    obtain ⟨t, ht⟩ := hstart
    rw [hds, List.cons_append] at ht
    rw [hds, (List.cons.inj ht).1]
    rfl
  refine ⟨⟨hne, fun d hd => heol d (hstart.subset hd), ?_, ?_⟩, hhead⟩
  · intro d hd
    rw [hhead] at hd
    cases hd
    exact hc
  · intro d hd
    have hlast := List.rdropWhile_last_not isBlank (c :: rest) hne
    rw [List.getLast?_eq_some_getLast hne] at hd
    cases hd
    exact Bool.eq_false_iff.mpr hlast

theorem trimmed_readValue {s : List Char} (heol : ∀ c ∈ s, isEol c = false) :
    ∀ value ∈ readValue s, Trimmed value := by
  intro value hvalue
  unfold readValue at hvalue
  split at hvalue
  · cases hvalue
  · next c rest hdrop =>
      have hmem : ∀ d ∈ c :: rest, d ∈ s := by
        rw [← hdrop]
        exact fun d hd => (List.dropWhile_suffix _).subset hd
      have hc : isBlank c = false := by
        have hnot := List.head?_dropWhile_not isBlank s
        rw [hdrop] at hnot
        exact hnot
      cases hvalue
      exact (trimmed_trimEnd hc fun d hd => heol d (hmem d hd)).1

/-- The key and the value of a line are without blanks at their ends. -/
theorem readLine_entry {line : List Char} (heol : ∀ c ∈ line, isEol c = false)
    {key : List Char} {value : Option (List Char)}
    (h : (readLine line).entry = some (key, value)) :
    Trimmed key ∧ (∀ c ∈ key.head?, c ≠ '#' ∧ c ≠ '[') ∧ ∀ text ∈ value, Trimmed text := by
  induction line using readLine.induct with
  | case1 =>
      rw [readLine] at h
      cases h
  | case2 c rest hblank ih =>
      rw [readLine, if_pos hblank] at h
      exact ih (List.forall_mem_cons.mp heol).2 h
  | case3 rest hblank =>
      rw [readLine, if_neg hblank, if_pos rfl] at h
      cases h
  | case4 rest hclosed hblank hne ih =>
      rw [readLine, if_neg hblank, if_neg hne, if_pos rfl, if_pos hclosed] at h
      exact ih (noEol_after (List.forall_mem_cons.mp heol).2 ']') h
  | case5 rest hopen hblank hne =>
      rw [readLine, if_neg hblank, if_neg hne, if_pos rfl, if_neg hopen] at h
      cases h
  | case6 c rest hblank hhash hbracket hkey =>
      rw [readLine, if_neg hblank, if_neg hhash, if_neg hbracket, if_pos hkey] at h
      cases h
      have hc : isBlank c = false := by simpa using hblank
      obtain ⟨hfirst, hrest⟩ := List.forall_mem_cons.mp heol
      have hchars : ∀ d ∈ c :: before '=' rest, isEol d = false := by
        rw [List.forall_mem_cons]
        refine ⟨hfirst, ?_⟩
        intro d hd
        exact (noEol_before hrest '=' d hd).1
      obtain ⟨htrim, hhead⟩ := trimmed_trimEnd hc hchars
      refine ⟨htrim, ?_, ?_⟩
      · intro d hd
        rw [hhead] at hd
        cases hd
        exact ⟨hhash, hbracket⟩
      · exact trimmed_readValue (noEol_after hrest '=')
  | case7 c rest hblank hhash hbracket hkey =>
      rw [readLine, if_neg hblank, if_neg hhash, if_neg hbracket, if_neg hkey] at h
      cases h

theorem cut_no_eol {text : List Char} {line : List Char × Bool} (h : line ∈ cut text) :
    ∀ c ∈ line.1, isEol c = false := by
  induction text generalizing line with
  | nil =>
      obtain rfl := List.mem_singleton.mp h
      exact nofun
  | cons c text ih =>
      cases heol : isEol c with
      | true =>
          simp only [cut, heol, if_true, List.mem_cons] at h
          rcases h with rfl | h
          · exact nofun
          · exact ih h
      | false =>
          simp only [cut, heol, if_false, Bool.false_eq_true] at h
          cases hcut : cut text with
          | nil => simp [hcut] at h
          | cons first lines =>
              rw [hcut, List.modifyHead_cons] at h
              rcases List.mem_cons.mp h with rfl | h
              · intro d hd
                rcases List.mem_cons.mp hd with rfl | hd
                · exact heol
                · exact ih (hcut ▸ List.mem_cons_self) d hd
              · exact ih (hcut ▸ List.mem_cons_of_mem first h)

theorem mem_lineCalls {header : Option (List Char)} {lines : List Line} {call : AddData}
    (h : call ∈ lineCalls header lines) :
    ∃ line ∈ lines, line.entry = some (call.key, call.value) := by
  induction lines generalizing header with
  | nil => cases h
  | cons line lines ih =>
      rcases List.mem_append.mp h with h | h
      · obtain ⟨entry, hentry, rfl⟩ := Option.map_eq_some_iff.mp (Option.mem_toList.mp h)
        exact ⟨line, List.mem_cons_self, hentry⟩
      · obtain ⟨line', hline', hentry⟩ := ih h
        exact ⟨line', List.mem_cons_of_mem line hline', hentry⟩

/-- **Every call has a key and a value without blanks at their ends**, whatever the file holds. -/
theorem parse_trimmed {text : List Char} {call : AddData}
    (h : call ∈ parse ⟨.beforeToken, none⟩ text) :
    Trimmed call.key ∧ (∀ c ∈ call.key.head?, c ≠ '#' ∧ c ≠ '[') ∧
      ∀ value ∈ call.value, Trimmed value := by
  rw [parse_eq_visible] at h
  obtain ⟨line, hline, hentry⟩ := mem_lineCalls h
  -- the line is one of the file's
  have hmem : line ∈ (marked text).map Prod.snd := by
    obtain ⟨l, hl, rfl⟩ := List.mem_map.mp hline
    exact List.mem_map_of_mem (List.mem_filter.mp hl).1
  rw [marked, mark_lines] at hmem
  obtain ⟨chars, hchars, rfl⟩ := List.mem_map.mp hmem
  obtain ⟨l, hl, rfl⟩ := List.mem_map.mp hchars
  exact readLine_entry (cut_no_eol hl) hentry

end Squash
