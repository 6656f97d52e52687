import Squash.Database.Meta
import Squash.Database.Song
import Squash.Foundations.Lines
import Mathlib.Algebra.Order.BigOperators.Group.List
import Mathlib.Algebra.Order.Group.Nat
import Mathlib.Data.List.Find

/-!
# The control fifo

`fifo_monitor` reads the lines that other programs write into a fifo and carries out the commands
among them. It reads in pieces of at most 49 characters; a line that does not fit into one piece is
passed over. Three things differ from what that is meant to do (`fifoMonitor_iff`):

- Only eleven of the twelve characters of `info_button` with its end of line are compared, and only
  five of the nine of `pagedown`, so that longer lines and other lines are taken for them.
- When the end of the file comes without a character before it, the character before the buffer is
  looked at.

A stream is what the fifo yields between an open and the end of file, without NUL.
-/

namespace Squash

/-! ## The model -/

/-- What a line makes the program do. -/
inductive FifoCommand where
  | refresh | spectrumButton | infoButton | tab | edit | delete | up | down | pageup | pagedown
  | left | right | home | end | decreaseRating | increaseRating | quit | play | pause | playButton
  | skip | stop
  deriving DecidableEq, Repr

/-- One of the comparisons `strncasecmp( buffer, text, length ) == 0`. -/
structure FifoTest where
  text : List Char
  length : Nat
  command : FifoCommand
  deriving DecidableEq, Repr

/-- The comparisons that are compiled only with ncurses. -/
def displayTests : List FifoTest :=
  [⟨"refresh\n".toList, 8, .refresh⟩,
    ⟨"spectrum_button\n".toList, 16, .spectrumButton⟩,
    ⟨"info_button\n".toList, 11, .infoButton⟩,
    ⟨"tab\n".toList, 7, .tab⟩,
    ⟨"edit\n".toList, 5, .edit⟩,
    ⟨"delete\n".toList, 7, .delete⟩,
    ⟨"up\n".toList, 3, .up⟩,
    ⟨"down\n".toList, 5, .down⟩,
    ⟨"pageup\n".toList, 7, .pageup⟩,
    ⟨"pagedown\n".toList, 5, .pagedown⟩,
    ⟨"left\n".toList, 5, .left⟩,
    ⟨"right\n".toList, 6, .right⟩,
    ⟨"home\n".toList, 5, .home⟩,
    ⟨"end\n".toList, 4, .end⟩]

def playerTests : List FifoTest :=
  [⟨"decrease_rating\n".toList, 16, .decreaseRating⟩,
    ⟨"increase_rating\n".toList, 16, .increaseRating⟩,
    ⟨"quit\n".toList, 5, .quit⟩,
    ⟨"play\n".toList, 5, .play⟩,
    ⟨"pause\n".toList, 6, .pause⟩,
    ⟨"play_button\n".toList, 12, .playButton⟩,
    ⟨"skip\n".toList, 5, .skip⟩,
    ⟨"stop\n".toList, 5, .stop⟩]

/-- The chain of comparisons. -/
def fifoTests (noNcurses : Bool) : List FifoTest :=
  if noNcurses then playerTests else displayTests ++ playerTests

/-- The command of a line, as the comparisons find it. -/
def fifoDispatch (noNcurses : Bool) (buffer : List Char) : Option FifoCommand :=
  ((fifoTests noNcurses).find? fun test => strncasecmp buffer test.text test.length).map
    FifoTest.command

/-- At most `n` characters, not beyond an end of line: what was read, what is left, and whether the
end of the file was met. -/
def readChars : Nat → List Char → List Char × List Char × Bool
  | 0, stream => ([], stream, false)
  | _ + 1, [] => ([], [], true)
  | n + 1, c :: stream =>
    if c = '\n' then ([c], stream, false)
    else
      let (buffer, rest, eof) := readChars n stream
      (c :: buffer, rest, eof)

/-- `fgets( buffer, size, file )`, with an empty buffer before. -/
def fgets (size : Nat) (stream : List Char) : List Char × List Char × Bool :=
  readChars (size - 1) stream

inductive FifoEvent where
  | perform (command : FifoCommand)
  /-- `buffer[ -1 ]` is read. -/
  | readBefore
  deriving DecidableEq, Repr

/-- What follows `fgets` in the loop: what happens, and `invalid_line`. `before` is the character in
front of the buffer. -/
def fifoTurn (noNcurses : Bool) (before : Char) (buffer : List Char) (invalidLine : Bool) :
    List FifoEvent × Bool :=
  let outside := if buffer = [] then [.readBefore] else []
  if buffer.getLast?.getD before ≠ '\n' then (outside, true)
  else if invalidLine then (outside, false)
  else (outside ++ (fifoDispatch noNcurses buffer).toList.map .perform, false)

/-- The loop up to the end of the file, with so many turns at most. -/
def fifoTurns (noNcurses : Bool) (before : Char) :
    Nat → List Char → Bool → Option (List FifoEvent)
  | 0, _, _ => none
  | n + 1, stream, invalidLine =>
    let (buffer, rest, eof) := fgets 50 stream
    let (events, invalidLine) := fifoTurn noNcurses before buffer invalidLine
    if eof then some events
    else (fifoTurns noNcurses before n rest invalidLine).map (events ++ ·)

/-- What `fifo_monitor` does with one stream. Each turn but the last takes a character. -/
def fifoMonitor (noNcurses : Bool) (before : Char) (stream : List Char) : Option (List FifoEvent) :=
  fifoTurns noNcurses before (stream.length + 1) stream false

/-! ## What it should do -/

/-- The name of a command. -/
def FifoTest.name (test : FifoTest) : List Char := test.text.dropLast

/-- The lines of a stream that end in LF. -/
def terminatedLines (stream : List Char) : List (List Char) := (stream.splitOn '\n').dropLast

/-- What is behind the last LF. -/
def lastLine (stream : List Char) : List Char := (stream.splitOn '\n').getLastD []

/-- The command whose name a line is. -/
def namedCommand (noNcurses : Bool) (line : List Char) : Option FifoCommand :=
  ((fifoTests noNcurses).find? fun test => strcasecmp line test.name).map FifoTest.command

/-- The commands of the lines that fit into the buffer. -/
def fifoSpec (noNcurses : Bool) (stream : List Char) : List FifoCommand :=
  ((terminatedLines stream).filter fun line => line.length ≤ 48).filterMap
    (namedCommand noNcurses)

/-! ## Reading lines in pieces -/

/-- Characters that do not end the line are all read. -/
theorem readChars_append {text : List Char} (htext : '\n' ∉ text) (n : Nat) (rest : List Char) :
    readChars (text.length + n) (text ++ rest) =
      (text ++ (readChars n rest).1, (readChars n rest).2) := by
  induction text with
  | nil => simp
  | cons c text ih =>
      obtain ⟨hc, htext⟩ := not_or.mp (mt List.mem_cons.mpr htext)
      rw [List.length_cons, Nat.add_right_comm, List.cons_append, readChars, if_neg (Ne.symm hc),
        ih htext]
      rfl

theorem readChars_line {line : List Char} (hline : '\n' ∉ line) (rest : List Char) {n : Nat}
    (hn : line.length < n) : readChars n (line ++ '\n' :: rest) = (line ++ ['\n'], rest, false) := by
  obtain ⟨n, rfl⟩ := Nat.exists_eq_add_of_lt hn
  rw [Nat.add_assoc, readChars_append hline]
  rfl

theorem readChars_full {text : List Char} (htext : '\n' ∉ text) (rest : List Char) :
    readChars text.length (text ++ rest) = (text, rest, false) := by
  have hread := readChars_append htext 0 rest
  rw [readChars, List.append_nil] at hread
  exact hread

theorem readChars_last {text : List Char} (htext : '\n' ∉ text) {n : Nat} (hn : text.length < n) :
    readChars n text = (text, [], true) := by
  obtain ⟨n, rfl⟩ := Nat.exists_eq_add_of_lt hn
  have hread := readChars_append htext (n + 1) []
  rw [readChars, List.append_nil] at hread
  exact hread

/-- A piece without an end of line makes the line invalid. -/
theorem fifoTurn_open {noNcurses : Bool} {before : Char} {piece : List Char} (hpiece : '\n' ∉ piece)
    (hne : piece ≠ []) (invalidLine : Bool) :
    fifoTurn noNcurses before piece invalidLine = ([], true) := by
  have hlast : piece.getLast?.getD before ≠ '\n' := by
    rw [List.getLast?_eq_some_getLast hne]
    intro heq
    exact hpiece (heq ▸ List.getLast_mem hne)
  rw [fifoTurn, if_neg hne, if_pos hlast]

/-- An end of line ends an invalid line, or completes a valid one. -/
theorem fifoTurn_closed {noNcurses : Bool} {before : Char} (piece : List Char)
    (invalidLine : Bool) : fifoTurn noNcurses before (piece ++ ['\n']) invalidLine =
      (if invalidLine then []
        else (fifoDispatch noNcurses (piece ++ ['\n'])).toList.map .perform, false) := by
  have hne : piece ++ ['\n'] ≠ [] := by simp
  have hlast : ¬ (piece ++ ['\n']).getLast?.getD before ≠ '\n' := by simp
  rw [fifoTurn, if_neg hne, if_neg hlast]
  cases invalidLine <;> rfl

/-- Without any character the one before the buffer is read, and nothing else happens. -/
theorem fifoTurn_empty {noNcurses : Bool} {before : Char} (invalidLine : Bool) :
    (fifoTurn noNcurses before [] invalidLine).1 = [.readBefore] := by
  have hnone : fifoDispatch noNcurses [] = none := by
    cases noNcurses <;> decide
  rw [fifoTurn, hnone]
  split
  · rfl
  · split <;> rfl

section Turns

variable {noNcurses : Bool} {before : Char}

/-- What a line leads to. -/
def lineEvents (noNcurses : Bool) (line : List Char) : List FifoEvent :=
  if line.length ≤ 48 then (fifoDispatch noNcurses (line ++ ['\n'])).toList.map .perform else []

/-- A first piece that is full and has no end of line. -/
theorem fifoTurns_piece {piece : List Char} (hpiece : '\n' ∉ piece) (hlength : piece.length = 49)
    (rest : List Char) (n : Nat) (invalidLine : Bool) :
    fifoTurns noNcurses before (n + 1) (piece ++ rest) invalidLine =
      fifoTurns noNcurses before n rest true := by
  have hne : piece ≠ [] := by
    intro h
    rw [h] at hlength
    cases hlength
  have hread : fgets 50 (piece ++ rest) = (piece, rest, false) := by
    rw [fgets, show 50 - 1 = piece.length from hlength.symm]
    exact readChars_full hpiece rest
  rw [fifoTurns, hread]
  simp only [fifoTurn_open hpiece hne, Bool.false_eq_true, if_false, List.nil_append]
  exact Option.map_id'

/-- **A whole line**, in as many turns as it takes. -/
theorem fifoTurns_line {line : List Char} (hline : '\n' ∉ line) {rest : List Char}
    {events : List FifoEvent}
    (hrest : ∀ n, rest.length < n → fifoTurns noNcurses before n rest false = some events)
    (invalidLine : Bool) {n : Nat} (hn : line.length + rest.length + 1 < n) :
    fifoTurns noNcurses before n (line ++ '\n' :: rest) invalidLine =
      some ((if invalidLine then [] else lineEvents noNcurses line) ++ events) := by
  induction hk : line.length using Nat.strongRecOn generalizing line invalidLine n with
  | _ k ih =>
      obtain ⟨n, rfl⟩ : ∃ m, n = m + 1 := ⟨n - 1, by omega⟩
      by_cases hshort : line.length ≤ 48
      · -- the line fits into one piece
        have hread : fgets 50 (line ++ '\n' :: rest) = (line ++ ['\n'], rest, false) :=
          readChars_line hline rest (by omega)
        rw [fifoTurns, hread]
        simp only [fifoTurn_closed, Bool.false_eq_true, if_false]
        rw [hrest n (by omega), lineEvents, if_pos hshort]
        rfl
      · have hpiece : '\n' ∉ line.take 49 := fun h => hline (List.mem_of_mem_take h)
        have hbehind : '\n' ∉ line.drop 49 := fun h => hline (List.mem_of_mem_drop h)
        have hlength : (line.take 49).length = 49 := by
          rw [List.length_take]
          omega
        have hdrop : (line.drop 49).length = line.length - 49 := List.length_drop
        have hsplit : line ++ '\n' :: rest = line.take 49 ++ (line.drop 49 ++ '\n' :: rest) := by
          rw [← List.append_assoc, List.take_append_drop]
        have hnone : lineEvents noNcurses line = [] := if_neg hshort
        rw [hsplit, fifoTurns_piece hpiece hlength, ih _ (by omega) hbehind true (by omega) hdrop,
          hnone, if_pos rfl, ite_self]

/-- **The last line**, which no end of line completes. -/
theorem fifoTurns_last {last : List Char} (hlast : '\n' ∉ last) (invalidLine : Bool) {n : Nat}
    (hn : last.length < n) : fifoTurns noNcurses before n last invalidLine =
      some (if last.length % 49 = 0 then [.readBefore] else []) := by
  induction hk : last.length using Nat.strongRecOn generalizing last invalidLine n with
  | _ k ih =>
      obtain ⟨n, rfl⟩ : ∃ m, n = m + 1 := ⟨n - 1, by omega⟩
      by_cases hshort : last.length ≤ 48
      · have hread : fgets 50 last = (last, [], true) := readChars_last hlast (by omega)
        rw [fifoTurns, hread]
        by_cases hempty : last = []
        · rw [hempty, ← hk, hempty]
          simp only [if_true, fifoTurn_empty]
          rfl
        · have hpos : last.length % 49 ≠ 0 := by
            have := List.length_pos_iff.mpr hempty
            omega
          simp only [fifoTurn_open hlast hempty, if_true]
          rw [← hk, if_neg hpos]
      · have hpiece : '\n' ∉ last.take 49 := fun h => hlast (List.mem_of_mem_take h)
        have hbehind : '\n' ∉ last.drop 49 := fun h => hlast (List.mem_of_mem_drop h)
        have hlength : (last.take 49).length = 49 := by
          rw [List.length_take]
          omega
        have hdrop : (last.drop 49).length = last.length - 49 := List.length_drop
        have hmod : k % 49 = (last.length - 49) % 49 := by omega
        rw [← List.take_append_drop 49 last, fifoTurns_piece hpiece hlength,
          ih _ (by omega) hbehind true (by omega) hdrop, hmod]

theorem splitOn_line {line : List Char} (hline : '\n' ∉ line) (rest : List Char) :
    terminatedLines (line ++ '\n' :: rest) = line :: terminatedLines rest ∧
      lastLine (line ++ '\n' :: rest) = lastLine rest := by
  have hne := List.splitOn_ne_nil '\n' rest
  have hsplit := List.splitOn_append_cons_self_of_not_mem hline rest
  constructor
  · rw [terminatedLines, hsplit, List.dropLast_cons_of_ne_nil hne, terminatedLines]
  · rw [lastLine, hsplit, lastLine]
    obtain ⟨piece, pieces, heq⟩ := List.exists_cons_of_ne_nil hne
    rw [heq]
    rfl

theorem splitOn_last {last : List Char} (hlast : '\n' ∉ last) :
    terminatedLines last = [] ∧ lastLine last = last := by
  have hsplit := List.splitOn_eq_singleton hlast
  constructor
  · rw [terminatedLines, hsplit]
    rfl
  · rw [lastLine, hsplit]
    rfl

/-- What a whole stream leads to. -/
def streamEvents (noNcurses : Bool) (stream : List Char) : List FifoEvent :=
  (terminatedLines stream).flatMap (lineEvents noNcurses) ++
    if (lastLine stream).length % 49 = 0 then [.readBefore] else []

theorem streamEvents_line {line : List Char} (hline : '\n' ∉ line) (rest : List Char) :
    streamEvents noNcurses (line ++ '\n' :: rest) =
      lineEvents noNcurses line ++ streamEvents noNcurses rest := by
  obtain ⟨hlines, hlast⟩ := splitOn_line hline rest
  rw [streamEvents, hlines, hlast, List.flatMap_cons, List.append_assoc, streamEvents]

/-- **The loop comes to its end**, with any number of turns that is larger than the stream is long. -/
theorem fifoTurns_eq (stream : List Char) {n : Nat} (hn : stream.length < n) :
    fifoTurns noNcurses before n stream false = some (streamEvents noNcurses stream) := by
  induction hk : stream.length using Nat.strongRecOn generalizing stream n with
  | _ k ih =>
      by_cases hlf : '\n' ∈ stream
      · obtain ⟨line, rest, rfl, hline⟩ := List.eq_append_cons_of_mem hlf
        rw [List.length_append, List.length_cons] at hn hk
        have hrest : ∀ m, rest.length < m →
            fifoTurns noNcurses before m rest false = some (streamEvents noNcurses rest) :=
          fun m hm => ih _ (by omega) rest hm rfl
        rw [fifoTurns_line hline hrest false (by omega), streamEvents_line hline]
        rfl
      · obtain ⟨hlines, hlast⟩ := splitOn_last hlf
        rw [fifoTurns_last hlf false hn, streamEvents, hlines, hlast]
        rfl

end Turns

/-! ## The comparisons -/

/-- All of the text is compared. -/
def FifoTest.Whole (test : FifoTest) : Prop := test.text.length ≤ test.length

instance : DecidablePred FifoTest.Whole :=
  fun test => inferInstanceAs (Decidable (test.text.length ≤ test.length))

/-- Every text is a name with an end of line behind it. -/
theorem text_eq (noNcurses : Bool) : ∀ test ∈ fifoTests noNcurses,
    test.text.map Char.toLower = test.name.map Char.toLower ++ ['\n'] ∧
      '\n' ∉ test.name.map Char.toLower := by
  cases noNcurses <;> decide +kernel

theorem not_mem_map_toLower {line : List Char} (hline : '\n' ∉ line) :
    '\n' ∉ line.map Char.toLower := by
  intro hmem
  obtain ⟨c, hc, heq⟩ := List.mem_map.mp hmem
  exact hline (eq_of_toLower (by decide) heq ▸ hc)

section Take

variable {l m : List Char} {c : Char} {n : Nat}

/-- A comparison that goes on beyond the line sees its end. -/
theorem take_beyond (h : l.length < n) : (l ++ [c]).take n = l ++ [c] := by
  apply List.take_of_length_le
  rw [List.length_append, List.length_singleton]
  exact h

/-- A text that is compared to its end, the end of the line. -/
theorem take_whole_iff (hl : c ∉ l) (hn : m.length < n) :
    (l ++ [c]).take n = (m ++ [c]).take n ↔ l = m := by
  rw [take_beyond hn]
  by_cases hfits : n ≤ l.length
  · rw [List.take_append_of_le_length hfits]
    constructor
    · intro heq
      have hmem : c ∈ l.take n := by simp [heq]
      exact absurd (List.mem_of_mem_take hmem) hl
    · rintro rfl
      omega
  · rw [take_beyond (Nat.not_le.mp hfits)]
    exact List.append_left_inj _

/-- A text of which only a part is compared. -/
theorem take_part_iff (hm : c ∉ m) (hn : n ≤ m.length) :
    (l ++ [c]).take n = (m ++ [c]).take n ↔ m.take n <+: l := by
  have htaken : (m.take n).length = n := by
    rw [List.length_take]
    omega
  rw [List.take_append_of_le_length hn]
  by_cases hfits : n ≤ l.length
  · rw [List.take_append_of_le_length hfits, List.prefix_iff_eq_take, htaken]
    exact eq_comm
  · rw [take_beyond (Nat.not_le.mp hfits)]
    constructor
    · intro heq
      have hmem : c ∈ m.take n := by simp [← heq]
      exact absurd (List.mem_of_mem_take hmem) hm
    · intro hpre
      have := hpre.length_le
      omega

end Take

/-- What a comparison finds in a line: its name, or the beginning that is compared. -/
theorem strncasecmp_line {noNcurses : Bool} {test : FifoTest} (htest : test ∈ fifoTests noNcurses)
    {line : List Char} (hline : '\n' ∉ line) :
    strncasecmp (line ++ ['\n']) test.text test.length = true ↔
      if test.Whole then strcasecmp line test.name = true
      else (test.name.map Char.toLower).take test.length <+: line.map Char.toLower := by
  obtain ⟨htext, hname⟩ := text_eq noNcurses test htest
  have hlength : test.text.length = (test.name.map Char.toLower).length + 1 := by
    simpa using congrArg List.length htext
  rw [strncasecmp_iff, htext, List.map_append, strcasecmp, beq_iff_eq]
  show ((line.map Char.toLower) ++ ['\n']).take test.length = _ ↔ _
  by_cases hwhole : test.Whole
  · have hle : test.text.length ≤ test.length := hwhole
    rw [if_pos hwhole]
    exact take_whole_iff (not_mem_map_toLower hline) (by omega)
  · have hlt : ¬ test.text.length ≤ test.length := hwhole
    rw [if_neg hwhole]
    exact take_part_iff hname (by omega)

/-- A line that begins like one of the two names that are not compared to their end is that name. -/
def ButtonsWhole (noNcurses : Bool) (line : List Char) : Prop :=
  noNcurses = false →
    ("info_button".toList <+: line.map Char.toLower →
      line.map Char.toLower = "info_button".toList) ∧
    ("paged".toList <+: line.map Char.toLower → line.map Char.toLower = "pagedown".toList)

/-- The two comparisons that do not reach the end of their text. -/
theorem not_whole (noNcurses : Bool) : ∀ test ∈ fifoTests noNcurses, ¬ test.Whole →
    noNcurses = false ∧
      (test = ⟨"info_button\n".toList, 11, .infoButton⟩ ∨
        test = ⟨"pagedown\n".toList, 5, .pagedown⟩) := by
  cases noNcurses <;> decide +kernel

/-- **A line for which the names are whole** is taken for the command that it names. -/
theorem fifoDispatch_eq {noNcurses : Bool} {line : List Char} (hline : '\n' ∉ line)
    (hwhole : ButtonsWhole noNcurses line) :
    fifoDispatch noNcurses (line ++ ['\n']) = namedCommand noNcurses line := by
  rw [fifoDispatch, namedCommand]
  congr 1
  apply List.find?_congr
  intro test htest
  rw [Bool.eq_iff_iff, strncasecmp_line htest hline]
  by_cases h : test.Whole
  · rw [if_pos h]
  · obtain ⟨hbuild, rfl | rfl⟩ := not_whole noNcurses test htest h
    · rw [if_neg h, strcasecmp, beq_iff_eq]
      constructor
      · exact (hwhole hbuild).1
      · intro heq
        rw [heq]
        exact List.take_prefix _ _
    · rw [if_neg h, strcasecmp, beq_iff_eq]
      constructor
      · exact (hwhole hbuild).2
      · intro heq
        rw [heq]
        exact List.take_prefix _ _

/-- **Any other line** is taken for a command, and names none. -/
theorem fifoDispatch_ne {noNcurses : Bool} {line : List Char} (hline : '\n' ∉ line)
    (hpart : ¬ ButtonsWhole noNcurses line) :
    (fifoDispatch noNcurses (line ++ ['\n'])).isSome ∧ namedCommand noNcurses line = none := by
  have hfound : ∀ test ∈ fifoTests noNcurses, ¬ test.Whole →
      (test.name.map Char.toLower).take test.length <+: line.map Char.toLower →
      (fifoDispatch noNcurses (line ++ ['\n'])).isSome := by
    intro test htest hnot hpre
    rw [fifoDispatch, Option.isSome_map, List.find?_isSome]
    exact ⟨test, htest, (strncasecmp_line htest hline).mpr (by rwa [if_neg hnot])⟩
  -- no name but its own begins like the name that is not compared to its end
  have hnamed : ∀ start name : List Char, start <+: line.map Char.toLower →
      line.map Char.toLower ≠ name →
      (∀ test ∈ fifoTests noNcurses, start <+: test.name.map Char.toLower →
        test.name.map Char.toLower = name) → namedCommand noNcurses line = none := by
    intro start name hpre hne honly
    rw [namedCommand, Option.map_eq_none_iff, List.find?_eq_none]
    intro test htest hcompare
    have heq : line.map Char.toLower = test.name.map Char.toLower := beq_iff_eq.mp hcompare
    exact hne (heq.trans (honly test htest (heq ▸ hpre)))
  rw [ButtonsWhole, Classical.not_imp, not_and_or, Classical.not_imp, Classical.not_imp] at hpart
  obtain ⟨rfl, ⟨hpre, hne⟩ | ⟨hpre, hne⟩⟩ := hpart
  · exact ⟨hfound ⟨"info_button\n".toList, 11, .infoButton⟩ (by decide) (by decide) hpre,
      hnamed _ _ hpre hne (by decide)⟩
  · exact ⟨hfound ⟨"pagedown\n".toList, 5, .pagedown⟩ (by decide) (by decide) hpre,
      hnamed _ _ hpre hne (by decide)⟩

/-! ## The stream -/

theorem not_mem_terminatedLines (stream : List Char) :
    ∀ line ∈ terminatedLines stream, '\n' ∉ line :=
  fun line hline => Lines.not_mem_of_mem_splitOn line (List.dropLast_subset _ hline)

/-- What a line should lead to. -/
def specEvents (noNcurses : Bool) (line : List Char) : List FifoEvent :=
  if line.length ≤ 48 then (namedCommand noNcurses line).toList.map .perform else []

theorem map_fifoSpec (noNcurses : Bool) (stream : List Char) :
    (fifoSpec noNcurses stream).map .perform =
      (terminatedLines stream).flatMap (specEvents noNcurses) := by
  rw [fifoSpec]
  induction terminatedLines stream with
  | nil => rfl
  | cons line lines ih =>
      rw [List.flatMap_cons, ← ih, specEvents]
      by_cases hshort : line.length ≤ 48
      · rw [List.filter_cons_of_pos (by simpa using hshort), List.filterMap_cons, if_pos hshort]
        cases namedCommand noNcurses line <;> rfl
      · rw [List.filter_cons_of_neg (by simpa using hshort), if_neg hshort, List.nil_append]

/-- The comparisons find at least what the names give, and more for a line that is taken for
another. -/
theorem specEvents_length {noNcurses : Bool} {line : List Char} (hline : '\n' ∉ line) :
    (specEvents noNcurses line).length ≤ (lineEvents noNcurses line).length ∧
      (line.length ≤ 48 → ¬ ButtonsWhole noNcurses line →
        (specEvents noNcurses line).length < (lineEvents noNcurses line).length) := by
  rw [specEvents, lineEvents]
  by_cases hshort : line.length ≤ 48
  · rw [if_pos hshort, if_pos hshort]
    by_cases hwhole : ButtonsWhole noNcurses line
    · rw [fifoDispatch_eq hline hwhole]
      exact ⟨Nat.le_refl _, fun _ hno => absurd hwhole hno⟩
    · obtain ⟨hsome, hnone⟩ := fifoDispatch_ne hline hwhole
      obtain ⟨command, hcommand⟩ := Option.isSome_iff_exists.mp hsome
      rw [hnone, hcommand]
      exact ⟨Nat.zero_le _, fun _ _ => Nat.zero_lt_one⟩
  · rw [if_neg hshort, if_neg hshort]
    exact ⟨Nat.le_refl _, fun h => absurd h hshort⟩

/-- **When the fifo executes exactly its command lines.** It carries out the commands that the lines
of the stream name and reads nothing outside of its buffer, exactly when each line that fits into the
buffer and begins like `info_button` or `paged` is `info_button` or `pagedown`, and the number of
characters behind the last LF is not a multiple of 49. -/
theorem fifoMonitor_iff (noNcurses : Bool) (before : Char) (stream : List Char) :
    fifoMonitor noNcurses before stream = some ((fifoSpec noNcurses stream).map .perform) ↔
      (∀ line ∈ terminatedLines stream, line.length ≤ 48 → ButtonsWhole noNcurses line) ∧
        (lastLine stream).length % 49 ≠ 0 := by
  have hlines := not_mem_terminatedLines stream
  rw [fifoMonitor, fifoTurns_eq stream (Nat.lt_succ_self _), Option.some.injEq, map_fifoSpec,
    streamEvents]
  constructor
  · intro heq
    have hlast : (lastLine stream).length % 49 ≠ 0 := by
      intro hzero
      have hmem : FifoEvent.readBefore ∈ (terminatedLines stream).flatMap (specEvents noNcurses) := by
        rw [← heq, if_pos hzero]
        exact List.mem_append_right _ (List.mem_singleton_self _)
      rw [← map_fifoSpec] at hmem
      obtain ⟨command, -, h⟩ := List.mem_map.mp hmem
      cases h
    refine ⟨?_, hlast⟩
    rw [if_neg hlast, List.append_nil] at heq
    intro line hline hshort
    by_contra hpart
    have hlt := List.sum_lt_sum (fun line => (specEvents noNcurses line).length)
      (fun line => (lineEvents noNcurses line).length)
      (fun line hline => (specEvents_length (hlines line hline)).1)
      ⟨line, hline, (specEvents_length (hlines line hline)).2 hshort hpart⟩
    rw [← List.length_flatMap, ← List.length_flatMap, heq] at hlt
    exact Nat.lt_irrefl _ hlt
  · rintro ⟨hwhole, hlast⟩
    rw [if_neg hlast, List.append_nil]
    apply List.flatMap_congr
    intro line hline
    rw [lineEvents, specEvents]
    split
    · next hshort => rw [fifoDispatch_eq (hlines line hline) (hwhole line hline hshort)]
    · rfl

/-- `pagedup` is taken for `pagedown`. -/
theorem fifoMonitor_pagedup :
    fifoMonitor false ' ' "pagedup\nx".toList = some [.perform .pagedown] ∧
      fifoSpec false "pagedup\nx".toList = [] ∧
      fifoMonitor false ' ' "pagedup\nx".toList ≠
        some ((fifoSpec false "pagedup\nx".toList).map .perform) := by
  decide +kernel

/-- A command with the end of the file behind it: the character before the buffer is read. -/
example : fifoMonitor true ' ' "skip\n".toList = some [.perform .skip, .readBefore] := by decide

end Squash
