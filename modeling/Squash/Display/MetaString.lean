import Squash.Display.LineBuffer

/-!
# Tags on the terminal

`draw_meta_string` prints the values of some keys, joined by separators. It makes the line two
characters wider than the window leaves room for, so that the last separator fits, takes that one
away when all of the line did fit, and puts three dots at the end when it did not. What was put
together is then handed to `mvwprintw` as a format.

The text that should be seen is `tagText`. The loop stops when the line is full, and then a line with
just as many characters as there is room for looks like one that is complete, although there are
values left; and a percent sign in a format is no percent sign. `drawMetaString_shows_iff` says that
nothing else goes wrong.
-/

namespace Squash.Display

open Filling

/-! ## `draw_meta_string` -/

/-- `snprintf` of a text to `buffer + k`. Of the `size` characters that may be written the last one
is the null; it returns the length of the whole text. -/
def snprintf (buffer : List Char) (k : Int) (size : Nat) (text : List Char) :
    Except Fault (List Char × Int) :=
  if size = 0 then .ok (buffer, text.length)
  else do
    let buffer ← store buffer k (text.take (size - 1) ++ ['\x00'])
    return (buffer, text.length)

/-- What a format makes of no arguments. -/
def formatted : List Char → Except Fault (List Char)
  | [] => .ok []
  | '%' :: '%' :: format => do
    let text ← formatted format
    return '%' :: text
  | '%' :: _ => .error .badFormat
  | c :: format => do
    let text ← formatted format
    return c :: text

/-- `mvwprintw`, when nothing comes after the format. -/
def mvwprintw (top left : Int) (format : List Char) : Except Fault Printed := do
  let text ← formatted format
  return ⟨top, left, text⟩

/-- `line_buffer` and `line_width`. -/
structure Line where
  buffer : List Char
  width : Int
  deriving DecidableEq, Repr

/-- "Add the current value to the line". -/
def addValue (width : Int) (line : Line) : Option (List Char) → Except Fault Line
  | none => .error .nullPointer
  | some value => do
    let (buffer, length) ← snprintf line.buffer line.width (width - line.width + 1).toNat
      (cString value ++ separator)
    return ⟨buffer, line.width + length⟩

/-- "Show elipse if required". -/
def showElipse (line : Line) (width : Int) : Except Fault (List Char) :=
  if line.width - 2 > width then do
    let buffer ← store line.buffer width ['\x00']
    let buffer ← store buffer (width - 1) ['.']
    let buffer ← store buffer (width - 2) ['.']
    store buffer (width - 3) ['.']
  else .ok line.buffer

def unknown : List Char := "[Unknown]".toList

/-- What is done after the loops, with the `width` of the buffer. -/
def finishLine (line : Line) (width : Int) : Except Fault (List Char) :=
  if line.width = 0 then do
    let (buffer, length) ← snprintf line.buffer 0 (width + 1).toNat unknown
    showElipse ⟨buffer, line.width + length⟩ width
  else if line.width ≤ width then do
    let buffer ← store line.buffer (line.width - 2) ['\x00']
    showElipse ⟨buffer, line.width - 2⟩ (width - 2)
  else showElipse line (width - 2)

/-- `draw_meta_string`; `memory` is what `squash_malloc` finds in the memory it allocates. -/
def drawMetaString (memory : Nat → Char) (song : Option (List MetaKey))
    (keySet : List (List Char)) (top left width : Int) : Except Fault Printed := do
  let width := width + 2
  let lineBuffer := (List.range (width + 1).toNat).map memory
  let lineBuffer ← store lineBuffer 0 ['\x00']
  let line ← eachValue (fun line => line.width < width) (addValue width) song keySet ⟨lineBuffer, 0⟩
  let lineBuffer ← finishLine line width
  let text ← readString lineBuffer
  mvwprintw top left text

/-! ## What should be seen -/

/-- A text in the room that there is for it. -/
def elided (width : Nat) (text : List Char) : List Char :=
  if text.length ≤ width then text else text.take (width - 3) ++ dots

def tagText (values : List (Option (List Char))) (width : Nat) : List Char :=
  if values = [] then unknown else elided width (joined values)

/-- The values and the width that `draw_meta_string` can cope with. -/
structure ShownAsIs (values : List (Option (List Char))) (width : Nat) : Prop where
  /-- the line is full before a null pointer is reached -/
  noNull : ∀ before after, values = before ++ none :: after → width + 2 ≤ (separated before).length
  /-- only the last value ends where the room ends, unless what is cut off looks like dots -/
  notExact : ∀ before after, values = before ++ after → before ≠ [] → after ≠ [] →
    (joined before).length = width → (joined before).drop (width - 3) = dots
  noPercent : '%' ∉ tagText values width

/-! ## Formats -/

theorem formatted_of_not_mem {text : List Char} (h : '%' ∉ text) : formatted text = .ok text := by
  induction text with
  | nil => rfl
  | cons c text ih =>
      rw [List.mem_cons, not_or] at h
      rw [formatted, ih h.2]
      · rfl
      · rintro format rfl
        exact absurd rfl h.1
      · rintro rfl
        exact absurd rfl h.1

/-- A percent sign either makes the format fail, or becomes one of two characters. -/
theorem formatted_length {format text : List Char} (h : formatted format = .ok text) :
    text.length ≤ format.length ∧ (text.length = format.length → '%' ∉ format) := by
  fun_induction formatted format generalizing text with
  | case1 =>
      cases h
      simp
  | case2 format ih =>
      obtain ⟨t, ht, h⟩ := bind_eq_ok.mp h
      cases h
      have := (ih ht).1
      simp only [List.length_cons]
      omega
  | case3 => cases h
  | case4 c format _ hc ih =>
      obtain ⟨t, ht, h⟩ := bind_eq_ok.mp h
      cases h
      obtain ⟨hle, himp⟩ := ih ht
      simp only [List.length_cons, List.mem_cons, not_or]
      refine ⟨by omega, fun heq => ⟨?_, himp (by omega)⟩⟩
      rintro rfl
      exact hc rfl

theorem formatted_fails {format : List Char} {fault : Fault}
    (h : formatted format = .error fault) : fault = .badFormat := by
  fun_induction formatted format with
  | case1 => cases h
  | case2 format ih =>
      rcases bind_eq_error.mp h with h | ⟨text, -, h⟩
      · exact ih h
      · cases h
  | case3 =>
      cases h
      rfl
  | case4 c format _ _ ih =>
      rcases bind_eq_error.mp h with h | ⟨text, -, h⟩
      · exact ih h
      · cases h

/-- **A format comes out as it is just when it holds no percent sign**, and otherwise as nothing that
is as long. -/
theorem formatted_eq_iff {format text : List Char} (h : text.length = format.length) :
    formatted format = .ok text ↔ format = text ∧ '%' ∉ text := by
  constructor
  · intro hformat
    have hmem := (formatted_length hformat).2 h
    rw [formatted_of_not_mem hmem] at hformat
    cases hformat
    exact ⟨rfl, hmem⟩
  · rintro ⟨rfl, hmem⟩
    exact formatted_of_not_mem hmem

/-! ## The loop -/

/-- The line after some values: as much of them as there is room for. -/
structure Holds (width : Nat) (values : List (Option (List Char))) (line : Line) : Prop where
  noNull : none ∉ values
  buffer : ∃ tail, line.buffer = (separated values).take width ++ '\x00' :: tail
  length : line.buffer.length = width + 1
  width : line.width = (separated values).length

theorem snprintf_append {pre : List Char} {k : Int} (old text : List Char) (size : Nat)
    (hk : k = pre.length) (hsize : 0 < size) (hold : size ≤ old.length) :
    ∃ tail, snprintf (pre ++ old) k size text =
      .ok (pre ++ (text.take (size - 1) ++ '\x00' :: tail), text.length) ∧
      (text.take (size - 1) ++ '\x00' :: tail).length = old.length := by
  have hlength : (text.take (size - 1) ++ ['\x00']).length ≤ old.length := by
    simp only [List.length_append, List.length_take, List.length_singleton]
    omega
  generalize hprint : text.take (size - 1) ++ ['\x00'] = print at hlength
  have hstore : store (pre ++ (old.take print.length ++ old.drop print.length)) k print =
      .ok (pre ++ (print ++ old.drop print.length)) := by
    refine store_append hk ?_
    rw [List.length_take]
    omega
  rw [List.take_append_drop] at hstore
  refine ⟨old.drop print.length, ?_, ?_⟩
  · rw [snprintf, if_neg (by omega), hprint, hstore, ← hprint, List.append_assoc]
    rfl
  · have hcons : text.take (size - 1) ++ '\x00' :: old.drop print.length =
        print ++ old.drop print.length := by
      rw [← hprint, List.append_assoc]
      rfl
    rw [hcons, List.length_append, List.length_drop]
    omega

theorem addValue_some {width : Nat} {read : List (Option (List Char))} {line : Line}
    (h : Holds width read line) (hroom : line.width < width) (value : List Char) :
    ∃ line', addValue width line (some value) = .ok line' ∧
      Holds width (read ++ [some value]) line' := by
  obtain ⟨old, hbuffer⟩ := h.buffer
  have hwidth := h.width
  have hlength := h.length
  rw [List.take_of_length_le (by omega)] at hbuffer
  rw [hbuffer, List.length_append] at hlength
  have hsize : (width - line.width + 1).toNat - 1 = width - (separated read).length := by omega
  obtain ⟨tail, hprint, hold⟩ := snprintf_append ('\x00' :: old) (cString value ++ separator)
    (width - line.width + 1).toNat hwidth (by omega) (by omega)
  rw [hsize] at hprint hold
  have hread : separated (read ++ [some value]) =
      separated read ++ (cString value ++ separator) := by
    rw [separated_append]
    simp [separated, valueText]
  refine ⟨_, by rw [addValue, hbuffer, hprint]; rfl, ?_, ⟨tail, ?_⟩, ?_, ?_⟩
  · simpa using h.noNull
  · have htake : (separated read ++ (cString value ++ separator)).take width = separated read ++
        (cString value ++ separator).take (width - (separated read).length) := by
      refine List.take_append.trans ?_
      rw [List.take_of_length_le (i := width) (by omega)]
    rw [hread, htake, List.append_assoc]
  · show (separated read ++ _).length = width + 1
    rw [List.length_append, hold]
    omega
  · simp only [hread, hwidth, List.length_append]
    omega

theorem addValue_fails (width : Nat) {read : List (Option (List Char))} {line : Line} {e : Fault}
    {value : Option (List Char)} (h : Holds width read line) (hroom : line.width < width)
    (hfails : addValue width line value = .error e) : value = none ∧ e = .nullPointer := by
  cases value with
  | none =>
      cases hfails
      exact ⟨rfl, rfl⟩
  | some value =>
      obtain ⟨line', hadd, -⟩ := addValue_some h hroom value
      rw [hadd] at hfails
      cases hfails

theorem addValue_holds (width : Nat) (read : List (Option (List Char))) (line : Line)
    (value : Option (List Char)) (line' : Line) (h : Holds width read line)
    (hroom : line.width < width) (hadd : addValue width line value = .ok line') :
    Holds width (read ++ [value]) line' := by
  cases value with
  | none => cases hadd
  | some value =>
      obtain ⟨line'', hadd', hholds⟩ := addValue_some h hroom value
      rw [hadd'] at hadd
      cases hadd
      exact hholds

/-! ## After the loop -/

theorem showElipse_fits {line : Line} {width : Int} (h : line.width - 2 ≤ width) :
    showElipse line width = .ok line.buffer := if_neg (by omega)

theorem showElipse_cut (line : Line) (width : Nat) (h : (width : Int) < line.width - 2)
    (hwidth : 3 ≤ width) (hbuffer : width < line.buffer.length) :
    ∃ rest, showElipse line width =
      .ok (line.buffer.take (width - 3) ++ dots ++ '\x00' :: rest) := by
  have hlength : (line.buffer.drop (width - 3)).length = line.buffer.length - (width - 3) :=
    List.length_drop
  have hsplit := List.take_append_drop (width - 3) line.buffer
  have hhead : (line.buffer.take (width - 3)).length = width - 3 := by
    rw [List.length_take]
    omega
  generalize line.buffer.take (width - 3) = head at hsplit hhead ⊢
  rcases hdrop : line.buffer.drop (width - 3) with _ | ⟨x, _ | ⟨y, _ | ⟨z, _ | ⟨c, rest⟩⟩⟩⟩
  case cons.cons.cons.cons =>
    refine ⟨rest, ?_⟩
    rw [hdrop] at hsplit
    have hnull : store (head ++ x :: y :: z :: c :: rest) width ['\x00'] =
        .ok (head ++ x :: y :: z :: '\x00' :: rest) := by
      have hindex : (width : Int) = (head ++ [x, y, z]).length := by
        simp [hhead]
        omega
      simpa using store_one (head ++ [x, y, z]) c rest hindex
    have hthird : store (head ++ x :: y :: z :: '\x00' :: rest) (width - 1) ['.'] =
        .ok (head ++ x :: y :: '.' :: '\x00' :: rest) := by
      have hindex : (width : Int) - 1 = (head ++ [x, y]).length := by
        simp [hhead]
        omega
      simpa using store_one (head ++ [x, y]) z ('\x00' :: rest) hindex
    have hsecond : store (head ++ x :: y :: '.' :: '\x00' :: rest) (width - 2) ['.'] =
        .ok (head ++ x :: '.' :: '.' :: '\x00' :: rest) := by
      have hindex : (width : Int) - 2 = (head ++ [x]).length := by
        simp [hhead]
        omega
      simpa using store_one (head ++ [x]) y ('.' :: '\x00' :: rest) hindex
    have hfirst : store (head ++ x :: '.' :: '.' :: '\x00' :: rest) (width - 3) ['.'] =
        .ok (head ++ '.' :: '.' :: '.' :: '\x00' :: rest) :=
      store_one _ _ _ (by omega)
    rw [showElipse, if_pos (by omega), ← hsplit, hnull, ok_bind, hthird, ok_bind, hsecond, ok_bind,
      hfirst, List.append_assoc]
    rfl
  all_goals
    rw [hdrop] at hlength
    simp only [List.length_nil, List.length_cons] at hlength
    omega

theorem finishLine_nil {line : Line} {width : Nat} (h : Holds (width + 2) [] line)
    (hwidth : 9 ≤ width) :
    ∃ tail, finishLine line (width + 2) = .ok (unknown ++ '\x00' :: tail) := by
  have hlength := h.length
  have hzero : line.width = 0 := h.width
  have hstart : (0 : Int) = (([] : List Char).length : Int) := rfl
  obtain ⟨tail, hprint, -⟩ := snprintf_append line.buffer unknown ((width : Int) + 2 + 1).toNat
    hstart (by omega) (by omega)
  have hunknown : unknown.length = 9 := by decide
  rw [List.nil_append, List.nil_append, List.take_of_length_le (by omega)] at hprint
  refine ⟨tail, ?_⟩
  rw [finishLine, if_pos hzero, hprint, ok_bind]
  refine showElipse_fits ?_
  show line.width + _ - 2 ≤ _
  omega

theorem elided_short {width : Nat} {text : List Char} (h : text.length ≤ width) :
    elided width text = text := if_pos h

theorem elided_long {width : Nat} {text : List Char} (h : width < text.length) :
    elided width text = text.take (width - 3) ++ dots := if_neg (by omega)

theorem finishLine_values {values : List (Option (List Char))} {line : Line} {width : Nat}
    (h : Holds (width + 2) values line) (hne : values ≠ []) (hwidth : 3 ≤ width) :
    ∃ tail, finishLine line (width + 2) = .ok (elided width (joined values) ++ '\x00' :: tail) := by
  have hline := h.width
  have hlength := h.length
  obtain ⟨tail, hbuffer⟩ := h.buffer
  rw [length_separated hne] at hline
  rw [finishLine, if_neg (by omega)]
  by_cases hfits : (joined values).length ≤ width
  · have hall : (separated values).take (width + 2) = joined values ++ separator := by
      rw [List.take_of_length_le (by rw [length_separated hne]; omega), separated_eq hne]
    refine ⟨' ' :: '\x00' :: tail, ?_⟩
    have htrail : store line.buffer (line.width - 2) ['\x00'] =
        .ok (joined values ++ '\x00' :: ' ' :: '\x00' :: tail) := by
      rw [hbuffer, hall, List.append_assoc]
      exact store_one _ _ _ (by omega)
    rw [if_pos (by omega), htrail, ok_bind, elided_short hfits]
    exact showElipse_fits (by show line.width - 2 - 2 ≤ _; omega)
  · obtain ⟨rest, hcut⟩ := showElipse_cut line width (by omega) hwidth (by omega)
    refine ⟨rest, ?_⟩
    have htake : line.buffer.take (width - 3) = (joined values).take (width - 3) := by
      rw [hbuffer, separated_eq hne, List.take_append_of_le_length (by simp; omega), List.take_take,
        Nat.min_eq_left (by omega), List.take_append_of_le_length (by omega)]
    rw [if_neg (by omega), Int.add_sub_cancel, hcut, htake, elided_long (by omega)]

/-! ## What is seen -/

/-- The values that were read from a song's: all of them unless they filled the line. -/
structure LineRead (width : Nat) (values read rest : List (Option (List Char))) : Prop where
  split : values = read ++ rest
  noNull : none ∉ read
  full : rest ≠ [] → width + 2 ≤ (separated read).length
  before : ∀ before x after, read = before ++ x :: after → (separated before).length < width + 2

theorem null_not_mem_tagText (values : List (Option (List Char))) (width : Nat) :
    '\x00' ∉ tagText values width := by
  unfold tagText elided
  intro h
  split at h
  · exact absurd h (by decide)
  · split at h
    · exact null_not_mem_joined values h
    · rcases List.mem_append.mp h with h | h
      · exact null_not_mem_joined values (List.mem_of_mem_take h)
      · exact absurd h (by decide)

theorem finishLine_tagText {values : List (Option (List Char))} {line : Line} {width : Nat}
    (h : Holds (width + 2) values line) (hwidth : 9 ≤ width) :
    ∃ tail, finishLine line (width + 2) = .ok (tagText values width ++ '\x00' :: tail) := by
  unfold tagText
  split
  · next hnil =>
      subst hnil
      exact finishLine_nil h hwidth
  · next hne => exact finishLine_values h hne (by omega)

/-- The line before the loops; what the memory held does not matter. -/
theorem start_holds (memory : Nat → Char) (width : Nat) :
    ∃ buffer, store ((List.range ((width : Int) + 2 + 1).toNat).map memory) 0 ['\x00'] =
      .ok buffer ∧ Holds (width + 2) [] ⟨buffer, 0⟩ := by
  have hmalloc : (List.range ((width : Int) + 2 + 1).toNat).map memory =
      memory 0 :: (List.range (width + 2)).map fun i => memory (i + 1) := by
    rw [show ((width : Int) + 2 + 1).toNat = width + 2 + 1 by omega, List.range_succ_eq_map,
      List.map_cons, List.map_map]
    rfl
  rw [hmalloc]
  exact ⟨_, store_one [] (memory 0) _ rfl, by simp, ⟨_, rfl⟩, by simp, rfl⟩

/-- **`draw_meta_string` prints what it has read**, or meets a null pointer. -/
theorem drawMetaString_cases (memory : Nat → Char) (song : Option (List MetaKey))
    (keySet : List (List Char)) (top left : Int) {width : Nat} (hwidth : 9 ≤ width) :
    (∃ read rest, LineRead width (metaValues song keySet) read rest ∧
      drawMetaString memory song keySet top left width = mvwprintw top left (tagText read width)) ∨
    ∃ before after, metaValues song keySet = before ++ none :: after ∧
      (separated before).length < width + 2 ∧
      drawMetaString memory song keySet top left width = .error .nullPointer := by
  obtain ⟨buffer, hstore, hstart⟩ := start_holds memory width
  rw [drawMetaString, hstore, ok_bind, eachValue_eq]
  rcases fill_cases (fun line : Line => line.width < (width : Int) + 2)
      (addValue ((width : Int) + 2)) (addValue_holds (width + 2)) hstart (metaValues song keySet) with
    ⟨read, rest, line, hfill, hfilled⟩ | ⟨before, x, line, e, hfill, hfailed⟩
  · have hholds := hfilled.holds
    refine .inl ⟨read, rest, ⟨hfilled.split, hholds.noNull, ?_, ?_⟩, ?_⟩
    · intro hne
      have hfull := hfilled.full hne
      have hline := hholds.width
      omega
    · intro before x after hread
      obtain ⟨line', hholds', hroom⟩ := hfilled.before before x after hread
      have hline := hholds'.width
      omega
    · obtain ⟨tail, hfinish⟩ := finishLine_tagText hholds hwidth
      rw [hfill, ok_bind, hfinish, ok_bind, readString_append (null_not_mem_tagText read width),
        ok_bind]
  · obtain ⟨after, hsplit⟩ := hfailed.split
    obtain ⟨rfl, rfl⟩ := addValue_fails (width + 2) hfailed.holds hfailed.room hfailed.fails
    refine .inr ⟨before, after, hsplit, ?_, ?_⟩
    · have hline := hfailed.holds.width
      have hroom := hfailed.room
      omega
    · rw [hfill, error_bind]

namespace LineRead

variable {width : Nat} {values read rest : List (Option (List Char))}

/-- No null pointer comes before the line is full. -/
theorem noNull_before (h : LineRead width values read rest)
    {before after : List (Option (List Char))} (hsplit : values = before ++ none :: after) :
    width + 2 ≤ (separated before).length := by
  rcases List.append_eq_append_iff.mp (h.split.symm.trans hsplit) with
    ⟨more, rfl, hrest⟩ | ⟨unread, hread, hnone⟩
  · have hfull := h.full (by rw [hrest]; simp)
    rw [separated_append, List.length_append]
    omega
  · cases unread with
    | nil =>
        have hfull := h.full (by rw [List.nil_append] at hnone; rw [← hnone]; simp)
        rwa [hread, List.append_nil] at hfull
    | cons value unread =>
        obtain ⟨rfl, -⟩ := List.cons.inj hnone
        exact absurd (by rw [hread]; simp) h.noNull

/-- Values that end where the room ends are all that is read. -/
theorem eq_of_exact (h : LineRead width values read rest)
    {before after : List (Option (List Char))} (hsplit : values = before ++ after)
    (hbefore : before ≠ []) (hafter : after ≠ []) (hexact : (joined before).length = width) :
    before = read ∧ after = rest := by
  have hlength := length_separated hbefore
  rcases List.append_eq_append_iff.mp (h.split.symm.trans hsplit) with
    ⟨more, rfl, hrest⟩ | ⟨unread, hread, hunread⟩
  · have hfull := h.full (by rw [hrest]; simp [hafter])
    rw [separated_append, List.length_append] at hlength
    cases more with
    | nil => exact ⟨List.append_nil read, hrest.symm⟩
    | cons value more =>
        have hmore := length_separated (List.cons_ne_nil value more)
        omega
  · cases unread with
    | nil => exact ⟨by rw [hread, List.append_nil], hunread⟩
    | cons value unread =>
        have hroom := h.before before value unread hread
        omega

theorem nonempty_of_rest (h : LineRead width values read rest) (hrest : rest ≠ []) : read ≠ [] := by
  rintro rfl
  exact absurd (h.full hrest) (by simp)

theorem length_joined (h : LineRead width values read rest) (hrest : rest ≠ []) :
    width ≤ (joined read).length := by
  have hfull := h.full hrest
  rw [length_separated (h.nonempty_of_rest hrest)] at hfull
  omega

/-- What should be seen when not everything was read. -/
theorem tagText_values (h : LineRead width values read rest) (hrest : rest ≠ []) (hwidth : 3 ≤ width) :
    tagText values width = (joined read).take (width - 3) ++ dots := by
  have hread := h.nonempty_of_rest hrest
  have hle := h.length_joined hrest
  have hjoined : joined values = joined read ++ (separator ++ joined rest) := by
    rw [h.split, joined_append hread hrest, separated_eq hread, List.append_assoc]
  have hlong : width < (joined values).length := by
    rw [hjoined, List.length_append, List.length_append]
    have hseparator : separator.length = 2 := rfl
    omega
  have hvalues : values ≠ [] := by simp [h.split, hread]
  rw [tagText, if_neg hvalues, elided_long hlong, hjoined, List.take_append_of_le_length (by omega)]

theorem tagText_read (h : LineRead width values read rest) (hrest : rest ≠ []) :
    tagText read width = elided width (joined read) := if_neg (h.nonempty_of_rest hrest)

/-- Both have the same length. -/
theorem length_tagText (h : LineRead width values read rest) (hwidth : 3 ≤ width) :
    (tagText values width).length = (tagText read width).length := by
  by_cases hrest : rest = []
  · rw [h.split, hrest, List.append_nil]
  · have hle := h.length_joined hrest
    have hdots : dots.length = 3 := rfl
    rw [h.tagText_values hrest hwidth, h.tagText_read hrest, elided]
    split
    · simp only [List.length_append, List.length_take]
      omega
    · rfl

/-- They are the same unless the values that were read end where the room ends. -/
theorem tagText_eq_iff (h : LineRead width values read rest) (hwidth : 3 ≤ width) :
    tagText read width = tagText values width ↔
      ∀ before after, values = before ++ after → before ≠ [] → after ≠ [] →
        (joined before).length = width → (joined before).drop (width - 3) = dots := by
  by_cases hrest : rest = []
  · have hread : values = read := by rw [h.split, hrest, List.append_nil]
    refine iff_of_true (by rw [hread]) ?_
    intro before after hsplit hbefore hafter hexact
    exact absurd ((h.eq_of_exact hsplit hbefore hafter hexact).2.trans hrest) hafter
  · have hle := h.length_joined hrest
    rw [h.tagText_values hrest hwidth, h.tagText_read hrest]
    by_cases hexact : (joined read).length = width
    · rw [elided_short (by omega)]
      have hsplit := List.take_append_drop (width - 3) (joined read)
      have hcancel : joined read = (joined read).take (width - 3) ++ dots ↔
          (joined read).drop (width - 3) = dots := by
        conv_lhs => lhs; rw [← hsplit]
        exact List.append_right_inj _
      rw [hcancel]
      constructor
      · intro hdots before after hsplit hbefore hafter hexact
        rw [(h.eq_of_exact hsplit hbefore hafter hexact).1]
        exact hdots
      · intro hall
        exact hall read rest h.split (h.nonempty_of_rest hrest) hrest hexact
    · refine iff_of_true (elided_long (by omega)) ?_
      intro before after hsplit hbefore hafter hbeforeExact
      rw [(h.eq_of_exact hsplit hbefore hafter hbeforeExact).1] at hbeforeExact
      exact absurd hbeforeExact hexact

end LineRead

/-- Nothing is written outside of the line buffer, which has an end when it is printed. -/
theorem drawMetaString_inBounds (memory : Nat → Char) (song : Option (List MetaKey))
    (keySet : List (List Char)) (top left : Int) {width : Nat} (hwidth : 9 ≤ width) :
    drawMetaString memory song keySet top left width ≠ .error .outOfBounds ∧
      drawMetaString memory song keySet top left width ≠ .error .unterminated := by
  rcases drawMetaString_cases memory song keySet top left hwidth with
    ⟨read, rest, -, hprint⟩ | ⟨-, -, -, -, hnull⟩
  · rw [hprint, mvwprintw]
    cases hformat : formatted (tagText read width) with
    | error fault =>
        rw [formatted_fails hformat]
        simp
    | ok text => simp [pure, Except.pure]
  · rw [hnull]
    simp

/-- **The values are shown as they are just when the line is not full too early and holds no percent
sign.** -/
theorem drawMetaString_shows_iff (memory : Nat → Char) (song : Option (List MetaKey))
    (keySet : List (List Char)) (top left : Int) {width : Nat} (hwidth : 9 ≤ width) :
    drawMetaString memory song keySet top left width =
        .ok ⟨top, left, tagText (metaValues song keySet) width⟩ ↔
      ShownAsIs (metaValues song keySet) width := by
  rcases drawMetaString_cases memory song keySet top left hwidth with
    ⟨read, rest, hread, hprint⟩ | ⟨before, after, hsplit, hroom, hnull⟩
  · have hprinted : mvwprintw top left (tagText read width) =
        .ok ⟨top, left, tagText (metaValues song keySet) width⟩ ↔
        formatted (tagText read width) = .ok (tagText (metaValues song keySet) width) := by
      unfold mvwprintw
      cases formatted (tagText read width) with
      | error e => simp
      | ok text => simp [pure, Except.pure]
    rw [hprint, hprinted, formatted_eq_iff (hread.length_tagText (by omega)),
      hread.tagText_eq_iff (by omega)]
    constructor
    · rintro ⟨hexact, hpercent⟩
      exact ⟨fun before after hsplit => hread.noNull_before hsplit, hexact, hpercent⟩
    · intro h
      exact ⟨h.notExact, h.noPercent⟩
  · rw [hnull]
    refine iff_of_false (by simp) ?_
    intro h
    have hfull := h.noNull before after hsplit
    omega

/-- A percent sign in a title, and an artist whose name leaves no room for the next. -/
theorem drawMetaString_wrong :
    drawMetaString (fun _ => ' ') (some [("title".toList, [some "100% Pure Love".toList])])
        ["title".toList] 1 10 20 ≠
      .ok ⟨1, 10, tagText (metaValues
        (some [("title".toList, [some "100% Pure Love".toList])]) ["title".toList]) 20⟩ ∧
    drawMetaString (fun _ => ' ')
        (some [("artist".toList, [some "Aphex Twin".toList, some "Squarepusher".toList])])
        ["artist".toList] 2 10 10 = .ok ⟨2, 10, "Aphex Twin".toList⟩ ∧
      tagText (metaValues
        (some [("artist".toList, [some "Aphex Twin".toList, some "Squarepusher".toList])])
        ["artist".toList]) 10 = "Aphex T...".toList := by
  decide

theorem drawMetaString_shows_iff_title :
    9 ≤ 20 ∧ (drawMetaString (fun _ => ' ') (some [("title".toList, [some "Windowlicker".toList])])
        ["title".toList] 1 10 20 =
      .ok ⟨1, 10, tagText (metaValues
        (some [("title".toList, [some "Windowlicker".toList])]) ["title".toList]) 20⟩ ↔
      ShownAsIs (metaValues
        (some [("title".toList, [some "Windowlicker".toList])]) ["title".toList]) 20) :=
  ⟨by decide, drawMetaString_shows_iff (fun _ => ' ')
    (some [("title".toList, [some "Windowlicker".toList])]) ["title".toList] 1 10 (by decide)⟩

end Squash.Display
