import Squash.Display.LineBuffer

/-!
# Tags on the EMPEG

`draw_meta_string_empeg` copies the values into a buffer of `line_alloc + 1` characters, three more
than there are pixels. The characters of a value are counted against `line_alloc`; the separator
behind them is not, and neither are the three dots that are put behind a line which is too wide.

A line may have as many characters as there are pixels, or one more (`LineFits`). Values that step
over this are written outside of the buffer; `empeg_staysInBuffer_iff` says that the drawing is safe
otherwise.
-/

namespace Squash.Display

open Filling

/-! ## `draw_meta_string_empeg` -/

/-- `line_buffer`, `line_width`, `line_pixel_width` and `added_trail`. -/
structure EmpegLine where
  buffer : List Char
  width : Int
  pixelWidth : Int
  addedTrail : Bool
  deriving DecidableEq, Repr

section

-- `vfdlib_getTextWidth( text, 2 )`
variable (textWidth : List Char → Int)

def EmpegLine.append (line : EmpegLine) (c : Char) : Except Fault EmpegLine := do
  let buffer ← store line.buffer line.width [c]
  return { line with
    buffer, width := line.width + 1, pixelWidth := line.pixelWidth + textWidth [c] }

/-- A value and its separator. -/
def EmpegLine.addValue (lineAlloc : Int) (line : EmpegLine) :
    Option (List Char) → Except Fault EmpegLine
  | none => .error .nullPointer
  | some value => do
    let line ← fill (fun line => line.width < lineAlloc) (append textWidth) line (cString value)
    let line ← line.append textWidth ';'
    let line ← line.append textWidth ' '
    return { line with addedTrail := true }

/-- "Remove the trailing "; "". -/
def EmpegLine.removeTrail (line : EmpegLine) : Except Fault EmpegLine :=
  if line.addedTrail then do
    let buffer ← store line.buffer (line.width - 2) ['\x00']
    return { line with
      buffer, width := line.width - 2
      pixelWidth := line.pixelWidth - textWidth [';'] - textWidth [' '] }
  else .ok line

/-- "While we are overflown, move the elipses up one." -/
def EmpegLine.moveElipses (width : Int) (line : EmpegLine) : Except Fault EmpegLine :=
  if line.pixelWidth > width ∧ line.width - 4 > 0 then do
    let curChar ← load line.buffer (line.width - 4)
    let buffer ← store line.buffer (line.width - 4) ['.']
    let buffer ← store buffer (line.width - 1) ['\x00']
    moveElipses width { line with
      buffer, width := line.width - 1
      pixelWidth := line.pixelWidth - textWidth [curChar] + textWidth ['.'] - textWidth ['.'] }
  else .ok line
termination_by line.width.toNat

/-- "If we are overflowed, first add the elipses". -/
def EmpegLine.addElipses (width : Int) (line : EmpegLine) : Except Fault EmpegLine :=
  if line.pixelWidth > width then do
    let line ← line.append textWidth '.'
    let line ← line.append textWidth '.'
    let line ← line.append textWidth '.'
    line.moveElipses textWidth width
  else .ok line

/-- What is done after the loops. -/
def EmpegLine.draw (top left width : Int) (line : EmpegLine) : Except Fault Printed := do
  let line ← line.removeTrail textWidth
  let line := { line with pixelWidth := line.pixelWidth - 1 }
  let line ← line.addElipses textWidth width
  let text ← readString line.buffer
  return ⟨top, left, text⟩

/-- `draw_meta_string_empeg`; there is no text when not even the dots fit. -/
def drawMetaStringEmpeg (song : Option (List MetaKey)) (keySet : List (List Char))
    (top left width : Int) : Except Fault (Option Printed) :=
  if textWidth dots - 1 > width then .ok none
  else do
    let lineAlloc := width + 3
    let line ← eachValue (fun line => line.width < lineAlloc) (EmpegLine.addValue textWidth lineAlloc)
      song keySet ⟨List.replicate (lineAlloc + 1).toNat '\x00', 0, 0, false⟩
    let drawn ← line.draw textWidth top left width
    return some drawn

end

/-! ## The property -/

/-- The width of a text is that of its characters, each of which has a pixel at least. -/
structure Additive (textWidth : List Char → Int) : Prop where
  append : ∀ s t, textWidth (s ++ t) = textWidth s + textWidth t
  pos : ∀ c, 1 ≤ textWidth [c]

/-- No index was outside of the buffer, and what was drawn from it had an end. -/
def StaysInBuffer {α : Type} (run : Except Fault α) : Prop :=
  run ≠ .error .outOfBounds ∧ run ≠ .error .unterminated

/-- The values in front of the first null pointer. -/
def texts (values : List (Option (List Char))) : List (Option (List Char)) :=
  values.takeWhile Option.isSome

/-- The values fit into `width` characters, or some of them, from the first on, fill one more. -/
def LineFits (values : List (Option (List Char))) (width : Int) : Prop :=
  ((joined (texts values)).length : Int) ≤ width ∨
    ∃ before after, texts values = before ++ after ∧ ((joined before).length : Int) = width + 1

namespace Additive

variable {textWidth : List Char → Int} (h : Additive textWidth)
include h

theorem nil : textWidth [] = 0 := by
  have happend := h.append [] []
  rw [List.append_nil] at happend
  omega

theorem cons (c : Char) (text : List Char) : textWidth (c :: text) = textWidth [c] + textWidth text :=
  h.append [c] text

theorem length_le (text : List Char) : (text.length : Int) ≤ textWidth text := by
  induction text with
  | nil => exact Int.le_of_eq h.nil.symm
  | cons c text ih =>
      have hpos := h.pos c
      rw [h.cons, List.length_cons]
      omega

end Additive

/-! ## The loops -/

/-- The line after some text, in front of characters that nothing was written to. -/
structure Written (textWidth : List Char → Int) (alloc : Nat) (text : List Char)
    (line : EmpegLine) : Prop where
  fits : text.length ≤ alloc + 1
  buffer : line.buffer = text ++ List.replicate (alloc + 1 - text.length) '\x00'
  width : line.width = text.length
  pixels : line.pixelWidth = textWidth text

section Loops

variable {textWidth : List Char → Int} {alloc : Nat} {text : List Char} {line : EmpegLine}

variable (textWidth) in
theorem append_one {rest : List Char} {d : Char} (hbuffer : line.buffer = text ++ d :: rest)
    (hwidth : line.width = text.length) (c : Char) :
    ∃ line', line.append textWidth c = .ok line' ∧ line'.buffer = text ++ [c] ++ rest ∧
      line'.width = (text ++ [c]).length ∧
      line'.pixelWidth = line.pixelWidth + textWidth [c] ∧ line'.addedTrail = line.addedTrail := by
  refine ⟨⟨text ++ c :: rest, line.width + 1, line.pixelWidth + textWidth [c], line.addedTrail⟩,
    ?_, ?_, ?_, rfl, rfl⟩
  · rw [EmpegLine.append, hbuffer, store_one _ _ _ hwidth, ok_bind]
    rfl
  · rw [List.append_assoc]
    rfl
  · rw [hwidth, List.length_append]
    rfl

theorem append_written (h : Additive textWidth) (hline : Written textWidth alloc text line)
    (hroom : text.length ≤ alloc) (c : Char) :
    ∃ line', line.append textWidth c = .ok line' ∧
      Written textWidth alloc (text ++ [c]) line' ∧ line'.addedTrail = line.addedTrail := by
  have hrest : List.replicate (alloc + 1 - text.length) '\x00' =
      '\x00' :: List.replicate (alloc - text.length) '\x00' := by
    rw [show alloc + 1 - text.length = alloc - text.length + 1 by omega, List.replicate_succ]
  have hlength : (text ++ [c]).length = text.length + 1 := List.length_append
  obtain ⟨line', happend, hbuffer, hwidth, hpixels, htrail⟩ :=
    append_one textWidth (by rw [hline.buffer, hrest]) hline.width c
  refine ⟨line', happend, ⟨by omega, ?_, hwidth, ?_⟩, htrail⟩
  · rw [hbuffer, hlength, Nat.add_sub_add_right]
  · rw [hpixels, hline.pixels, h.append]

theorem append_outOfBounds (hline : Written textWidth alloc text line)
    (hfull : text.length = alloc + 1) (c : Char) :
    line.append textWidth c = .error .outOfBounds := by
  have hlength : line.buffer.length = alloc + 1 := by
    rw [hline.buffer, List.length_append, List.length_replicate]
    omega
  have hwidth := hline.width
  rw [EmpegLine.append, store_outOfBounds (by rw [List.length_singleton]; omega), error_bind]

/-- As many characters of a value are copied as there is room for. -/
theorem fill_append (h : Additive textWidth) (value : List Char) (hroom : text.length ≤ alloc)
    (hline : Written textWidth alloc text line) :
    ∃ line', fill (fun line => line.width < (alloc : Int)) (EmpegLine.append textWidth) line value =
        .ok line' ∧
      Written textWidth alloc (text ++ value.take (alloc - text.length)) line' ∧
      line'.addedTrail = line.addedTrail := by
  have hwidth := hline.width
  induction value generalizing text line with
  | nil => exact ⟨line, rfl, by simpa using hline, rfl⟩
  | cons c value ih =>
      by_cases hfull : text.length = alloc
      · refine ⟨line, fill_full (by omega) _, ?_, rfl⟩
        simpa [hfull] using hline
      · obtain ⟨line', happend, hline', htrail⟩ := append_written h hline hroom c
        obtain ⟨line'', hfill, hline'', htrail'⟩ :=
          ih (by rw [List.length_append, List.length_singleton]; omega) hline' hline'.width
        refine ⟨line'', ?_, ?_, htrail'.trans htrail⟩
        · rw [fill_cons (by omega), happend]
          exact hfill
        · rw [show alloc - text.length = alloc - (text ++ [c]).length + 1 by
            rw [List.length_append, List.length_singleton]; omega, List.take_succ_cons]
          simpa using hline''

theorem addValue_fits (h : Additive textWidth) (hline : Written textWidth alloc text line)
    {value : List Char} (hfits : text.length + (cString value).length < alloc) :
    ∃ line', line.addValue textWidth alloc (some value) = .ok line' ∧
      Written textWidth alloc (text ++ (cString value ++ separator)) line' ∧
      line'.addedTrail = true := by
  obtain ⟨copied, hcopy, hcopied, -⟩ := fill_append h (cString value) (by omega) hline
  rw [List.take_of_length_le (by omega)] at hcopied
  have hlength : (text ++ cString value).length = text.length + (cString value).length :=
    List.length_append
  obtain ⟨semicolon, hsemicolon, hline', -⟩ := append_written h hcopied (by omega) ';'
  obtain ⟨space, hspace, hline'', -⟩ :=
    append_written h hline' (by rw [List.length_append, List.length_singleton]; omega) ' '
  refine ⟨{ space with addedTrail := true }, ?_, ⟨?_, ?_, ?_, ?_⟩, rfl⟩
  · rw [EmpegLine.addValue, hcopy, ok_bind, hsemicolon, ok_bind, hspace, ok_bind]
    rfl
  all_goals
    have htext : text ++ cString value ++ [';'] ++ [' '] = text ++ (cString value ++ separator) := by
      simp [separator]
    rw [← htext]
  · exact hline''.fits
  · exact hline''.buffer
  · exact hline''.width
  · exact hline''.pixels

/-- The separator of a value that fills the line does not fit. -/
theorem addValue_outOfBounds (h : Additive textWidth) (hline : Written textWidth alloc text line)
    {value : List Char} (hroom : text.length ≤ alloc)
    (hlong : alloc ≤ text.length + (cString value).length) :
    line.addValue textWidth alloc (some value) = .error .outOfBounds := by
  obtain ⟨copied, hcopy, hcopied, -⟩ := fill_append h (cString value) hroom hline
  have hlength : (text ++ (cString value).take (alloc - text.length)).length = alloc := by
    rw [List.length_append, List.length_take]
    omega
  obtain ⟨semicolon, hsemicolon, hline', -⟩ := append_written h hcopied (by omega) ';'
  have hspace := append_outOfBounds hline'
    (by rw [List.length_append, List.length_singleton]; omega) ' '
  rw [EmpegLine.addValue, hcopy, ok_bind, hsemicolon, ok_bind, hspace, error_bind]

end Loops

/-! ## After the loops -/

section AfterLoops

variable {textWidth : List Char → Int} {text : List Char} {line : EmpegLine}

theorem removeTrail_written (h : Additive textWidth) {alloc : Nat}
    (hline : Written textWidth alloc (text ++ separator) line) (htrail : line.addedTrail = true) :
    ∃ n, text.length + 2 + n = alloc + 1 ∧
      line.removeTrail textWidth =
        .ok ⟨text ++ '\x00' :: ' ' :: List.replicate n '\x00', text.length, textWidth text, true⟩ := by
  have hlength : (text ++ separator).length = text.length + 2 := List.length_append
  have hfits := hline.fits
  have hwidth := hline.width
  have hpixels := hline.pixels
  have hbuffer := hline.buffer
  rw [h.append, separator, h.cons] at hpixels
  rw [hlength] at hfits hwidth hbuffer
  refine ⟨alloc + 1 - (text.length + 2), by omega, ?_⟩
  have hstore : store line.buffer (line.width - 2) ['\x00'] =
      .ok (text ++ '\x00' :: ' ' :: List.replicate (alloc + 1 - (text.length + 2)) '\x00') := by
    rw [hbuffer, List.append_assoc]
    exact store_one _ _ _ (by omega)
  rw [EmpegLine.removeTrail, if_pos htrail, hstore, ok_bind, htrail,
    show line.width - 2 = text.length by omega,
    show line.pixelWidth - textWidth [';'] - textWidth [' '] = textWidth text by omega]
  rfl

/-- The elipses move up until the line fits, and leave an end behind them. -/
theorem moveElipses_terminated {width : Int} {rest : List Char}
    (hbuffer : line.buffer = text ++ (dots ++ rest)) (hwidth : line.width = text.length + 3)
    (hend : '\x00' ∈ rest ∨ (line.pixelWidth > width ∧ line.width - 4 > 0)) :
    ∃ line', line.moveElipses textWidth width = .ok line' ∧ '\x00' ∈ line'.buffer := by
  induction text using List.reverseRecOn generalizing rest line with
  | nil =>
      rw [List.length_nil] at hwidth
      have hmem : '\x00' ∈ rest := hend.resolve_right (by omega)
      refine ⟨line, ?_, by rw [hbuffer]; simp [hmem]⟩
      rw [EmpegLine.moveElipses, if_neg (by omega)]
  | append_singleton text c ih =>
      rw [List.length_append, List.length_singleton] at hwidth
      by_cases hmove : line.pixelWidth > width ∧ line.width - 4 > 0
      · have hload : load line.buffer (line.width - 4) = .ok c := by
          rw [hbuffer, List.append_assoc]
          exact load_append (by omega)
        have hdot : store line.buffer (line.width - 4) ['.'] =
            .ok (text ++ '.' :: (dots ++ rest)) := by
          rw [hbuffer, List.append_assoc]
          exact store_one _ _ _ (by omega)
        have hnull : store (text ++ '.' :: (dots ++ rest)) (line.width - 1) ['\x00'] =
            .ok (text ++ (dots ++ '\x00' :: rest)) := by
          have hindex : line.width - 1 = (text ++ dots).length := by
            rw [List.length_append]
            simp [dots]
            omega
          simpa [dots] using store_one (text ++ dots) '.' rest (d := '\x00') hindex
        rw [EmpegLine.moveElipses, if_pos hmove, hload, ok_bind, hdot, ok_bind, hnull, ok_bind]
        exact ih rfl (by show line.width - 1 = _; omega) (.inl List.mem_cons_self)
      · have hmem : '\x00' ∈ rest := hend.resolve_right hmove
        refine ⟨line, ?_, by rw [hbuffer]; simp [hmem]⟩
        rw [EmpegLine.moveElipses, if_neg hmove]

/-- There is room for the dots, or none are needed. -/
theorem addElipses_terminated (h : Additive textWidth) {width : Int} {n : Nat}
    (hbuffer : line.buffer = text ++ '\x00' :: ' ' :: List.replicate (n + 1) '\x00')
    (hwidth : line.width = text.length) (hroom : (text.length : Int) + n = width + 1)
    (hdots : 2 ≤ width) :
    ∃ line', line.addElipses textWidth width = .ok line' ∧ '\x00' ∈ line'.buffer := by
  rw [EmpegLine.addElipses]
  by_cases hlong : line.pixelWidth > width
  · obtain ⟨first, hfirst, hbuffer₁, hwidth₁, hpixels₁, -⟩ :=
      append_one textWidth hbuffer hwidth '.'
    obtain ⟨second, hsecond, hbuffer₂, hwidth₂, hpixels₂, -⟩ :=
      append_one textWidth hbuffer₁ hwidth₁ '.'
    rw [List.replicate_succ] at hbuffer₂
    obtain ⟨third, hthird, hbuffer₃, hwidth₃, hpixels₃, -⟩ :=
      append_one textWidth hbuffer₂ hwidth₂ '.'
    have hpos := h.pos '.'
    have hall : third.buffer = text ++ (dots ++ List.replicate n '\x00') := by
      rw [hbuffer₃]
      simp [dots]
    have hend : third.width = text.length + 3 := by
      rw [hwidth₃]
      simp
    rw [if_pos hlong, hfirst, ok_bind, hsecond, ok_bind, hthird, ok_bind]
    refine moveElipses_terminated hall hend ?_
    cases n with
    | zero => exact .inr ⟨by omega, by omega⟩
    | succ n => exact .inl List.mem_cons_self
  · exact ⟨line, if_neg hlong, by rw [hbuffer]; simp⟩

/-- There is no room for the third dot. -/
theorem addElipses_outOfBounds {width : Int}
    (hbuffer : line.buffer = text ++ ['\x00', ' ']) (hwidth : line.width = text.length)
    (hlong : line.pixelWidth > width) :
    line.addElipses textWidth width = .error .outOfBounds := by
  obtain ⟨first, hfirst, hbuffer₁, hwidth₁, -⟩ := append_one textWidth hbuffer hwidth '.'
  obtain ⟨second, hsecond, hbuffer₂, hwidth₂, -⟩ := append_one textWidth hbuffer₁ hwidth₁ '.'
  have hfull : (second.buffer.length : Int) < second.width + ['.'].length := by
    rw [hbuffer₂, hwidth₂, List.append_nil, List.length_singleton]
    omega
  rw [EmpegLine.addElipses, if_pos hlong, hfirst, ok_bind, hsecond, ok_bind, EmpegLine.append,
    store_outOfBounds hfull]
  rfl

end AfterLoops

/-! ## When values fit -/

section Fitting

variable {values before more : List (Option (List Char))} {width : Int}

theorem texts_append (h : none ∉ before) : texts (before ++ more) = before ++ texts more := by
  refine List.takeWhile_append_of_pos ?_
  intro value hvalue
  cases value with
  | none => exact absurd hvalue h
  | some value => rfl

/-- The lengths with separators are two larger. -/
theorem lineFits_iff (hwidth : 2 ≤ width) :
    LineFits values width ↔ ((separated (texts values)).length : Int) < width + 3 ∨
      ∃ before after, texts values = before ++ after ∧
        ((separated before).length : Int) = width + 3 := by
  have hlength : ∀ values, ((joined values).length : Int) ≤ width ↔
      ((separated values).length : Int) < width + 3 := by
    intro values
    by_cases h : values = []
    · subst h
      refine iff_of_true ?_ ?_ <;> simp [joined] <;> omega
    · rw [length_separated h]
      push_cast
      omega
  have hexact : ∀ values, ((joined values).length : Int) = width + 1 ↔
      ((separated values).length : Int) = width + 3 := by
    intro values
    by_cases h : values = []
    · subst h
      refine iff_of_false ?_ ?_ <;> simp [joined] <;> omega
    · rw [length_separated h]
      push_cast
      omega
  simp only [LineFits, hlength, hexact]

theorem lineFits_of_le (hwidth : 2 ≤ width) (hsplit : values = before ++ more) (hnull : none ∉ before)
    (hshort : ((separated before).length : Int) ≤ width + 3)
    (hrest : texts more ≠ [] → ¬ ((separated before).length : Int) < width + 3) :
    LineFits values width := by
  rw [lineFits_iff hwidth, hsplit, texts_append hnull]
  by_cases hexact : ((separated before).length : Int) = width + 3
  · exact .inr ⟨before, texts more, rfl, hexact⟩
  · have hmore : texts more = [] := by
      by_contra hne
      exact hrest hne (by omega)
    rw [hmore, List.append_nil]
    exact .inl (by omega)

/-- A value that leads over the end. -/
theorem not_lineFits (hwidth : 2 ≤ width) {value : List Char}
    (hsplit : values = before ++ some value :: more) (hnull : none ∉ before)
    (hroom : ((separated before).length : Int) < width + 3)
    (hlong : width + 3 < (separated before).length + ((cString value).length + 2)) :
    ¬ LineFits values width := by
  have htexts : texts values = before ++ some value :: texts more := by
    rw [hsplit, texts_append hnull]
    rfl
  have hvalue : ∀ rest, (separated (some value :: rest)).length =
      (cString value).length + 2 + (separated rest).length := by
    intro rest
    rw [separated_cons, List.length_append, List.length_append]
    rfl
  rw [lineFits_iff hwidth, htexts]
  rintro (hshort | ⟨exact, after, hsplit', hexact⟩)
  · rw [separated_append, List.length_append, hvalue] at hshort
    omega
  · rcases List.append_eq_append_iff.mp hsplit' with ⟨read, rfl, hread⟩ | ⟨unread, rfl, -⟩
    · rw [separated_append, List.length_append] at hexact
      cases read with
      | nil =>
          rw [separated_nil, List.length_nil] at hexact
          omega
      | cons value' read =>
          obtain ⟨rfl, -⟩ := List.cons.inj hread
          rw [hvalue] at hexact
          omega
    · rw [separated_append, List.length_append] at hroom
      omega

end Fitting

/-! ## The whole drawing -/

/-- The line after some values. -/
structure Copied (textWidth : List Char → Int) (alloc : Nat) (read : List (Option (List Char)))
    (line : EmpegLine) : Prop where
  noNull : none ∉ read
  written : Written textWidth alloc (separated read) line
  trail : line.addedTrail = !read.isEmpty

section Drawing

variable {textWidth : List Char → Int} {alloc : Nat} {read : List (Option (List Char))}
  {line line' : EmpegLine} {width : Int}

theorem separated_snoc (read : List (Option (List Char))) (value : List Char) :
    separated (read ++ [some value]) = separated read ++ (cString value ++ separator) := by
  rw [separated_append]
  exact congrArg (separated read ++ ·) (List.append_nil _)

/-- **What a value does**: it is copied with its separator, or it is too long for the line, or there
is no value. -/
theorem addValue_cases (h : Additive textWidth) (value : Option (List Char))
    (hline : Copied textWidth alloc read line) (hroom : line.width < alloc) :
    (value = none ∧ line.addValue textWidth alloc value = .error .nullPointer) ∨
      ∃ text, value = some text ∧
        ((∃ line', line.addValue textWidth alloc value = .ok line' ∧
            Copied textWidth alloc (read ++ [value]) line') ∨
          (line.addValue textWidth alloc value = .error .outOfBounds ∧
            alloc ≤ (separated read).length + (cString text).length)) := by
  have hwidth := hline.written.width
  cases value with
  | none => exact .inl ⟨rfl, rfl⟩
  | some text =>
      refine .inr ⟨text, rfl, ?_⟩
      by_cases hfits : (separated read).length + (cString text).length < alloc
      · obtain ⟨line', hadd, hwritten, htrail⟩ := addValue_fits h hline.written hfits
        refine .inl ⟨line', hadd, by simpa using hline.noNull, ?_, htrail.trans (by simp)⟩
        rw [separated_snoc]
        exact hwritten
      · have hlong : alloc ≤ (separated read).length + (cString text).length := Nat.not_lt.mp hfits
        exact .inr ⟨addValue_outOfBounds h hline.written (by omega) hlong, hlong⟩

theorem addValue_copied (h : Additive textWidth) (value : Option (List Char))
    (hline : Copied textWidth alloc read line) (hroom : line.width < alloc)
    (hadd : line.addValue textWidth alloc value = .ok line') :
    Copied textWidth alloc (read ++ [value]) line' := by
  rcases addValue_cases h value hline hroom with ⟨-, hnull⟩ | ⟨-, -, ⟨line'', hok, hcopied⟩ | ⟨hout, -⟩⟩
  · rw [hnull] at hadd
    cases hadd
  · rw [hok] at hadd
    cases hadd
    exact hcopied
  · rw [hout] at hadd
    cases hadd

theorem addValue_faults (h : Additive textWidth) {value : Option (List Char)} {e : Fault}
    (hline : Copied textWidth alloc read line)
    (hroom : line.width < alloc) (hadd : line.addValue textWidth alloc value = .error e) :
    (value = none ∧ e = .nullPointer) ∨
      ∃ text, value = some text ∧ e = .outOfBounds ∧
        alloc ≤ (separated read).length + (cString text).length := by
  rcases addValue_cases h value hline hroom with
    ⟨hnone, hnull⟩ | ⟨text, htext, ⟨line'', hok, -⟩ | ⟨hout, hlong⟩⟩
  · rw [hnull] at hadd
    cases hadd
    exact .inl ⟨hnone, rfl⟩
  · rw [hok] at hadd
    cases hadd
  · rw [hout] at hadd
    cases hadd
    exact .inr ⟨text, htext, rfl, hlong⟩

theorem draw_of_terminated (top left : Int)
    (htrail : line.removeTrail textWidth = .ok line')
    (hdots : ∃ line'', EmpegLine.addElipses textWidth width
        { line' with pixelWidth := line'.pixelWidth - 1 } = .ok line'' ∧ '\x00' ∈ line''.buffer) :
    StaysInBuffer (line.draw textWidth top left width) := by
  obtain ⟨line'', hdots, hmem⟩ := hdots
  rw [EmpegLine.draw, htrail, ok_bind]
  simp only [hdots, ok_bind, readString, if_pos hmem]
  exact ⟨by simp [pure, Except.pure], by simp [pure, Except.pure]⟩

/-- **A line can be drawn when its last separator was inside of the buffer.** -/
theorem draw_staysInBuffer_iff (h : Additive textWidth) (hwidth : 2 ≤ width)
    (halloc : (alloc : Int) = width + 3) (hline : Copied textWidth alloc read line) (top left : Int) :
    StaysInBuffer (line.draw textWidth top left width) ↔ (separated read).length ≤ alloc := by
  by_cases hread : read = []
  · subst hread
    refine iff_of_true ?_ (Nat.zero_le _)
    have htrail : line.removeTrail textWidth = .ok line :=
      if_neg (by rw [hline.trail]; simp)
    refine draw_of_terminated top left htrail ⟨_, if_neg ?_, ?_⟩
    · have hpixels : line.pixelWidth = 0 := hline.written.pixels.trans h.nil
      show ¬ line.pixelWidth - 1 > width
      omega
    · show '\x00' ∈ line.buffer
      rw [hline.written.buffer]
      simp
  · have htext := separated_eq hread
    have hlength := length_separated hread
    obtain ⟨n, hn, htrail⟩ := removeTrail_written h (htext ▸ hline.written)
      (by rw [hline.trail]; simp [hread])
    by_cases hfits : (separated read).length ≤ alloc
    · refine iff_of_true (draw_of_terminated top left htrail ?_) hfits
      obtain ⟨n, rfl⟩ := Nat.exists_eq_succ_of_ne_zero (by omega : n ≠ 0)
      exact addElipses_terminated h rfl rfl (by omega) hwidth
    · refine iff_of_false ?_ hfits
      have hle := h.length_le (joined read)
      obtain rfl : n = 0 := by omega
      have hdots : EmpegLine.addElipses textWidth width ⟨joined read ++ ['\x00', ' '],
          (joined read).length, textWidth (joined read) - 1, true⟩ = .error .outOfBounds :=
        addElipses_outOfBounds rfl rfl (by show _ - 1 > width; omega)
      rintro ⟨hout, -⟩
      refine hout ?_
      rw [EmpegLine.draw, htrail, ok_bind]
      exact (congrArg (· >>= _) hdots).trans (error_bind _ _)

/-- When the loops have come to their end, the line is too long by a separator at most. -/
theorem filled_lineFits_iff {values rest : List (Option (List Char))} (hwidth : 2 ≤ width)
    (halloc : (alloc : Int) = width + 3)
    (hfilled : Filled (fun line : EmpegLine => line.width < (alloc : Int)) (Copied textWidth alloc)
      values read rest line) :
    (separated read).length ≤ alloc ↔ LineFits values width := by
  have hline := hfilled.holds
  have hlinewidth := hline.written.width
  constructor
  · intro hle
    refine lineFits_of_le hwidth hfilled.split hline.noNull (by omega) ?_
    intro hrest
    have hfull := hfilled.full (by rintro rfl; exact hrest rfl)
    omega
  · intro hfits
    by_contra hlong
    -- the last value that was read leads over the end
    rcases List.eq_nil_or_concat' read with rfl | ⟨before, value, rfl⟩
    · exact hlong (Nat.zero_le _)
    · obtain ⟨line', hbefore, hroom⟩ := hfilled.before before value [] rfl
      have hbeforewidth := hbefore.written.width
      have hnull := hline.noNull
      cases value with
      | none => exact hnull (by simp)
      | some value =>
          rw [separated_snoc, List.length_append, List.length_append] at hlong
          have hseparator : separator.length = 2 := rfl
          exact not_lineFits hwidth (by simpa using hfilled.split) hbefore.noNull (by omega)
            (by omega) hfits

end Drawing

/-- **Drawing is safe just when the values fit**, or fill one character more than there are pixels. -/
theorem empeg_staysInBuffer_iff {textWidth : List Char → Int} (h : Additive textWidth)
    (song : Option (List MetaKey)) (keySet : List (List Char)) (top left : Int) {width : Int}
    (hwidth : textWidth dots - 1 ≤ width) :
    StaysInBuffer (drawMetaStringEmpeg textWidth song keySet top left width) ↔
      LineFits (metaValues song keySet) width := by
  have hdots : 2 ≤ width := by
    have hle := h.length_le dots
    have hlength : dots.length = 3 := rfl
    omega
  obtain ⟨alloc, halloc⟩ := Int.eq_ofNat_of_zero_le (by omega : 0 ≤ width + 3)
  have hempty : Copied textWidth alloc [] ⟨List.replicate (alloc + 1) '\x00', 0, 0, false⟩ :=
    ⟨by simp, ⟨by simp, by simp, rfl, h.nil.symm⟩, rfl⟩
  rw [drawMetaStringEmpeg, if_neg (by omega), halloc]
  dsimp only
  rw [eachValue_eq, show ((alloc : Int) + 1).toNat = alloc + 1 by omega]
  rcases fill_cases (fun line : EmpegLine => line.width < (alloc : Int))
      (EmpegLine.addValue textWidth alloc)
      (fun read line value line' hline hroom hadd => addValue_copied h value hline hroom hadd)
      hempty (metaValues song keySet) with
    ⟨read, rest, line, hfill, hfilled⟩ | ⟨before, value, line, e, hfill, hfailed⟩
  · have hdraw : StaysInBuffer (line.draw textWidth top left width >>= fun drawn =>
        return some drawn) ↔ StaysInBuffer (line.draw textWidth top left width) := by
      cases line.draw textWidth top left width with
      | error e => simp [StaysInBuffer]
      | ok drawn => simp [StaysInBuffer, pure, Except.pure]
    rw [hfill, ok_bind, hdraw, draw_staysInBuffer_iff h hdots halloc.symm hfilled.holds]
    exact filled_lineFits_iff hdots halloc.symm hfilled
  · obtain ⟨after, hsplit⟩ := hfailed.split
    have hbefore := hfailed.holds
    have hroom := hfailed.room
    have hlinewidth := hbefore.written.width
    rw [hfill, error_bind]
    rcases addValue_faults h hbefore hroom hfailed.fails with
      ⟨rfl, rfl⟩ | ⟨text, rfl, rfl, hlong⟩
    · refine iff_of_true ⟨by simp, by simp⟩ ?_
      exact lineFits_of_le hdots hsplit hbefore.noNull (by omega) fun hrest => absurd rfl hrest
    · refine iff_of_false (fun hstays => hstays.1 rfl) ?_
      exact not_lineFits hdots hsplit hbefore.noNull (by omega) (by omega)

/-- A font whose characters are all of one width. -/
theorem additive_monospaced {spacing : Int} (h : 1 ≤ spacing) :
    Additive (fun text => spacing * text.length) where
  append s t := by
    rw [List.length_append, Int.natCast_add, Int.mul_add]
  pos c := by
    rw [List.length_singleton]
    omega

/-- A title of 131 characters, with the 128 pixels of the screen. -/
theorem empeg_leaves_buffer :
    Additive (fun text => 6 * text.length) ∧
      ¬ StaysInBuffer (drawMetaStringEmpeg (fun text => 6 * text.length)
        (some [("title".toList, [some (List.replicate 131 'a')])]) ["title".toList] 6 0 128) := by
  have hwidth : Additive (fun text => 6 * text.length) := additive_monospaced (by decide)
  refine ⟨hwidth, fun hstays => hstays.1 ?_⟩
  have hstart : Written (fun text => 6 * text.length) 131 []
      ⟨List.replicate 132 '\x00', 0, 0, false⟩ := ⟨Nat.zero_le _, rfl, rfl, rfl⟩
  have hlength : (cString (List.replicate 131 'a')).length = 131 := by
    rw [cString_eq_self (by simp), List.length_replicate]
  have hvalue : EmpegLine.addValue (fun text => 6 * text.length) (131 : Nat)
      ⟨List.replicate 132 '\x00', 0, 0, false⟩ (some (List.replicate 131 'a')) =
      .error .outOfBounds :=
    addValue_outOfBounds hwidth hstart (Nat.zero_le _) (by rw [hlength]; exact Nat.le_add_left _ _)
  rw [drawMetaStringEmpeg, if_neg (by decide)]
  dsimp only
  rw [eachValue_eq, show metaValues (some [("title".toList, [some (List.replicate 131 'a')])])
    ["title".toList] = [some (List.replicate 131 'a')] from rfl, fill_cons (by decide)]
  exact congrArg (fun run => (run >>= _) >>= _) hvalue

theorem empeg_staysInBuffer_iff_title :
    StaysInBuffer (drawMetaStringEmpeg (fun text => 6 * text.length)
        (some [("title".toList, [some "Windowlicker".toList])]) ["title".toList] 6 0 128) ↔
      LineFits (metaValues (some [("title".toList, [some "Windowlicker".toList])])
        ["title".toList]) 128 :=
  empeg_staysInBuffer_iff (additive_monospaced (by decide))
    (some [("title".toList, [some "Windowlicker".toList])]) ["title".toList] 6 0 (by decide)

end Squash.Display
