import Squash.Database.Tags
import Squash.Database.Walk

/-!
# Lines in the texts of an MP3

`mp3_load_meta` has the text of a frame in a buffer, and inserts the lines in it one by one. Two
pointers go over the buffer; the line ends between them are overwritten with terminators on the way,
and a bound is looked at in two places.

The loop does what `mp3Values` does (`mp3ValueLoop_eq`), so it never leaves the buffer. Of a text
without terminators it inserts all lines that have characters, and an empty one in front of them if
the text is empty or starts with a line end (`mp3ValueLoop_runs`).
-/

namespace Squash

open CString

/-- `while( cur_ptr - value_raw < value_length && (*cur_ptr == '\n' || *cur_ptr == '\r') )`, where
pointers are indices of the buffer. -/
def clearLineEnds (valueLength : Nat) (valueRaw : List Char) (curPtr : Nat) :
    Option (List Char × Nat) :=
  if _hmore : curPtr < valueLength then do
    let c ← valueRaw[curPtr]?
    if isEol c then do
      let valueRaw ← Buffer.write valueRaw curPtr ['\x00']
      clearLineEnds valueLength valueRaw (curPtr + 1)
    else some (valueRaw, curPtr)
  else some (valueRaw, curPtr)
termination_by valueLength - curPtr

/-- The `do` loop from `cur_ptr` on, with so many turns at most: the values that are inserted. Outside
of the buffer there is nothing to read or to write. -/
def mp3ValueLoop (valueLength : Nat) : Nat → List Char → Nat → Option (List (List Char))
  | 0, _, _ => none
  | fuel + 1, valueRaw, curPtr => do
    let curValue := curPtr
    match ← strpbrk '\x00' isEol (valueRaw.drop curValue) with
    | none =>
      let value ← bufferString (valueRaw.drop curValue)
      return [value]
    | some k =>
      let (valueRaw, curPtr) ← clearLineEnds valueLength valueRaw (curValue + k)
      let value ← bufferString (valueRaw.drop curValue)
      if curPtr < valueLength then
        (mp3ValueLoop valueLength fuel valueRaw curPtr).map (value :: ·)
      else return [value]

/-- The longest runs of characters that do not end lines. -/
def runs (text : List Char) : List (List Char) := (text.splitOnP isEol).filter (· ≠ [])

/-! ## The loop -/

section Loop

variable {valueLength : Nat} {line eols : List Char}

/-- The line ends are overwritten, up to the next character. -/
theorem clearLineEnds_eols (heols : ∀ c ∈ eols, isEol c = true) (pre : List Char) {d : Char}
    (hd : isEol d = false) (rest : List Char) (hlength : pre.length + eols.length ≤ valueLength) :
    clearLineEnds valueLength (pre ++ (eols ++ d :: rest)) pre.length =
      some (pre ++ (List.replicate eols.length '\x00' ++ d :: rest),
        pre.length + eols.length) := by
  induction eols generalizing pre with
  | nil =>
      have hread : (pre ++ ([] ++ d :: rest))[pre.length]? = some d := by simp
      rw [clearLineEnds]
      split
      · simp only [hread, Option.bind_eq_bind, Option.bind_some, hd, Bool.false_eq_true, if_false]
        rfl
      · rfl
  | cons c eols ih =>
      obtain ⟨hc, heols⟩ := List.forall_mem_cons.mp heols
      rw [List.length_cons] at hlength
      have hmore : pre.length < valueLength := by omega
      have hread : (pre ++ (c :: eols ++ d :: rest))[pre.length]? = some c := by simp
      have hwrite : Buffer.write (pre ++ (c :: eols ++ d :: rest)) pre.length ['\x00'] =
          some (pre ++ (['\x00'] ++ (eols ++ d :: rest))) := by
        have hold : [c].length = ['\x00'].length := rfl
        exact Buffer.write_append hold
      have hrest := ih heols (pre ++ ['\x00']) (by simp; omega)
      rw [List.append_assoc, List.length_append, List.length_singleton] at hrest
      rw [clearLineEnds, dif_pos hmore]
      simp only [hread, hwrite, Option.bind_eq_bind, Option.bind_some, hc, if_true, hrest]
      simp [List.replicate_succ]
      omega

theorem bufferString_append (hline : '\x00' ∉ line) (rest : List Char) :
    bufferString (line ++ '\x00' :: rest) = some line := by
  rw [bufferString, CString.strlen_terminated hline, Option.map_some, List.take_left]

variable (hplain : ∀ c ∈ line, isPlain c = true)

include hplain

theorem plain_search : ∀ c ∈ line, c ≠ '\x00' ∧ isEol c = false := fun c hc => by
  simpa [isPlain] using hplain c hc

/-- Without another line end the string is the last value. -/
theorem mp3ValueLoop_last (valueLength fuel : Nat) (pre rest : List Char) :
    mp3ValueLoop valueLength (fuel + 1) (pre ++ (line ++ '\x00' :: rest)) pre.length =
      some [line] := by
  rw [mp3ValueLoop, List.drop_left]
  simp only [strpbrk_terminated (plain_search hplain), bufferString_append (not_mem_of_plain hplain),
    Option.bind_eq_bind, Option.bind_some, Option.pure_def]

/-- With line ends the string is over where they were, and the loop goes on behind them, unless that
is the end of the text. -/
theorem mp3ValueLoop_cut (heols : ∀ c ∈ eols, isEol c = true) (hne : eols ≠ []) {d : Char}
    (hd : isEol d = false) (fuel : Nat) (pre rest : List Char)
    (hlength : (pre ++ (line ++ eols)).length ≤ valueLength) :
    mp3ValueLoop valueLength (fuel + 1) (pre ++ (line ++ (eols ++ d :: rest))) pre.length =
      if (pre ++ (line ++ eols)).length < valueLength then
        (mp3ValueLoop valueLength fuel
          (pre ++ (line ++ List.replicate eols.length '\x00') ++ d :: rest)
          (pre ++ (line ++ eols)).length).map (line :: ·)
      else some [line] := by
  obtain ⟨c, eols', rfl⟩ := List.exists_cons_of_ne_nil hne
  have hc : isEol c = true := heols c List.mem_cons_self
  have hnul : c ≠ '\x00' := by
    rintro rfl
    exact absurd hc (by decide)
  have hfound : strpbrk '\x00' isEol (line ++ (c :: eols' ++ d :: rest)) = some (some line.length) :=
    strpbrk_found (plain_search hplain) hnul hc _
  have hcleared : (pre ++ line).length + (c :: eols').length ≤ valueLength := by
    simpa [Nat.add_assoc] using hlength
  have hclear := clearLineEnds_eols heols (pre ++ line) hd rest hcleared
  have hvalue : bufferString (line ++ (List.replicate (c :: eols').length '\x00' ++ d :: rest)) =
      some line := bufferString_append (not_mem_of_plain hplain) _
  rw [List.append_assoc, List.append_assoc, List.length_append, Nat.add_assoc] at hclear
  rw [mp3ValueLoop, List.drop_left]
  simp only [hfound, hclear, List.drop_left, hvalue, Option.bind_eq_bind, Option.bind_some,
    Option.pure_def, List.length_append, List.append_assoc]

end Loop

/-- One turn that finds a line end. -/
theorem mp3ValueLoop_eols {text behind : List Char} {c : Char}
    (h : text.dropWhile isPlain = c :: behind) (heol : isEol c = true) (fuel : Nat)
    (pre : List Char) :
    ∃ pre', mp3ValueLoop (pre ++ text).length (fuel + 1) (pre ++ (text ++ ['\x00'])) pre.length =
      if behind.dropWhile isEol ≠ [] then
        (mp3ValueLoop (pre' ++ behind.dropWhile isEol).length fuel
          (pre' ++ (behind.dropWhile isEol ++ ['\x00'])) pre'.length).map
          (text.takeWhile isPlain :: ·)
      else some [text.takeWhile isPlain] := by
  let line := text.takeWhile isPlain
  let eols := c :: behind.takeWhile isEol
  let rest := behind.dropWhile isEol
  have htext : text = line ++ (eols ++ rest) := eq_cut h
  obtain ⟨d, rest', hrest, hd⟩ : ∃ d rest', rest ++ ['\x00'] = d :: rest' ∧ isEol d = false := by
    cases hrest : rest with
    | nil => exact ⟨'\x00', [], rfl, rfl⟩
    | cons d rest' => exact ⟨d, rest' ++ ['\x00'], rfl, rest_cut behind d (by simp [rest, hrest])⟩
  have hlength : (pre ++ text).length = (pre ++ (line ++ eols)).length + rest.length := by
    rw [htext]
    simp [Nat.add_assoc]
  have hcut := mp3ValueLoop_cut (takeWhile_isPlain text) (eols_cut heol) (List.cons_ne_nil _ _) hd
    fuel pre rest' (Nat.le.intro hlength.symm)
  let pre' := pre ++ (line ++ List.replicate eols.length '\x00')
  have hpre : pre'.length = (pre ++ (line ++ eols)).length := by simp [pre']
  have hlength' : (pre' ++ rest).length = (pre ++ text).length := by
    rw [hlength, List.length_append, hpre]
  have hbuffer : text ++ ['\x00'] = line ++ (eols ++ d :: rest') := by
    rw [htext, ← hrest]
    simp
  have hmore : (pre ++ (line ++ eols)).length < (pre ++ text).length ↔ rest ≠ [] := by
    rw [hlength, Nat.lt_add_right_iff_pos, List.length_pos_iff]
  refine ⟨pre', ?_⟩
  rw [hbuffer, hcut, hlength', hrest, hpre]
  exact if_congr hmore rfl rfl

/-- **The two pointers split the text as `mp3Values` does**, and stay in the buffer. -/
theorem mp3ValueLoop_eq (text : List Char) : ∀ fuel, text.length < fuel → ∀ pre,
    mp3ValueLoop (pre ++ text).length fuel (pre ++ (text ++ ['\x00'])) pre.length =
      some (mp3Values text) := by
  induction text using mp3Values.induct with
  | case1 text hstop =>
      intro fuel hfuel pre
      obtain ⟨fuel, rfl⟩ := Nat.exists_eq_add_of_lt hfuel
      have htext : text.takeWhile isPlain = text := by
        simpa [hstop] using List.takeWhile_append_dropWhile (p := isPlain) (l := text)
      rw [mp3Values_nil hstop, htext]
      exact mp3ValueLoop_last (htext ▸ takeWhile_isPlain text) _ _ pre []
  | case2 text c behind hstop hmore ih =>
      intro fuel hfuel pre
      obtain ⟨fuel, rfl⟩ := Nat.exists_eq_add_of_lt hfuel
      obtain ⟨heol, hrest⟩ : isEol c = true ∧ behind.dropWhile isEol ≠ [] := by
        simpa using hmore
      obtain ⟨pre', hloop⟩ := mp3ValueLoop_eols hstop heol (text.length + fuel) pre
      have hlength : (behind.dropWhile isEol).length < text.length + fuel := by
        have htext := congrArg List.length (eq_cut hstop)
        rw [List.length_append, List.length_append, List.length_cons] at htext
        omega
      rw [hloop, if_pos hrest, ih _ hlength, mp3Values_cons hstop, if_pos hmore]
      rfl
  | case3 text c behind hstop hmore =>
      intro fuel hfuel pre
      obtain ⟨fuel, rfl⟩ := Nat.exists_eq_add_of_lt hfuel
      rw [mp3Values_cons hstop, if_neg hmore]
      by_cases heol : isEol c = true
      · have hrest : ¬ behind.dropWhile isEol ≠ [] := by simpa [heol] using hmore
        obtain ⟨pre', hloop⟩ := mp3ValueLoop_eols hstop heol (text.length + fuel) pre
        rw [hloop, if_neg hrest]
      · -- a terminator in the text
        have hc : c = '\x00' := (stop_cut hstop).resolve_left heol
        have htext : text = text.takeWhile isPlain ++ '\x00' :: behind := by
          rw [← hc, ← hstop]
          exact List.takeWhile_append_dropWhile.symm
        have hbuffer : text ++ ['\x00'] =
            text.takeWhile isPlain ++ '\x00' :: (behind ++ ['\x00']) := by
          conv => lhs; rw [htext]
          simp
        rw [hbuffer]
        exact mp3ValueLoop_last (takeWhile_isPlain text) _ _ pre _

/-! ## What is inserted -/

theorem runs_break (front behind : List Char) {c : Char} (hc : isEol c = true) :
    runs (front ++ c :: behind) = runs front ++ runs behind := by
  rw [runs, List.splitOnP_append_cons front behind hc, List.filter_append]
  rfl

theorem runs_line {line : List Char} (hline : ∀ c ∈ line, isEol c = false) :
    runs line = if line = [] then [] else [line] := by
  rw [runs, List.splitOnP_eq_singleton hline]
  by_cases hempty : line = [] <;> simp [hempty]

/-- Line ends in front of a text are no run. -/
theorem runs_eols {eols : List Char} (heols : ∀ c ∈ eols, isEol c = true) (rest : List Char) :
    runs (eols ++ rest) = runs rest := by
  induction eols with
  | nil => rfl
  | cons c eols ih =>
      obtain ⟨hc, heols⟩ := List.forall_mem_cons.mp heols
      have hbreak := runs_break [] (eols ++ rest) hc
      rw [List.nil_append] at hbreak
      rw [List.cons_append, hbreak, ih heols]
      rfl

section Cut

variable {text behind : List Char} {c : Char} (h : text.dropWhile isPlain = c :: behind)
  (heol : isEol c = true)

include h heol

/-- The line in front of the first line end is a run, if there is one. -/
theorem runs_cut : runs text =
    (if text.takeWhile isPlain = [] then [] else [text.takeWhile isPlain]) ++
      runs (behind.dropWhile isEol) := by
  conv => lhs; rw [eq_cut h]
  rw [List.cons_append, runs_break _ _ heol, runs_line (isEol_of_plain (takeWhile_isPlain text)),
    runs_eols fun d hd => List.mem_takeWhile_imp hd]

theorem head?_cut : text.head?.all isEol = true ↔ text.takeWhile isPlain = [] := by
  have hline := takeWhile_isPlain text
  conv => lhs; rw [eq_cut h]
  cases hcut : text.takeWhile isPlain with
  | nil => simpa using heol
  | cons d line =>
      have hd : isEol d = false := isEol_of_plain (hcut ▸ hline) d List.mem_cons_self
      simp [hd]

/-- The values of the rest come behind the line, after the empty one that may be in front. -/
theorem runs_values {values : List (List Char)} (hvalues : values = runs (behind.dropWhile isEol)) :
    text.takeWhile isPlain :: values =
      (if text.head?.all isEol then [[]] else []) ++ runs text := by
  rw [runs_cut h heol, hvalues, if_congr (head?_cut h heol) rfl rfl]
  by_cases hempty : text.takeWhile isPlain = [] <;> simp [hempty]

end Cut

/-- **All lines with characters are inserted**, after an empty one if a line end is in front. -/
theorem mp3Values_runs {text : List Char} (hnul : '\x00' ∉ text) :
    mp3Values text = (if text.head?.all isEol then [[]] else []) ++ runs text := by
  have hstops : ∀ {text behind : List Char} {c : Char}, '\x00' ∉ text →
      text.dropWhile isPlain = c :: behind → isEol c = true := by
    intro text behind c hnul hstop
    have hmem : c ∈ text := (List.dropWhile_sublist isPlain).subset (hstop ▸ List.mem_cons_self)
    refine (stop_cut hstop).resolve_right ?_
    rintro rfl
    exact hnul hmem
  induction text using mp3Values.induct with
  | case1 text hstop =>
      have htext : text.takeWhile isPlain = text := by
        simpa [hstop] using List.takeWhile_append_dropWhile (p := isPlain) (l := text)
      have hplain := takeWhile_isPlain text
      rw [htext] at hplain
      have hline := isEol_of_plain hplain
      rw [mp3Values_nil hstop, htext, runs_line hline]
      cases text with
      | nil => rfl
      | cons d text => simp [hline d List.mem_cons_self]
  | case2 text c behind hstop hmore ih =>
      have hrest : behind.dropWhile isEol ≠ [] := by
        intro hrest
        simp [hrest] at hmore
      have hnul' : '\x00' ∉ behind.dropWhile isEol := by
        intro hmem
        rw [eq_cut hstop] at hnul
        exact hnul (List.mem_append_right _ (List.mem_append_right _ hmem))
      have hhead : (behind.dropWhile isEol).head?.all isEol = false := by
        obtain ⟨d, rest, hcons⟩ := List.exists_cons_of_ne_nil hrest
        have hd := rest_cut behind d (by rw [hcons]; rfl)
        simp [hcons, hd]
      rw [mp3Values_cons hstop, if_pos hmore]
      apply runs_values hstop (hstops hnul hstop)
      rw [ih hnul', hhead]
      rfl
  | case3 text c behind hstop hmore =>
      have heol := hstops hnul hstop
      have hrest : behind.dropWhile isEol = [] := by simpa [heol] using hmore
      rw [mp3Values_cons hstop, if_neg hmore]
      apply runs_values hstop heol
      rw [hrest]
      rfl

/-- **The loop ends, stays in the buffer and inserts the lines with characters**, in order, and an
empty value in front of them when the text is empty or starts with a line end. -/
theorem mp3ValueLoop_runs (text : List Char) (hnul : '\x00' ∉ text) :
    ∃ turns, ∀ fuel, turns ≤ fuel →
      mp3ValueLoop text.length fuel (text ++ ['\x00']) 0 =
        some ((if text.head?.all isEol then [[]] else []) ++ runs text) := by
  refine ⟨text.length + 1, ?_⟩
  intro fuel hfuel
  rw [← mp3Values_runs hnul]
  exact mp3ValueLoop_eq text fuel hfuel []

/-- Line ends of both kinds, in front of a text, between lines and at its end. -/
theorem mp3ValueLoop_runs_mixed : ∃ turns, ∀ fuel, turns ≤ fuel →
    mp3ValueLoop 9 fuel ("\n\rab\r\nc\n\n".toList ++ ['\x00']) 0 =
      some [[], "ab".toList, "c".toList] :=
  mp3ValueLoop_runs "\n\rab\r\nc\n\n".toList (by decide)

end Squash
