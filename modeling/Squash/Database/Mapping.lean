import Squash.Database.Masterlist
import Squash.Database.Walk

/-!
# The master list in memory

`load_masterlist` maps the file into memory and takes lines off it with `strsep`, which stops at a
line feed or at a terminator. The file has none of its own: what stops `strsep` at the end is the
rest of the last page, which is zero, and a file that fills its last page has no such rest. A file
with a terminator in it is not read any further.

`readsLines_iff` says for which files the lines are those of the file.
-/

namespace Squash

open CString

/-- What `mmap` makes readable: the file, and zeros up to the end of the page. -/
def mapping (pageSize : Nat) (text : List Char) : List Char :=
  text ++ List.replicate ((pageSize - text.length % pageSize) % pageSize) '\x00'

/-- The line in memory, if it is not empty and not a comment. -/
def songLineAt (memory : List Char) (thisLine : Nat) : Option (List (List Char)) :=
  memory[thisLine]?.bind fun c =>
    if c = '\x00' ∨ c = '#' then some []
    else (bufferString (memory.drop thisLine)).map fun line => [line]

/-- The loop over `cur_data`: the lines that are passed to `_load_file`, for so many turns at most.
Reading outside of the mapping is `none`. -/
def masterlistLoop : Nat → List Char → Option Nat → Option (List (List Char))
  | _, _, none => some []
  | 0, _, some _ => none
  | fuel + 1, memory, some curData => do
    let thisLine := curData
    let (memory, curData) ← strsep '\x00' '\n' memory curData
    let line ← songLineAt memory thisLine
    let lines ← masterlistLoop fuel memory curData
    return line ++ lines

variable {text line : List Char}

theorem songLineAt_line (hnul : '\x00' ∉ line) (pre rest : List Char) :
    songLineAt (pre ++ (line ++ '\x00' :: rest)) pre.length = some ([line].filter isSongLine) := by
  rw [songLineAt, List.drop_left, bufferString, strlen_terminated hnul, Option.map_some,
    List.take_left]
  cases line with
  | nil => simp [isSongLine]
  | cons c line =>
      have hc : c ≠ '\x00' := fun hc => hnul (hc ▸ List.mem_cons_self)
      by_cases hhash : c = '#'
      · simp [isSongLine, hhash]
      · simp [isSongLine, hhash, hc]

/-- One turn, for a line that a line feed ends. -/
theorem masterlistLoop_cons (hline : '\n' ∉ line) (hnul : '\x00' ∉ line) (pre rest : List Char)
    (fuel : Nat) :
    masterlistLoop (fuel + 1) (pre ++ (line ++ '\n' :: rest)) (some pre.length) =
      (masterlistLoop fuel ((pre ++ line ++ ['\x00']) ++ rest)
        (some (pre ++ line ++ ['\x00']).length)).map ([line].filter isSongLine ++ ·) := by
  have hmemory : pre ++ (line ++ '\x00' :: rest) = (pre ++ line ++ ['\x00']) ++ rest := by simp
  have hcur : pre.length + line.length + 1 = (pre ++ line ++ ['\x00']).length := by
    simp [Nat.add_assoc]
  rw [masterlistLoop, strsep_delim hline hnul, hcur]
  simp only [Option.bind_eq_bind, Option.bind_some, songLineAt_line hnul]
  rw [hmemory]
  cases masterlistLoop fuel _ _ <;> rfl

/-- **The loop takes the lines of the string** that stands in memory, and ends with it. -/
theorem masterlistLoop_string (h : '\x00' ∉ text) (pre rest : List Char) {fuel : Nat}
    (hfuel : text.length < fuel) :
    masterlistLoop fuel (pre ++ (text ++ '\x00' :: rest)) (some pre.length) =
      some ((text.splitOn '\n').filter isSongLine) := by
  induction fuel generalizing text pre with
  | zero => cases hfuel
  | succ fuel ih =>
      by_cases hmem : '\n' ∈ text
      · obtain ⟨line, text, rfl, hline⟩ := List.eq_append_cons_of_mem hmem
        have hnul : '\x00' ∉ line ∧ '\x00' ∉ text := by simpa using h
        have hlength : text.length < fuel := by
          rw [List.length_append, List.length_cons] at hfuel
          omega
        rw [List.append_assoc, List.cons_append, masterlistLoop_cons hline hnul.1, ih hnul.2 _ hlength,
          List.splitOn_append_cons_self_of_not_mem hline]
        exact congrArg some (List.filter_append [line] _).symm
      · rw [masterlistLoop, strsep_nul hmem h pre (by decide), List.splitOn_eq_singleton hmem]
        simp only [Option.bind_eq_bind, Option.bind_some, songLineAt_line h, masterlistLoop]
        exact congrArg some (List.append_nil _)

/-- **A string without an end is read beyond the memory.** -/
theorem masterlistLoop_endless (h : '\x00' ∉ text) (pre : List Char) (fuel : Nat) :
    masterlistLoop fuel (pre ++ text) (some pre.length) = none := by
  induction fuel generalizing text pre with
  | zero => rfl
  | succ fuel ih =>
      by_cases hmem : '\n' ∈ text
      · obtain ⟨line, text, rfl, hline⟩ := List.eq_append_cons_of_mem hmem
        have hnul : '\x00' ∉ line ∧ '\x00' ∉ text := by simpa using h
        rw [masterlistLoop_cons hline hnul.1, ih hnul.2, Option.map_none]
      · rw [masterlistLoop, strsep_end hmem h]
        rfl

/-! ## The lines of the file -/

/-- What is behind a terminator is the rest of its line, and other lines. -/
theorem splitOn_append_nul (text rest : List Char) (h : '\x00' ∉ text) :
    ∃ lines last rest' others, text.splitOn '\n' = lines ++ [last] ∧
      (text ++ '\x00' :: rest).splitOn '\n' = lines ++ (last ++ '\x00' :: rest') :: others ∧
      ∀ line ∈ lines ++ [last], '\x00' ∉ line := by
  induction text with
  | nil =>
      obtain ⟨rest', others, hrest⟩ := List.exists_cons_of_ne_nil (List.splitOn_ne_nil '\n' rest)
      refine ⟨[], [], rest', others, rfl, ?_, by simp⟩
      rw [List.nil_append, List.splitOn_cons_eq_if_modifyHead, hrest]
      rfl
  | cons c text ih =>
      obtain ⟨hc, htext⟩ : '\x00' ≠ c ∧ '\x00' ∉ text := by simpa using h
      obtain ⟨lines, last, rest', others, hlines, hothers, hnul⟩ := ih htext
      rw [List.cons_append, List.splitOn_cons_eq_if_modifyHead, List.splitOn_cons_eq_if_modifyHead,
        hlines, hothers]
      by_cases hnewline : (c == '\n') = true
      · rw [if_pos hnewline, if_pos hnewline]
        exact ⟨[] :: lines, last, rest', others, rfl, rfl, List.forall_mem_cons.mpr ⟨by simp, hnul⟩⟩
      · rw [if_neg hnewline, if_neg hnewline]
        cases lines with
        | nil =>
            refine ⟨[], c :: last, rest', others, rfl, rfl, ?_⟩
            simp_all
        | cons line lines =>
            refine ⟨(c :: line) :: lines, last, rest', others, rfl, rfl, ?_⟩
            simp_all

/-- The start of a line tells whether it has a song. -/
theorem isSongLine_append (h : isSongLine line = true) (rest : List Char) :
    isSongLine (line ++ rest) = true := by
  cases line with
  | nil => cases h
  | cons c line => exact h

/-- **The lines of the string are those of the file** exactly when nothing is left out from the first
terminator on. -/
theorem filter_append_nul_iff (text rest : List Char) (h : '\x00' ∉ text) :
    (text.splitOn '\n').filter isSongLine =
        ((text ++ '\x00' :: rest).splitOn '\n').filter isSongLine ↔
      ∀ line ∈ ((text ++ '\x00' :: rest).splitOn '\n').dropWhile ('\x00' ∉ ·),
        isSongLine line = false := by
  obtain ⟨lines, last, rest', others, hlines, hothers, hnul⟩ := splitOn_append_nul text rest h
  obtain ⟨hbefore, hlast⟩ := List.forall_mem_append.mp hnul
  have hdrop : (lines ++ (last ++ '\x00' :: rest') :: others).dropWhile ('\x00' ∉ ·) =
      (last ++ '\x00' :: rest') :: others := by
    rw [List.dropWhile_append_of_pos (by simpa using hbefore), List.dropWhile_cons_of_neg (by simp)]
  have hcut : isSongLine (last ++ '\x00' :: rest') = false → [last].filter isSongLine = [] := by
    intro hno
    rw [List.filter_eq_nil_iff]
    intro line hline hsong
    rw [List.mem_singleton.mp hline] at hsong
    exact Bool.false_ne_true (hno.symm.trans (isSongLine_append hsong _))
  rw [hlines, hothers, hdrop, List.filter_append, List.filter_append, List.append_cancel_left_eq]
  constructor
  · intro hfilter
    have hno : isSongLine (last ++ '\x00' :: rest') = false := by
      -- a line with a terminator in it is not the one that is cut there
      by_contra hsong
      have hmem : last ++ '\x00' :: rest' ∈ [last].filter isSongLine :=
        hfilter ▸ List.mem_filter.mpr ⟨List.mem_cons_self, Bool.not_eq_false _ ▸ hsong⟩
      have heq := List.mem_singleton.mp (List.mem_of_mem_filter hmem)
      exact hlast last List.mem_cons_self (heq ▸ by simp)
    rw [hcut hno] at hfilter
    intro line hline
    simpa using List.filter_eq_nil_iff.mp hfilter.symm line hline
  · intro hno
    rw [hcut (hno _ List.mem_cons_self), eq_comm, List.filter_eq_nil_iff]
    exact fun line hline => by simp [hno line hline]

/-! ## The whole file -/

/-- The loop stays inside of the mapping, ends, and passes on the lines of the file. -/
def ReadsLines (pageSize : Nat) (text : List Char) : Prop :=
  ∃ n, ∀ fuel, n ≤ fuel → masterlistLoop fuel (mapping pageSize text) (some 0) =
    some ((text.splitOn '\n').filter isSongLine)

variable {pageSize : Nat}

/-- The last page is full. -/
theorem mapping_full (h : pageSize ∣ text.length) : mapping pageSize text = text := by
  rw [mapping, Nat.mod_eq_zero_of_dvd h, Nat.sub_zero, Nat.mod_self, List.replicate_zero,
    List.append_nil]

theorem not_readsLines_full (h : pageSize ∣ text.length) (hnul : '\x00' ∉ text) :
    ¬ ReadsLines pageSize text := by
  rintro ⟨n, hn⟩
  have hnone := masterlistLoop_endless hnul [] n
  rw [List.nil_append] at hnone
  have hsome := hn n (Nat.le_refl n)
  rw [mapping_full h] at hsome
  cases hnone.symm.trans hsome

/-- The file is followed by zeros. -/
theorem mapping_padded (hpage : 0 < pageSize) (h : ¬ pageSize ∣ text.length) :
    ∃ rest, mapping pageSize text = text ++ '\x00' :: rest := by
  have hrest : 0 < text.length % pageSize := Nat.emod_pos_of_not_dvd h
  have hlt : text.length % pageSize < pageSize := Nat.mod_lt _ hpage
  obtain ⟨n, hn⟩ : ∃ n, (pageSize - text.length % pageSize) % pageSize = n + 1 := by
    refine ⟨pageSize - text.length % pageSize - 1, ?_⟩
    rw [Nat.mod_eq_of_lt (by omega)]
    omega
  exact ⟨List.replicate n '\x00', by rw [mapping, hn, List.replicate_succ]⟩

/-- What the loop makes of a mapping that has a terminator in it. -/
theorem readsLines_of_mapping {s rest : List Char} (h : '\x00' ∉ s)
    (hmapping : mapping pageSize text = s ++ '\x00' :: rest) :
    ReadsLines pageSize text ↔
      (s.splitOn '\n').filter isSongLine = (text.splitOn '\n').filter isSongLine := by
  have hloop : ∀ fuel, s.length < fuel → masterlistLoop fuel (mapping pageSize text) (some 0) =
      some ((s.splitOn '\n').filter isSongLine) := by
    intro fuel hfuel
    rw [hmapping]
    exact masterlistLoop_string h [] rest hfuel
  constructor
  · rintro ⟨n, hn⟩
    have hfuel : s.length < n + (s.length + 1) := by omega
    exact Option.some.inj ((hloop _ hfuel).symm.trans (hn _ (Nat.le_add_right _ _)))
  · intro heq
    exact ⟨s.length + 1, fun fuel hfuel => heq ▸ hloop fuel hfuel⟩

/-- **The master list is read as it is** exactly when its last page is not full, or it has a
terminator in it, and no song is named from the line of the first terminator on. -/
theorem readsLines_iff (hpage : 0 < pageSize) (text : List Char) :
    ReadsLines pageSize text ↔
      (¬ pageSize ∣ text.length ∨ '\x00' ∈ text) ∧
        ∀ line ∈ (text.splitOn '\n').dropWhile ('\x00' ∉ ·), isSongLine line = false := by
  by_cases hnul : '\x00' ∈ text
  · -- the first terminator is in the file
    obtain ⟨s, rest, rfl, hs⟩ := List.eq_append_cons_of_mem hnul
    have hmapping : ∃ rest', mapping pageSize (s ++ '\x00' :: rest) = s ++ '\x00' :: rest' :=
      ⟨_, List.append_assoc _ _ _⟩
    obtain ⟨rest', hmapping⟩ := hmapping
    rw [readsLines_of_mapping hs hmapping, filter_append_nul_iff s rest hs]
    exact ⟨fun hlines => ⟨.inr hnul, hlines⟩, fun h => h.2⟩
  · have hlines : ∀ line ∈ (text.splitOn '\n').dropWhile ('\x00' ∉ ·),
        isSongLine line = false := by
      obtain ⟨lines, last, -, -, hsplit, -, hlines⟩ := splitOn_append_nul text [] hnul
      have hnone : (text.splitOn '\n').dropWhile ('\x00' ∉ ·) = [] := by
        rw [hsplit, List.dropWhile_eq_nil_iff]
        simpa using hlines
      rw [hnone]
      exact fun line hline => absurd hline List.not_mem_nil
    by_cases hfull : pageSize ∣ text.length
    · -- there is none
      exact iff_of_false (not_readsLines_full hfull hnul) fun h => h.1.elim (absurd hfull) hnul
    · -- the first one is behind the file
      obtain ⟨rest, hmapping⟩ := mapping_padded hpage hfull
      rw [readsLines_of_mapping hnul hmapping]
      exact ⟨fun _ => ⟨.inl hfull, hlines⟩, fun _ => rfl⟩

/-- The lines are the ones that `loadMasterlist` takes, then. -/
theorem ReadsLines.loadMasterlist (h : ReadsLines pageSize text) (hne : text ≠ [])
    (dbPaths : BasenameType → List Char) (songs : List SongInfo) :
    ∃ n, ∀ fuel, n ≤ fuel →
      (masterlistLoop fuel (mapping pageSize text) (some 0)).map
          (fun lines => songs ++ lines.map (loadFile dbPaths)) =
        some (Squash.loadMasterlist dbPaths (some text) songs) := by
  obtain ⟨n, hn⟩ := h
  refine ⟨n, fun fuel hfuel => ?_⟩
  rw [hn fuel hfuel, Option.map_some]
  cases text with
  | nil => exact absurd rfl hne
  | cons c text => rfl

theorem readsLines_two : ReadsLines 4096 "# songs\n\na.mp3\nb/c.ogg\n".toList := by
  refine (readsLines_iff (by decide) _).mpr ⟨.inl ?_, ?_⟩
  · have hlength : "# songs\n\na.mp3\nb/c.ogg\n".toList.length = 23 := rfl
    rw [hlength]
    decide
  · decide

/-- A list that fills a page. -/
def fullPage : List Char := (List.replicate 512 "b/a.mp3\n".toList).flatten

theorem length_pages (n : Nat) (line : List Char) :
    (List.replicate n line).flatten.length = n * line.length := by
  rw [List.length_flatten, List.map_replicate, List.sum_replicate_nat]

/-- At the end of the page there is nothing to stop at. -/
theorem not_readsLines_fullPage :
    ¬ ∀ pageSize text, 0 < pageSize → text ≠ [] → ReadsLines pageSize text := by
  intro h
  have hline : "b/a.mp3\n".toList.length = 8 := rfl
  have hlength : fullPage.length = 4096 :=
    (length_pages 512 "b/a.mp3\n".toList).trans (congrArg (512 * ·) hline)
  have hnul : '\x00' ∉ fullPage := by
    intro hmem
    obtain ⟨line, hline, hc⟩ := List.mem_flatten.mp hmem
    rw [List.eq_of_mem_replicate hline] at hc
    exact absurd hc (by decide)
  have hne : fullPage ≠ [] := List.ne_nil_of_length_pos (by omega)
  exact not_readsLines_full ⟨1, hlength⟩ hnul (h 4096 fullPage (by decide) hne)

end Squash
