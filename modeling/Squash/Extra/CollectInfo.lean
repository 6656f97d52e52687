import Squash.Database.SongType
import Squash.Foundations.Directory
import Squash.Foundations.Lines

/-!
# `collect_info.rb` and `uncollect_info.rb`

The first script puts the `.info` files of all music below a directory into one file, to be edited
there, under a header for each music file, and the names of these in another. The second one takes
them apart again. Blank lines are left out on the way, and each `.info` file gets one at its end.

A music file without an `.info` file has a header too, with nothing below it, and so it gets one that
is blank (`uncollectInfo_collectInfo_iff`). Squash then takes no tags from the music file.

`gets` and `each` cut a text into lines, which the model has without their line feeds; `puts` ends
each with one.
-/

namespace Squash

open Directory Lines

/-! ## Files -/

/-- `File.open( path, "w" )`, and what is written. -/
def writeFile (files : Files) (path text : List Char) : Files :=
  fun p => if p = path then some text else files p

/-- `puts` to a file that is open. -/
def putLine (files : Files) (path line : List Char) : Files :=
  writeFile files path ((files path).getD [] ++ (line ++ ['\n']))

/-- `\s` -/
def isSpace (c : Char) : Bool :=
  c = ' ' ∨ c = '\t' ∨ c = '\n' ∨ c = '\x0b' ∨ c = '\x0c' ∨ c = '\r'

/-- `line =~ /^\s*$/` -/
def isBlankLine (line : List Char) : Bool := line.all isSpace

/-- A directory, the prefix for the two files, and whether there is no index. -/
structure CollectConfig where
  dir : List Char
  name : List Char
  noindex : Bool

def CollectConfig.cinfoFilename (config : CollectConfig) : List Char :=
  config.dir ++ '/' :: (config.name ++ ".cinfo".toList)

def CollectConfig.cindexFilename (config : CollectConfig) : List Char :=
  config.dir ++ '/' :: (config.name ++ ".cindex".toList)

def infoFilename (filename : List Char) : List Char := filename ++ ".info".toList

/-- The files that `Find.find` comes to. -/
def CollectConfig.found (config : CollectConfig) (l : Listing Char) : List (List Char) :=
  (l.paths '/').map (config.dir ++ '/' :: ·)

/-! ## `collect_info.rb` -/

/-- What is done with one file. -/
def collectFile (config : CollectConfig) (files : Files) (filename : List Char) : Files :=
  if isMusic filename then
    let files := if config.noindex then files else putLine files config.cindexFilename filename
    let files := putLine files config.cinfoFilename ("=== ".toList ++ filename)
    match files (infoFilename filename) with
    | none => files
    | some info =>
      (lines '\n' info).foldl (fun files line =>
        if isBlankLine line then files else putLine files config.cinfoFilename line) files
  else files

def collectInfo (config : CollectConfig) (l : Listing Char) (files : Files) : Files :=
  let files := writeFile files config.cinfoFilename []
  let files := if config.noindex then files else writeFile files config.cindexFilename []
  let files := (config.found l).foldl (collectFile config) files
  putLine files config.cinfoFilename []

/-! ## `uncollect_info.rb` -/

/-- `line =~ /^=== (.*)/`, and what is behind it. -/
def sectionHeader (line : List Char) : Option (List Char) :=
  if "=== ".toList <+: line then some (line.drop 4) else none

/-- `chomp!` on a line, which takes a carriage return too. -/
def chomp (line : List Char) : List Char :=
  if line.getLast? = some '\r' then line.dropLast else line

/-- The state of the loop: the files, the lines of the index that were not read yet, and the name of
the open `.info` file. -/
structure Uncollect where
  files : Files
  cindex : List (List Char)
  info : Option (List Char)

/-- The files when the open one is closed, with a blank line at its end. -/
def Uncollect.close (s : Uncollect) : Files :=
  match s.info with
  | none => s.files
  | some path => putLine s.files path []

/-- What is done with one line of the collection. If the index is at its end, `nil` is chomped. -/
def uncollectLine (noindex : Bool) (s : Uncollect) (line : List Char) : Option Uncollect :=
  match sectionHeader line with
  | some cinfoFilename =>
    let start (filename : List Char) (cindex : List (List Char)) : Uncollect :=
      ⟨writeFile s.close (infoFilename filename) [], cindex, some (infoFilename filename)⟩
    if noindex then some (start cinfoFilename s.cindex)
    else
      match s.cindex with
      | [] => none
      | filename :: cindex => some (start (chomp filename) cindex)
  | none =>
    match s.info with
    | none => some s
    | some path =>
      some (if isBlankLine line then s else { s with files := putLine s.files path line })

/-- The index, if there is one. -/
def CollectConfig.readIndex (config : CollectConfig) (files : Files) : Option (List Char) :=
  if config.noindex then some [] else files config.cindexFilename

/-- The collection and the index have to be there. The loop at the end, which would take the rest of
the index, reads from the collection, and that is at its end. -/
def uncollectInfo (config : CollectConfig) (files : Files) : Option Files := do
  let cinfo ← files config.cinfoFilename
  let cindex ← config.readIndex files
  let s ← (lines '\n' cinfo).foldlM (uncollectLine config.noindex) ⟨files, lines '\n' cindex, none⟩
  return s.close

/-! ## What is written -/

/-- The lines that count. -/
def infoLines (text : List Char) : List (List Char) :=
  (lines '\n' text).filter (!isBlankLine ·)

/-- A path of an `.info` file. -/
def IsInfo (path : List Char) : Prop := ".info".toList <:+ path

/-- The `.info` files are the same, up to blank lines. -/
def SameInfo (files files' : Files) : Prop :=
  ∀ path, IsInfo path → (files' path).map infoLines = (files path).map infoLines

section Writing

variable {files : Files} {path p text : List Char}

@[simp] theorem writeFile_self : writeFile files path text path = some text := if_pos rfl

theorem writeFile_of_ne (h : p ≠ path) : writeFile files path text p = files p := if_neg h

theorem writeFile_writeFile (text' : List Char) :
    writeFile (writeFile files path text) path text' = writeFile files path text' := by
  funext p
  unfold writeFile
  split <;> rfl

theorem putLine_writeFile (line : List Char) :
    putLine (writeFile files path text) path line =
      writeFile files path (text ++ unlines '\n' [line]) := by
  rw [putLine, writeFile_self, writeFile_writeFile]
  simp [unlines]

theorem putLine_of_ne (h : p ≠ path) (line : List Char) : putLine files path line p = files p :=
  writeFile_of_ne h

theorem putLine_self {ls : List (List Char)} (h : files path = some (unlines '\n' ls))
    (line : List Char) :
    putLine files path line path = some (unlines '\n' (ls ++ [line])) := by
  rw [putLine, writeFile_self, h, unlines_append]
  simp [unlines]

end Writing

/-! ## Collecting -/

variable {config : CollectConfig} {files : Files}

/-- A music file in the collection: its header, and the lines of its `.info` file. -/
def sectionLines (files : Files) (filename : List Char) : List (List Char) :=
  ("=== ".toList ++ filename) :: (files (infoFilename filename)).elim [] infoLines

/-- What was written about these music files. -/
structure CollectedFiles (config : CollectConfig) (files : Files) (music : List (List Char))
    (s : Files) : Prop where
  cinfo : s config.cinfoFilename = some (unlines '\n' (music.flatMap (sectionLines files)))
  cindex : config.noindex = false → s config.cindexFilename = some (unlines '\n' music)
  rest : ∀ path, IsInfo path → s path = files path

theorem suffix_cinfoFilename (config : CollectConfig) :
    ".cinfo".toList <:+ config.cinfoFilename :=
  ((List.suffix_append _ _).trans (List.suffix_cons _ _)).trans (List.suffix_append _ _)

theorem suffix_cindexFilename (config : CollectConfig) :
    ".cindex".toList <:+ config.cindexFilename :=
  ((List.suffix_append _ _).trans (List.suffix_cons _ _)).trans (List.suffix_append _ _)

theorem cinfoFilename_ne : config.cinfoFilename ≠ config.cindexFilename := by
  intro h
  have hcinfo := h ▸ suffix_cinfoFilename config
  exact (List.suffix_or_suffix_of_suffix hcinfo (suffix_cindexFilename config)).elim
    (by decide) (by decide)

/-- The collection is not an `.info` file. -/
theorem IsInfo.ne_cinfo {path : List Char} (h : IsInfo path) : path ≠ config.cinfoFilename := by
  rintro rfl
  exact (List.suffix_or_suffix_of_suffix h (suffix_cinfoFilename config)).elim
    (by decide) (by decide)

theorem IsInfo.ne_cindex {path : List Char} (h : IsInfo path) : path ≠ config.cindexFilename := by
  rintro rfl
  exact (List.suffix_or_suffix_of_suffix h (suffix_cindexFilename config)).elim
    (by decide) (by decide)

theorem isInfo_infoFilename (filename : List Char) : IsInfo (infoFilename filename) :=
  List.suffix_append _ _

/-- The lines of one `.info` file. -/
theorem foldl_putLine {path : List Char} (ls : List (List Char)) {written : List (List Char)}
    {s : Files} (h : s path = some (unlines '\n' written)) :
    let s' := ls.foldl (fun files line => if isBlankLine line then files
      else putLine files path line) s
    s' path = some (unlines '\n' (written ++ ls.filter (!isBlankLine ·))) ∧
      ∀ p, p ≠ path → s' p = s p := by
  induction ls generalizing written s with
  | nil => simpa using h
  | cons line ls ih =>
      cases hblank : isBlankLine line with
      | true => simpa [hblank] using ih h
      | false =>
          obtain ⟨hpath, hrest⟩ := ih (putLine_self h line)
          simp only [List.foldl_cons, hblank, Bool.false_eq_true, if_false]
          refine ⟨?_, fun p hp => (hrest p hp).trans (putLine_of_ne hp line)⟩
          rw [hpath, List.filter_cons_of_pos (by simp [hblank]), List.append_assoc]
          rfl

/-- The name and the header of a music file. -/
theorem CollectedFiles.header {music : List (List Char)} {s : Files}
    (h : CollectedFiles config files music s) (filename : List Char) {s' : Files}
    (hs' : s' = putLine (if config.noindex then s else putLine s config.cindexFilename filename)
      config.cinfoFilename ("=== ".toList ++ filename)) :
    s' config.cinfoFilename = some (unlines '\n'
        (music.flatMap (sectionLines files) ++ ["=== ".toList ++ filename])) ∧
      (config.noindex = false → s' config.cindexFilename = some (unlines '\n' (music ++ [filename]))) ∧
      ∀ path, IsInfo path → s' path = files path := by
  subst hs'
  cases hnoindex : config.noindex with
  | true =>
      simp only [if_true]
      refine ⟨putLine_self h.cinfo _, nofun, fun path hpath => ?_⟩
      rw [putLine_of_ne hpath.ne_cinfo, h.rest path hpath]
  | false =>
      simp only [Bool.false_eq_true, if_false]
      refine ⟨putLine_self ?_ _, fun _ => ?_, fun path hpath => ?_⟩
      · rw [putLine_of_ne cinfoFilename_ne, h.cinfo]
      · rw [putLine_of_ne cinfoFilename_ne.symm]
        exact putLine_self (h.cindex hnoindex) _
      · rw [putLine_of_ne hpath.ne_cinfo, putLine_of_ne hpath.ne_cindex, h.rest path hpath]

/-- **One file** adds its section and its name. -/
theorem CollectedFiles.step {music : List (List Char)} {s : Files}
    (h : CollectedFiles config files music s) (filename : List Char) :
    CollectedFiles config files (music ++ [filename].filter isMusic)
      (collectFile config s filename) := by
  unfold collectFile
  by_cases hmusic : isMusic filename = true
  · obtain ⟨s', hs'⟩ : ∃ s', s' = putLine
        (if config.noindex then s else putLine s config.cindexFilename filename)
        config.cinfoFilename ("=== ".toList ++ filename) := ⟨_, rfl⟩
    obtain ⟨hcinfo, hcindex, hrest⟩ := h.header filename hs'
    rw [if_pos hmusic, List.filter_cons_of_pos hmusic, List.filter_nil]
    simp only [← hs', hrest _ (isInfo_infoFilename filename)]
    cases hinfo : files (infoFilename filename) with
    | none =>
        refine ⟨?_, hcindex, hrest⟩
        dsimp only
        rw [hcinfo, List.flatMap_append, List.flatMap_singleton, sectionLines, hinfo]
        rfl
    | some info =>
        obtain ⟨hlines, hothers⟩ := foldl_putLine (lines '\n' info) hcinfo
        dsimp only
        refine ⟨?_, fun hnoindex => ?_, fun path hpath => ?_⟩
        · rw [hlines, List.flatMap_append, List.flatMap_singleton, sectionLines, hinfo,
            List.append_assoc]
          rfl
        · rw [hothers _ cinfoFilename_ne.symm, hcindex hnoindex]
        · rw [hothers _ hpath.ne_cinfo, hrest path hpath]
  · rw [if_neg hmusic, List.filter_cons_of_neg hmusic, List.filter_nil, List.append_nil]
    exact h

theorem CollectedFiles.run {music : List (List Char)} {s : Files}
    (h : CollectedFiles config files music s) (found : List (List Char)) :
    CollectedFiles config files (music ++ found.filter isMusic)
      (found.foldl (collectFile config) s) := by
  induction found generalizing music s with
  | nil => simpa using h
  | cons filename found ih =>
      have hfilter : (filename :: found).filter isMusic =
          [filename].filter isMusic ++ found.filter isMusic := List.filter_append [filename] found
      rw [hfilter, ← List.append_assoc]
      exact ih (h.step filename)

/-- The music files that `Find.find` comes to. -/
def CollectConfig.music (config : CollectConfig) (l : Listing Char) : List (List Char) :=
  (config.found l).filter isMusic

/-- **The collection** has a section for each music file, and a blank line at its end. -/
theorem collectInfo_eq (config : CollectConfig) (l : Listing Char) (files : Files) :
    let s := collectInfo config l files
    s config.cinfoFilename = some (unlines '\n'
        ((config.music l).flatMap (sectionLines files) ++ [[]])) ∧
      (config.noindex = false → s config.cindexFilename = some (unlines '\n' (config.music l))) ∧
      ∀ path, IsInfo path → s path = files path := by
  have hstart : CollectedFiles config files [] (if config.noindex then
        writeFile files config.cinfoFilename []
      else writeFile (writeFile files config.cinfoFilename []) config.cindexFilename []) := by
    cases hnoindex : config.noindex with
    | true =>
        refine ⟨writeFile_self, fun hindex => ?_, fun path hpath => writeFile_of_ne hpath.ne_cinfo⟩
        cases hnoindex.symm.trans hindex
    | false =>
        refine ⟨?_, fun _ => writeFile_self, fun path hpath => ?_⟩
        · exact (writeFile_of_ne cinfoFilename_ne).trans writeFile_self
        · exact (writeFile_of_ne hpath.ne_cindex).trans (writeFile_of_ne hpath.ne_cinfo)
  have h := hstart.run (config.found l)
  refine ⟨putLine_self h.cinfo [], fun hnoindex => ?_, fun path hpath => ?_⟩
  · exact (putLine_of_ne cinfoFilename_ne.symm _).trans (h.cindex hnoindex)
  · exact (putLine_of_ne hpath.ne_cinfo _).trans (h.rest path hpath)

/-! ## Taking it apart -/

/-- A line of an `.info` file that can stand in the collection. -/
def Plain (line : List Char) : Prop := ¬ "=== ".toList <+: line

theorem sectionHeader_plain {line : List Char} (h : Plain line) : sectionHeader line = none :=
  if_neg h

theorem sectionHeader_append (filename : List Char) :
    sectionHeader ("=== ".toList ++ filename) = some filename := by
  rw [sectionHeader, if_pos (List.prefix_append _ _)]
  rfl

variable {noindex : Bool}

/-- The lines below a header go to the open file. -/
theorem uncollect_lines {ls : List (List Char)} (h : ∀ line ∈ ls, Plain line) {base : Files}
    {path text : List Char} (cindex : List (List Char)) :
    ls.foldlM (uncollectLine noindex) ⟨writeFile base path text, cindex, some path⟩ =
      some ⟨writeFile base path (text ++ unlines '\n' (ls.filter (!isBlankLine ·))), cindex,
        some path⟩ := by
  induction ls generalizing text with
  | nil => simp [unlines]
  | cons line ls ih =>
      obtain ⟨hline, hls⟩ := List.forall_mem_cons.mp h
      rw [List.foldlM_cons, uncollectLine, sectionHeader_plain hline]
      cases hblank : isBlankLine line with
      | true =>
          rw [List.filter_cons_of_neg (by simp [hblank])]
          exact ih hls
      | false =>
          rw [List.filter_cons_of_pos (by simp [hblank])]
          simp only [Bool.false_eq_true, if_false, Option.bind_eq_bind, Option.bind_some,
            putLine_writeFile]
          rw [ih hls, List.append_assoc, ← unlines_append]
          rfl

/-- The lines of a section are those that it was made of. -/
theorem filter_infoLines (files : Files) (path : List Char) :
    ((files path).elim [] infoLines).filter (!isBlankLine ·) = (files path).elim [] infoLines := by
  cases files path with
  | none => rfl
  | some text => exact List.filter_filter.trans (by simp [infoLines])

theorem infoLines_noLineFeed (files : Files) (path : List Char) :
    ∀ line ∈ (files path).elim [] infoLines, '\n' ∉ line := by
  intro line hline
  cases htext : files path with
  | none => simp [htext] at hline
  | some text =>
      rw [htext] at hline
      exact not_mem_of_mem_lines (List.mem_of_mem_filter hline)

/-- What an `.info` file becomes. -/
def recreated (files : Files) (path : List Char) : List Char :=
  unlines '\n' ((files path).elim [] infoLines ++ [[]])

/-- **One section** is one file, whose name comes from the header or the index. -/
theorem uncollect_section {filename : List Char} (hchomp : chomp filename = filename)
    (hplain : ∀ line ∈ (files (infoFilename filename)).elim [] infoLines, Plain line)
    {s : Uncollect} {names : List (List Char)}
    (hnames : noindex = false → s.cindex = filename :: names) :
    ∃ s', (sectionLines files filename).foldlM (uncollectLine noindex) s = some s' ∧
      (noindex = false → s'.cindex = names) ∧
      s'.close = writeFile s.close (infoFilename filename)
        (recreated files (infoFilename filename)) := by
  have hopen : ∃ cindex, (noindex = false → cindex = names) ∧
      uncollectLine noindex s ("=== ".toList ++ filename) =
        some ⟨writeFile s.close (infoFilename filename) [], cindex,
          some (infoFilename filename)⟩ := by
    rw [uncollectLine, sectionHeader_append]
    cases noindex with
    | true => exact ⟨s.cindex, nofun, rfl⟩
    | false =>
        refine ⟨names, fun _ => rfl, ?_⟩
        simp only [Bool.false_eq_true, if_false, hnames rfl, hchomp]
  obtain ⟨cindex, hcindex, hopen⟩ := hopen
  refine ⟨⟨writeFile s.close (infoFilename filename)
    (unlines '\n' ((files (infoFilename filename)).elim [] infoLines)), cindex,
    some (infoFilename filename)⟩, ?_, hcindex, ?_⟩
  · rw [sectionLines, List.foldlM_cons, hopen, Option.bind_eq_bind, Option.bind_some,
      uncollect_lines hplain cindex, filter_infoLines, List.nil_append]
  · exact (putLine_writeFile []).trans (by rw [recreated, unlines_append])

/-- **All sections**, one after the other. -/
theorem uncollect_sections {music : List (List Char)}
    (hchomp : ∀ filename ∈ music, chomp filename = filename)
    (hplain : ∀ filename ∈ music,
      ∀ line ∈ (files (infoFilename filename)).elim [] infoLines, Plain line)
    {s : Uncollect} (hnames : noindex = false → s.cindex = music) :
    ∃ s', (music.flatMap (sectionLines files)).foldlM (uncollectLine noindex) s = some s' ∧
      s'.close = (music.map infoFilename).foldl
        (fun all path => writeFile all path (recreated files path)) s.close := by
  induction music generalizing s with
  | nil => exact ⟨s, rfl, rfl⟩
  | cons filename music ih =>
      obtain ⟨hhead, htail⟩ := List.forall_mem_cons.mp hchomp
      obtain ⟨hlines, hrest⟩ := List.forall_mem_cons.mp hplain
      obtain ⟨mid, hmid, hcindex, hclose⟩ := uncollect_section hhead hlines hnames
      obtain ⟨s', hs', hfinal⟩ := ih htail hrest hcindex
      refine ⟨s', ?_, ?_⟩
      · rw [List.flatMap_cons, List.foldlM_append, hmid, Option.bind_eq_bind, Option.bind_some, hs']
      · rw [hfinal, hclose]
        rfl

/-- Writing files one after the other. -/
theorem foldl_writeFile (text : List Char → List Char) (paths : List (List Char)) (all : Files)
    (p : List Char) :
    paths.foldl (fun all path => writeFile all path (text path)) all p =
      if p ∈ paths then some (text p) else all p := by
  induction paths generalizing all with
  | nil => rfl
  | cons path paths ih =>
      rw [List.foldl_cons, ih]
      by_cases hmem : p ∈ paths
      · simp [hmem]
      · by_cases hp : p = path
        · subst hp
          simp [hmem]
        · simp [hmem, hp, writeFile_of_ne hp]

theorem uncollectLine_blank (s : Uncollect) : uncollectLine noindex s [] = some s := by
  rcases s with ⟨all, cindex, _ | path⟩ <;> rfl

/-! ## There and back -/

/-- The names have no line feeds, and no line of an `.info` file looks like a header. -/
structure Collectable (config : CollectConfig) (l : Listing Char) (files : Files) : Prop where
  dir : '\n' ∉ config.dir
  names : ∀ name ∈ l.allNames, '\n' ∉ name
  lines : ∀ filename ∈ config.music l, ∀ text, files (infoFilename filename) = some text →
    ∀ line ∈ lines '\n' text, Plain line

variable {l : Listing Char}

theorem Collectable.music (h : Collectable config l files) :
    ∀ filename ∈ config.music l, '\n' ∉ filename := by
  intro filename hfilename
  obtain ⟨path, hpath, rfl⟩ := List.mem_map.mp (List.mem_of_mem_filter hfilename)
  have hbelow := Listing.not_mem_select (by decide : '\n' ≠ '/') h.names path hpath
  simp [h.dir, hbelow]

/-- The last character of a suffix, in lower case, is that of the name. -/
theorem getLast?_of_endsWith {name suffix : List Char} {c : Char} (h : EndsWith name suffix)
    (hc : suffix.getLast? = some c) : (name.map Char.toLower).getLast? = some c := by
  obtain ⟨pre, hpre⟩ := h
  rw [← hpre, List.getLast?_append, hc]
  rfl

/-- Music does not end in a carriage return. -/
theorem chomp_music {filename : List Char} (h : isMusic filename = true) :
    chomp filename = filename := by
  apply if_neg
  intro hreturn
  have hlower : (filename.map Char.toLower).getLast? = some '\r' := by
    rw [List.getLast?_map, hreturn]
    rfl
  simp only [isMusic, decide_eq_true_eq] at h
  rcases h with h | h | h
  · cases (getLast?_of_endsWith h rfl).symm.trans hlower
  · cases (getLast?_of_endsWith h rfl).symm.trans hlower
  · cases (getLast?_of_endsWith h rfl).symm.trans hlower

theorem Collectable.noLineFeed (h : Collectable config l files) :
    ∀ line ∈ (config.music l).flatMap (sectionLines files) ++ [[]], '\n' ∉ line := by
  refine List.forall_mem_append.mpr ⟨?_, by simp⟩
  intro line hline
  obtain ⟨filename, hfilename, hsection⟩ := List.mem_flatMap.mp hline
  rcases List.mem_cons.mp hsection with rfl | hbelow
  · rw [List.mem_append]
    exact fun hmem => hmem.elim (by decide) (h.music filename hfilename)
  · exact infoLines_noLineFeed files _ line hbelow

/-- **What the two scripts do together**: each music file has an `.info` file afterwards. -/
theorem uncollectInfo_collectInfo (h : Collectable config l files) :
    ∃ files', uncollectInfo config (collectInfo config l files) = some files' ∧
      ∀ path, IsInfo path → files' path =
        if path ∈ (config.music l).map infoFilename then some (recreated files path)
        else files path := by
  obtain ⟨hcinfo, hcindex, hrest⟩ := collectInfo_eq config l files
  have hchomp : ∀ filename ∈ config.music l, chomp filename = filename :=
    fun filename hfilename => chomp_music (List.of_mem_filter hfilename)
  have hplain : ∀ filename ∈ config.music l,
      ∀ line ∈ (files (infoFilename filename)).elim [] infoLines, Plain line := by
    intro filename hfilename line hline
    cases htext : files (infoFilename filename) with
    | none => simp [htext] at hline
    | some text =>
        rw [htext] at hline
        exact h.lines filename hfilename text htext line (List.mem_of_mem_filter hline)
  -- the index has the names, if it is there
  obtain ⟨cindex, hindex, hnames⟩ : ∃ cindex,
      config.readIndex (collectInfo config l files) = some cindex ∧
      (config.noindex = false → lines '\n' cindex = config.music l) := by
    unfold CollectConfig.readIndex
    cases hnoindex : config.noindex with
    | true => exact ⟨[], rfl, nofun⟩
    | false => exact ⟨_, hcindex hnoindex, fun _ => lines_unlines h.music⟩
  obtain ⟨s, hs, hclose⟩ := uncollect_sections hchomp hplain
    (s := ⟨collectInfo config l files, lines '\n' cindex, none⟩) hnames
  refine ⟨s.close, ?_, fun path hpath => ?_⟩
  · have hrun : ((config.music l).flatMap (sectionLines files) ++ [[]]).foldlM
        (uncollectLine config.noindex) ⟨collectInfo config l files, lines '\n' cindex, none⟩ =
          some s := by
      rw [List.foldlM_append, hs, Option.bind_eq_bind, Option.bind_some, List.foldlM_cons,
        uncollectLine_blank]
      rfl
    simp only [uncollectInfo, hcinfo, hindex, lines_unlines h.noLineFeed, hrun, Option.bind_eq_bind,
      Option.bind_some]
    rfl
  · rw [hclose, foldl_writeFile]
    split
    · rfl
    · exact hrest path hpath

theorem infoLines_recreated (files : Files) (path : List Char) :
    infoLines (recreated files path) = (files path).elim [] infoLines := by
  have hlines : ∀ line ∈ (files path).elim [] infoLines ++ [[]], '\n' ∉ line :=
    List.forall_mem_append.mpr ⟨infoLines_noLineFeed files path, by simp⟩
  rw [infoLines, recreated, lines_unlines hlines, List.filter_append, filter_infoLines]
  exact List.append_nil _

/-- **Collecting loses nothing** exactly when all music has `.info` files: there are the same ones
afterwards, with the same lines but for blank ones. -/
theorem uncollectInfo_collectInfo_iff (h : Collectable config l files) :
    (∃ files', uncollectInfo config (collectInfo config l files) = some files' ∧
        SameInfo files files') ↔
      ∀ filename ∈ config.music l, files (infoFilename filename) ≠ none := by
  obtain ⟨files', hfiles', heq⟩ := uncollectInfo_collectInfo h
  constructor
  · rintro ⟨files'', hfiles'', hsame⟩ filename hfilename hnone
    cases hfiles'.symm.trans hfiles''
    have hinfo := isInfo_infoFilename filename
    have hmap := hsame _ hinfo
    rw [heq _ hinfo, if_pos (List.mem_map_of_mem hfilename), hnone] at hmap
    cases hmap
  · intro hall
    refine ⟨files', hfiles', fun path hpath => ?_⟩
    rw [heq path hpath]
    split
    · next hmem =>
        obtain ⟨filename, hfilename, rfl⟩ := List.mem_map.mp hmem
        obtain ⟨text, htext⟩ := Option.ne_none_iff_exists'.mp (hall filename hfilename)
        rw [Option.map_some, infoLines_recreated, htext]
        rfl
    · rfl

def singleSong : Listing Char := .file "a.mp3".toList .nil

def singleSongConfig : CollectConfig := ⟨"/music".toList, "default".toList, false⟩

theorem music_singleSong : singleSongConfig.music singleSong = ["/music/a.mp3".toList] := by decide

/-- A song with a blank line in its `.info` file. -/
def singleSongFiles : Files := fun path =>
  if path = "/music/a.mp3.info".toList then some "title=A\n\nyear=1999".toList else none

theorem uncollectInfo_collectInfo_one :
    ∃ files', uncollectInfo singleSongConfig (collectInfo singleSongConfig singleSong singleSongFiles) =
        some files' ∧
      SameInfo singleSongFiles files' := by
  refine (uncollectInfo_collectInfo_iff ⟨by decide, by decide, ?_⟩).mpr (by decide)
  intro filename hfilename text htext
  rw [music_singleSong] at hfilename
  obtain rfl := List.mem_singleton.mp hfilename
  obtain rfl : "title=A\n\nyear=1999".toList = text := Option.some.inj htext
  show ∀ line ∈ lines '\n' "title=A\n\nyear=1999".toList, ¬ "=== ".toList <+: line
  decide

/-- A song without an `.info` file gets a blank one. -/
theorem not_uncollectInfo_collectInfo :
    ¬ ∀ config l files, Collectable config l files →
      ∃ files', uncollectInfo config (collectInfo config l files) = some files' ∧
        SameInfo files files' := by
  intro h
  obtain ⟨files', hfiles', hsame⟩ := h singleSongConfig singleSong (fun _ => none)
    ⟨by decide, by decide, nofun⟩
  have hblank : (uncollectInfo singleSongConfig (collectInfo singleSongConfig singleSong fun _ => none)).bind
      (· "/music/a.mp3.info".toList) = some ['\n'] := by decide
  rw [hfiles'] at hblank
  have hblank : files' "/music/a.mp3.info".toList = some ['\n'] := hblank
  have hmap := hsame "/music/a.mp3.info".toList (isInfo_infoFilename "/music/a.mp3".toList)
  rw [hblank] at hmap
  cases hmap

end Squash
