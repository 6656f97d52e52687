import Squash.Text.ParseFile

/-!
# Songs, their statistics, and the files these are kept in

Of `song_info_t` the model keeps what the statistics are about: the names the files are found by,
and `stat`. The tags, the type and the length of a song have no influence on them.

A `.stat` file is merged into a song, not assigned to it: `set_stat_data` adds the two counts,
overwrites the repeat counter and takes the rating only if there is none. `StatFile` says what a
file is worth for this purpose, and `loadMetaData_eq` that loading it is `StatInfo.merge`, whatever
the file holds. `readStat_statText` is the round trip of what `save_stat_data` writes.

The counters are unbounded integers here: an `int` would overflow after 2^31 plays of one song.
-/

namespace Squash

/-- `strncasecmp( s, t, n ) == 0`. -/
def strncasecmp : List Char → List Char → Nat → Bool
  | _, _, 0 => true
  | [], [], _ + 1 => true
  | c :: s, d :: t, n + 1 => c.toLower == d.toLower && strncasecmp s t n
  | _, _, _ + 1 => false

/-- The texts are compared up to their ends or up to `n` characters, whatever their case. -/
theorem strncasecmp_iff (s t : List Char) (n : Nat) :
    strncasecmp s t n = true ↔ (s.map Char.toLower).take n = (t.map Char.toLower).take n := by
  fun_induction strncasecmp s t n with
  | case1 => simp
  | case2 => simp
  | case3 c s d t n ih => simp [ih]
  | case4 s t n hnil hcons =>
      cases s with
      | nil =>
          cases t with
          | nil => exact absurd rfl (hnil rfl)
          | cons d t => simp
      | cons c s =>
          cases t with
          | nil => simp
          | cons d t => exact absurd rfl (hcons c s d t rfl)

/-- `stat_info_t`. -/
structure StatInfo where
  playCount : Int
  skipCount : Int
  repeatCounter : Int
  manualRating : Int
  changed : Bool
  deriving DecidableEq, Repr

/-- `enum basename_type_e`. -/
inductive BasenameType where
  | basenameSong | basenameMeta | basenameStat
  deriving DecidableEq, Repr

/-- `song_info_t`, without the tags. -/
structure SongInfo where
  basename : BasenameType → List Char
  filename : List Char
  stat : StatInfo

/-- The contents of the files that there are. -/
abbrev Files := List Char → Option (List Char)

/-- The `extension` that `db_extensions` holds for a directory. -/
def BasenameType.extension : BasenameType → List Char
  | .basenameSong => []
  | .basenameMeta => "info".toList
  | .basenameStat => "stat".toList

def buildFullfilename (song : SongInfo) (type : BasenameType) : List Char :=
  if type = .basenameSong then song.basename type ++ '/' :: song.filename
  else song.basename type ++ '/' :: song.filename ++ '.' :: type.extension

/-- The entry that `_load_file` sets up. -/
def loadFile (dbPaths : BasenameType → List Char) (filename : List Char) : SongInfo where
  basename := dbPaths
  filename := filename
  stat := ⟨0, 0, 0, -1, false⟩

/-! ## Reading and writing statistics -/

/-- What `set_stat_data` does to `song->stat`. -/
def StatInfo.setData (stat : StatInfo) (key : List Char) (intValue : Int) : StatInfo :=
  if strncasecmp "play_count".toList key 11 then
    { stat with playCount := stat.playCount + intValue }
  else if strncasecmp "repeat_counter".toList key 15 then
    { stat with repeatCounter := intValue }
  else if strncasecmp "skip_count".toList key 11 then
    { stat with skipCount := stat.skipCount + intValue }
  else if strncasecmp "manual_rating".toList key 14 then
    if stat.manualRating = -1 then { stat with manualRating := intValue } else stat
  else stat

/-- `set_stat_data`. Without a value `atoi` follows a null pointer. -/
def setStatData (song : SongInfo) (call : AddData) : Option SongInfo :=
  call.value.map fun value => { song with stat := song.stat.setData call.key (Decimal.parse value) }

/-- `load_meta_data( song, TYPE_STAT )`. -/
def loadMetaData (files : Files) (song : SongInfo) : Option SongInfo :=
  (parseFile (files (buildFullfilename song .basenameStat)) setStatData song).map Prod.fst

/-- `clear_song_meta`. -/
def clearSongMeta (song : SongInfo) : SongInfo :=
  { song with stat := { song.stat with changed := false } }

/-- What `save_stat_data` writes. -/
def statText (stat : StatInfo) : List Char :=
  keyLine "play_count".toList (Decimal.print stat.playCount) ++
    keyLine "skip_count".toList (Decimal.print stat.skipCount) ++
    keyLine "repeat_counter".toList (Decimal.print stat.repeatCounter) ++
    keyLine "manual_rating".toList (Decimal.print stat.manualRating) ++
    ['\n']

/-- `save_stat_data`: the song afterwards, and the text written. -/
def saveStatData (song : SongInfo) : SongInfo × List Char :=
  ({ song with stat := { song.stat with changed := false } }, statText song.stat)

/-! ## What a file is worth -/

/-- The sum of a file's counts, its last repeat counter and its first rating other than -1. -/
structure StatFile where
  plays : Int
  skips : Int
  repeatCounter : Option Int
  manualRating : Int
  deriving DecidableEq, Repr

def StatInfo.merge (stat : StatInfo) (f : StatFile) : StatInfo where
  playCount := stat.playCount + f.plays
  skipCount := stat.skipCount + f.skips
  repeatCounter := f.repeatCounter.getD stat.repeatCounter
  manualRating := if stat.manualRating = -1 then f.manualRating else stat.manualRating
  changed := stat.changed

def StatFile.empty : StatFile := ⟨0, 0, none, -1⟩

/-- A file that holds the four counters. -/
def StatInfo.toFile (stat : StatInfo) : StatFile :=
  ⟨stat.playCount, stat.skipCount, some stat.repeatCounter, stat.manualRating⟩

/-- One file after another. -/
def StatFile.append (f g : StatFile) : StatFile where
  plays := f.plays + g.plays
  skips := f.skips + g.skips
  repeatCounter := g.repeatCounter.or f.repeatCounter
  manualRating := if f.manualRating = -1 then g.manualRating else f.manualRating

/-- One line of a file. -/
def StatFile.entry (key : List Char) (intValue : Int) : StatFile :=
  if strncasecmp "play_count".toList key 11 then { StatFile.empty with plays := intValue }
  else if strncasecmp "repeat_counter".toList key 15 then
    { StatFile.empty with repeatCounter := some intValue }
  else if strncasecmp "skip_count".toList key 11 then { StatFile.empty with skips := intValue }
  else if strncasecmp "manual_rating".toList key 14 then
    { StatFile.empty with manualRating := intValue }
  else StatFile.empty

def StatFile.ofCalls : List AddData → Option StatFile
  | [] => some .empty
  | call :: calls => do
    let value ← call.value
    let rest ← StatFile.ofCalls calls
    pure ((StatFile.entry call.key (Decimal.parse value)).append rest)

/-- What the contents of a file are worth, unless reading them follows a null pointer. -/
def readStat : Option (List Char) → Option StatFile
  | none => some .empty
  | some text => StatFile.ofCalls (parse ⟨.beforeToken, none⟩ text)

@[simp] theorem merge_empty (stat : StatInfo) : stat.merge .empty = stat := by
  obtain ⟨plays, skips, repeats, rating, changed⟩ := stat
  simp only [StatInfo.merge, StatFile.empty, Int.add_zero, Option.getD_none, StatInfo.mk.injEq,
    and_true, true_and]
  split
  · next h => exact h.symm
  · rfl

theorem merge_append (stat : StatInfo) (f g : StatFile) :
    stat.merge (f.append g) = (stat.merge f).merge g := by
  simp only [StatInfo.merge, StatFile.append, StatInfo.mk.injEq, Int.add_assoc, and_true, true_and]
  constructor
  · cases g.repeatCounter <;> rfl
  · by_cases hstat : stat.manualRating = -1 <;> simp [hstat]

theorem setData_eq_merge (stat : StatInfo) (key : List Char) (intValue : Int) :
    stat.setData key intValue = stat.merge (.entry key intValue) := by
  obtain ⟨plays, skips, repeats, rating, changed⟩ := stat
  unfold StatInfo.setData StatFile.entry
  repeat' split
  all_goals simp_all [StatInfo.merge, StatFile.empty]

theorem foldlM_setStatData (song : SongInfo) (calls : List AddData) :
    calls.foldlM setStatData song =
      (StatFile.ofCalls calls).map fun f => { song with stat := song.stat.merge f } := by
  induction calls generalizing song with
  | nil => simp [StatFile.ofCalls]
  | cons call calls ih =>
      rw [List.foldlM_cons, setStatData, StatFile.ofCalls]
      cases call.value with
      | none => rfl
      | some value =>
          show List.foldlM setStatData _ calls = _
          rw [ih]
          cases StatFile.ofCalls calls with
          | none => rfl
          | some f =>
              simp [merge_append, setData_eq_merge]

/-- **Loading a file is merging what it is worth.** -/
theorem loadMetaData_eq (files : Files) (song : SongInfo) :
    loadMetaData files song =
      (readStat (files (buildFullfilename song .basenameStat))).map fun f =>
        { song with stat := song.stat.merge f } := by
  unfold loadMetaData
  cases files (buildFullfilename song .basenameStat) with
  | none => simp [parseFile, readStat]
  | some text =>
      cases text with
      | nil => simp [parseFile, readStat, parse, Parser.finish, StatFile.ofCalls]
      | cons c text =>
          simp only [parseFile, readStat, foldlM_setStatData, Option.map_map]
          rfl

theorem isKey_playCount : IsKey "play_count".toList := by decide

theorem isKey_skipCount : IsKey "skip_count".toList := by decide

theorem isKey_repeatCounter : IsKey "repeat_counter".toList := by decide

theorem isKey_manualRating : IsKey "manual_rating".toList := by decide

/-- The calls that read the counters again. -/
theorem parse_statText (stat : StatInfo) : parse ⟨.beforeToken, none⟩ (statText stat) =
    [⟨none, "play_count".toList, some (Decimal.print stat.playCount)⟩,
      ⟨none, "skip_count".toList, some (Decimal.print stat.skipCount)⟩,
      ⟨none, "repeat_counter".toList, some (Decimal.print stat.repeatCounter)⟩,
      ⟨none, "manual_rating".toList, some (Decimal.print stat.manualRating)⟩] := by
  rw [statText, List.append_assoc, List.append_assoc, List.append_assoc,
    parse_numberLine isKey_playCount, parse_numberLine isKey_skipCount,
    parse_numberLine isKey_repeatCounter, parse_numberLine isKey_manualRating]
  rfl

/-- What a file written by `save_stat_data` is worth. -/
theorem readStat_statText (stat : StatInfo) :
    readStat (some (statText stat)) = some stat.toFile := by
  rw [readStat, parse_statText]
  -- only a rating of -1 could come out differently, and it comes out as -1
  by_cases hrating : stat.manualRating = -1 <;>
    simp [StatFile.ofCalls, Decimal.parse_print, StatFile.entry, StatFile.append, StatFile.empty,
      StatInfo.toFile, strncasecmp, hrating]

end Squash
