import Squash.Database.Meta
import Squash.Database.Song
import Squash.Global

/-!
# The whole of `song_info_t`

A song with all its fields, and with the counters as the 32 bit integers that they are. The other
modules look at the part of a song that they are about and take its counters as unbounded; the two
agree as long as no counter overflows (`setData_toInfo`).

What `save_stat_data` writes is read back by `set_stat_data` to the last bit, the smallest integer
included, and nothing but the counters is touched (`parseFile_saveStatData`).
-/

namespace Squash

/-- `stat_info_t`. -/
structure StatRecord where
  playCount : Int32
  skipCount : Int32
  repeatCounter : Int32
  manualRating : Int32
  changed : Bool
  deriving DecidableEq

/-- `song_info_t`. The tags and the type are `none` until they are loaded, where the source has
-1 for `meta_key_count` and `song_type`. -/
structure SongRecord where
  basename : BasenameType → List Char
  filename : List Char
  metaKeys : Option (List MetaKey)
  stat : StatRecord
  playLength : Int
  songType : Option SongType

/-- The counters without their bounds. -/
def StatRecord.toInfo (stat : StatRecord) : StatInfo where
  playCount := stat.playCount.toInt
  skipCount := stat.skipCount.toInt
  repeatCounter := stat.repeatCounter.toInt
  manualRating := stat.manualRating.toInt
  changed := stat.changed

def SongRecord.toInfo (song : SongRecord) : SongInfo := ⟨song.basename, song.filename, song.stat.toInfo⟩

/-- The entry that `_load_file` sets up. -/
def SongRecord.loadFile (dbPaths : BasenameType → List Char) (filename : List Char) : SongRecord where
  basename := dbPaths
  filename := filename
  metaKeys := none
  stat := ⟨0, 0, 0, -1, false⟩
  playLength := -1
  songType := none

/-- `strtol( s, NULL, 10 )` with a `long` of 64 bits. -/
def strtol (s : List Char) : Int :=
  let n := Decimal.parse s
  if n < -2 ^ 63 then -2 ^ 63 else if 2 ^ 63 ≤ n then 2 ^ 63 - 1 else n

/-- `atoi( s )`, which is `(int) strtol( s, NULL, 10 )`. -/
def atoi (s : List Char) : Int32 := Int32.ofInt (strtol s)

/-- What `set_stat_data` does to `song->stat`. -/
def StatRecord.setData (stat : StatRecord) (key : List Char) (intValue : Int32) : StatRecord :=
  if strncasecmp "play_count".toList key 11 then
    { stat with playCount := stat.playCount + intValue }
  else if strncasecmp "repeat_counter".toList key 15 then
    { stat with repeatCounter := intValue }
  else if strncasecmp "skip_count".toList key 11 then
    { stat with skipCount := stat.skipCount + intValue }
  else if strncasecmp "manual_rating".toList key 14 then
    if stat.manualRating = -1 then { stat with manualRating := intValue } else stat
  else stat

/-- `set_stat_data`. Without a value `atoi` follows a null pointer. -/
def SongRecord.setStatData (song : SongRecord) (call : AddData) : Option SongRecord :=
  call.value.map fun value => { song with stat := song.stat.setData call.key (atoi value) }

/-- `save_stat_data`: the song afterwards, and the text written. -/
def SongRecord.saveStatData (song : SongRecord) : SongRecord × List Char :=
  ({ song with stat := { song.stat with changed := false } }, statText song.stat.toInfo)

/-! ## The round trip -/

/-- **All integers of 32 bits come back.** -/
theorem atoi_print (n : Int32) : atoi (Decimal.print n.toInt) = n := by
  have hle := n.le_toInt
  have hlt := n.toInt_lt
  have hlong : strtol (Decimal.print n.toInt) = n.toInt := by
    rw [strtol, Decimal.parse_print, if_neg (by omega), if_neg (by omega)]
  rw [atoi, hlong, Int32.ofInt_toInt]

theorem setData_playCount (stat : StatRecord) (n : Int32) :
    stat.setData "play_count".toList n = { stat with playCount := stat.playCount + n } := rfl

theorem setData_skipCount (stat : StatRecord) (n : Int32) :
    stat.setData "skip_count".toList n = { stat with skipCount := stat.skipCount + n } := rfl

theorem setData_repeatCounter (stat : StatRecord) (n : Int32) :
    stat.setData "repeat_counter".toList n = { stat with repeatCounter := n } := rfl

theorem setData_manualRating (stat : StatRecord) (n : Int32) :
    stat.setData "manual_rating".toList n =
      if stat.manualRating = -1 then { stat with manualRating := n } else stat := rfl

/-- **The statistics are read back as they were written**, by a song that has none yet. -/
theorem parseFile_saveStatData (saved song : SongRecord) (changed : Bool) :
    parseFile (some saved.saveStatData.2) SongRecord.setStatData
        { song with stat := ⟨0, 0, 0, -1, changed⟩ } =
      some ({ song with stat := { saved.stat with changed } }, true) := by
  have hne : saved.saveStatData.2 ≠ [] := List.append_ne_nil_of_right_ne_nil _ (List.cons_ne_nil _ _)
  rw [parseFile_some hne]
  show Option.map _ ((parse _ (statText saved.stat.toInfo)).foldlM _ _) = _
  rw [parse_statText]
  obtain ⟨plays, skips, repeats, rating, dirty⟩ := saved.stat
  simp only [List.foldlM_cons, List.foldlM_nil, SongRecord.setStatData, Option.map_some,
    StatRecord.toInfo, atoi_print, Option.bind_eq_bind, Option.bind_some, Option.pure_def,
    setData_playCount, setData_skipCount, setData_repeatCounter, setData_manualRating, if_true,
    Int32.zero_add]

/-! ## Counters without bounds -/

/-- No counter leaves the 32 bits when this is added to it. -/
structure StatRecord.Fits (stat : StatRecord) (n : Int32) : Prop where
  play : -2 ^ 31 ≤ stat.playCount.toInt + n.toInt ∧ stat.playCount.toInt + n.toInt < 2 ^ 31
  skip : -2 ^ 31 ≤ stat.skipCount.toInt + n.toInt ∧ stat.skipCount.toInt + n.toInt < 2 ^ 31

theorem toInt_add {m n : Int32} (h : -2 ^ 31 ≤ m.toInt + n.toInt ∧ m.toInt + n.toInt < 2 ^ 31) :
    (m + n).toInt = m.toInt + n.toInt := by
  rw [Int32.toInt_add, Int.bmod_eq_of_le (by omega) (by omega)]

/-- **The two models agree** while nothing overflows. -/
theorem setData_toInfo {stat : StatRecord} {n : Int32} (h : stat.Fits n) (key : List Char) :
    (stat.setData key n).toInfo = stat.toInfo.setData key n.toInt := by
  have hrating : stat.manualRating = -1 ↔ stat.toInfo.manualRating = -1 :=
    Int32.toInt_inj.symm
  simp only [StatRecord.setData, StatInfo.setData]
  split
  · simp [StatRecord.toInfo, toInt_add h.play]
  split
  · rfl
  split
  · simp [StatRecord.toInfo, toInt_add h.skip]
  split
  · by_cases hnone : stat.manualRating = -1
    · rw [if_pos hnone, if_pos (hrating.mp hnone)]
      rfl
    · rw [if_neg hnone, if_neg fun h => hnone (hrating.mpr h)]
  · rfl

end Squash
