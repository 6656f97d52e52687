import Mathlib.Algebra.BigOperators.Group.List.Basic
import Mathlib.Data.Rat.Defs
import Mathlib.Tactic.Ring
import Squash.Database.Song

/-!
# Ratings and the operations on statistics

`database_info` with its running sums, and the functions of `stat.c`, `database.c` and `input.c`
that change the statistics of a song. A `song_info_t *` is an index into `database_info.songs`; a
`double` is a rational number.

`save_song` goes over `db_extensions`; the row for the tags has no `is_changed` and is passed over.
A file that cannot be opened for writing ends the program and is left out.
-/

namespace Squash

/-- The part of `config` that the statistics depend on. -/
structure Config where
  dbReadonly : Bool
  dbManualRatingBias : ℚ

/-- `database_info_t`. -/
structure DatabaseInfo where
  songs : List SongInfo
  statsLoaded : Bool
  sum : ℚ
  sqrSum : ℚ
  playSum : Int
  playSqrSum : Int
  skipSum : Int
  skipSqrSum : Int

/-- The database and the files on disk, with the names of those written so far. -/
structure Store where
  databaseInfo : DatabaseInfo
  files : Files
  written : List (List Char)

variable (config : Config)

def getRating (stat : StatInfo) : ℚ :=
  let autoRating : ℚ := (stat.playCount - stat.skipCount : Int) /
    (stat.playCount + stat.skipCount + 1 : Int)
  if stat.manualRating = -1 then autoRating
  else autoRating * (1 - config.dbManualRatingBias) +
    ((stat.manualRating : ℚ) - 5) / 5 * config.dbManualRatingBias

/-! ## The running sums -/

/-- The first lines of `start_song_picker`. -/
def DatabaseInfo.clearSums (db : DatabaseInfo) : DatabaseInfo :=
  { db with sum := 0, sqrSum := 0, playSum := 0, playSqrSum := 0, skipSum := 0, skipSqrSum := 0 }

/-- One turn of the loop in `start_song_picker`. -/
def DatabaseInfo.addSong (db : DatabaseInfo) (stat : StatInfo) : DatabaseInfo :=
  let rating := getRating config stat
  { db with
    sum := db.sum + rating
    sqrSum := db.sqrSum + rating * rating
    playSum := db.playSum + stat.playCount
    playSqrSum := db.playSqrSum + stat.playCount * stat.playCount
    skipSum := db.skipSum + stat.skipCount
    skipSqrSum := db.skipSqrSum + stat.skipCount * stat.skipCount }

/-- `start_song_picker`, run without interruption. -/
def DatabaseInfo.startSongPicker (db : DatabaseInfo) : DatabaseInfo :=
  let db := db.songs.foldl (fun db song => db.addSong config song.stat) db.clearSums
  { db with statsLoaded := true }

/-- `database_info.sum -= rating; database_info.sqr_sum -= rating * rating`. -/
def DatabaseInfo.subtractRating (db : DatabaseInfo) (rating : ℚ) : DatabaseInfo :=
  { db with sum := db.sum - rating, sqrSum := db.sqrSum - rating * rating }

/-- `database_info.sum += rating; database_info.sqr_sum += rating * rating`. -/
def DatabaseInfo.addRating (db : DatabaseInfo) (rating : ℚ) : DatabaseInfo :=
  { db with sum := db.sum + rating, sqrSum := db.sqrSum + rating * rating }

/-! ## Saving -/

/-- Put a song back where it came from. -/
def Store.setSong (s : Store) (i : Nat) (song : SongInfo) : Store :=
  { s with databaseInfo := { s.databaseInfo with songs := s.databaseInfo.songs.set i song } }

/-- `fopen( filename, "w" )` and the text written. -/
def Store.write (s : Store) (path text : List Char) : Store :=
  { s with
    files := fun p => if p = path then some text else s.files p
    written := s.written ++ [path] }

/-- `save_song` writes the song's `.stat` file, or does nothing. -/
def saves (s : Store) (song : SongInfo) : Bool :=
  !config.dbReadonly && song.stat.changed && s.databaseInfo.statsLoaded

/-- `save_song`. -/
def saveSong (s : Store) (i : Nat) : Store :=
  match s.databaseInfo.songs[i]? with
  | none => s
  | some song =>
    if saves config s song then
      (s.setSong i (saveStatData song).1).write (buildFullfilename song .basenameStat)
        (saveStatData song).2
    else s

/-! ## What changes the statistics -/

/-- What `feedback` does to `song->stat`. -/
def StatInfo.feedback (stat : StatInfo) (direction : Int) : StatInfo :=
  if direction < 0 then { stat with skipCount := stat.skipCount + 1, changed := true }
  else { stat with playCount := stat.playCount + 1, changed := true }

/-- What `feedback` does to the sums of the counts. -/
def DatabaseInfo.feedback (db : DatabaseInfo) (stat : StatInfo) (direction : Int) : DatabaseInfo :=
  if direction < 0 then
    { db with
      skipSqrSum := db.skipSqrSum - stat.skipCount * stat.skipCount
        + (stat.skipCount + 1) * (stat.skipCount + 1)
      skipSum := db.skipSum + 1 }
  else
    { db with
      playSqrSum := db.playSqrSum - stat.playCount * stat.playCount
        + (stat.playCount + 1) * (stat.playCount + 1)
      playSum := db.playSum + 1 }

/-- `feedback`. -/
def feedback (s : Store) (i : Nat) (direction : Int) : Option Store := do
  let song ← s.databaseInfo.songs[i]?
  let stat := song.stat.feedback direction
  let db := s.databaseInfo.subtractRating (getRating config song.stat)
  let db := db.feedback song.stat direction
  let db := db.addRating (getRating config stat)
  return saveSong config (({ s with databaseInfo := db }).setSong i { song with stat }) i

/-- The rating that `do_song_rating_adjust` sets. -/
def adjustedRating (manualRating : Int) (relative : Bool) (amount : Int) : Int :=
  let rating := if relative then manualRating + amount else amount
  let rating := if rating < -1 then -1 else rating
  if rating > 10 then 10 else rating

/-- What `do_song_rating_adjust` does to `song->stat`. -/
def StatInfo.adjust (stat : StatInfo) (relative : Bool) (amount : Int) : StatInfo :=
  { stat with
    manualRating := adjustedRating stat.manualRating relative amount
    changed := true }

/-- `do_song_rating_adjust`, from `if( song )` on. -/
def songRatingAdjust (s : Store) (song : Option Nat) (relative : Bool) (amount : Int) :
    Option Store :=
  match song with
  | none => some s
  | some i => do
    let song ← s.databaseInfo.songs[i]?
    let db := s.databaseInfo.subtractRating (getRating config song.stat)
    let stat := song.stat.adjust relative amount
    let db := db.addRating (getRating config stat)
    return saveSong config (({ s with databaseInfo := db }).setSong i { song with stat }) i

/-! ## Picking a song -/

/-- `RAND_MAX`. -/
def randMax : Nat := 2147483647

/-- One turn of the loop in `pick_song`: what `rand` returns for the candidate, and whether
`normal_test`, which draws a random number of its own, accepts the candidate's rating. -/
structure Draw where
  rand : Nat
  accepted : Bool
  deriving DecidableEq, Repr

/-- `pick_song`, for as many turns as it takes; `none` if the draws do not lead to a song. -/
def pickSong (db : DatabaseInfo) : List Draw → Option (DatabaseInfo × Nat)
  | [] => none
  | draw :: draws =>
    let candidate := db.songs.length * draw.rand / (randMax + 1)
    match db.songs[candidate]? with
    | none => none
    | some song =>
      if draw.accepted then
        if song.stat.repeatCounter = 0 then
          let stat := { song.stat with changed := true, repeatCounter := 10 }
          some ({ db with songs := db.songs.set candidate { song with stat } }, candidate)
        else
          let stat :=
            { song.stat with changed := true, repeatCounter := song.stat.repeatCounter - 1 }
          pickSong { db with songs := db.songs.set candidate { song with stat } } draws
      else pickSong db draws

end Squash
