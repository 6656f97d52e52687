import Squash.Database.LoadMeta

/-!
# `ensure_song_fully_loaded`

What is not known about a song when it is queued is loaded then: its type, its tags and its length.
The length comes from the tags, if they have one, and otherwise from the decoder. A tag is text that
anyone can edit, so a length may be any integer (`ensureSongFullyLoaded_length`).

A song that was queued has a type (`ensureSongFullyLoaded_songType`), as loading its tags does not
make the type unknown again.
-/

namespace Squash

/-- What the function calls. -/
structure SongLoader where
  getSongType : List Char → List Char → SongType
  /-- `load_meta_data( song, TYPE_META )` -/
  loadMeta : SongRecord → Option SongRecord
  /-- A decoder is opened, asked for the duration, and closed. -/
  calcDuration : SongType → List Char → Option Int

/-- `get_meta_data` on a song. -/
def SongRecord.getMetaData (song : SongRecord) (metaKey : List Char) : Option MetaKey :=
  song.metaKeys.bind fun metaKeys => Squash.getMetaData metaKeys metaKey

def SongRecord.fullPath (song : SongRecord) : List Char :=
  song.basename .basenameSong ++ '/' :: song.filename

/-- The part about `play_length`. A file that cannot be opened ends the program, and a value that is
the null pointer is followed. -/
def SongRecord.loadLength (loader : SongLoader) (song : SongRecord) : Option SongRecord :=
  match (song.getMetaData "duration".toList).or (song.getMetaData "length".toList) with
  | some (_, value :: _) =>
    value.map fun value => { song with playLength := (atoi value).toInt }
  | some (_, []) | none =>
    match song.songType with
    | none => none
    | some .unknown => some song
    | some type =>
      (loader.calcDuration type song.fullPath).map fun playLength => { song with playLength }

/-- `ensure_song_fully_loaded`. -/
def ensureSongFullyLoaded (loader : SongLoader) (song : SongRecord) : Option SongRecord := do
  let song := { song with songType := some (song.songType.getD
    (loader.getSongType (song.basename .basenameSong) song.filename)) }
  let song ← if song.metaKeys = none then loader.loadMeta song else some song
  if song.playLength = -1 then song.loadLength loader else some song

section Tag

variable (loader : SongLoader) {song : SongRecord} {metaKeys : List MetaKey} {key value : List Char}
  {values : List (Option (List Char))}

theorem loadLength_tag (hmeta : song.metaKeys = some metaKeys)
    (htag : (getMetaData metaKeys "duration".toList).or (getMetaData metaKeys "length".toList) =
      some (key, some value :: values)) :
    song.loadLength loader = some { song with playLength := (atoi value).toInt } := by
  simp only [SongRecord.loadLength, SongRecord.getMetaData, hmeta, Option.bind_some, htag,
    Option.map_some]

/-- **The length is what the tag says**, whatever the music file is. -/
theorem ensureSongFullyLoaded_length (hmeta : song.metaKeys = some metaKeys)
    (hlength : song.playLength = -1)
    (htag : (getMetaData metaKeys "duration".toList).or (getMetaData metaKeys "length".toList) =
      some (key, some value :: values)) :
    (ensureSongFullyLoaded loader song).map SongRecord.playLength = some (atoi value).toInt := by
  rw [ensureSongFullyLoaded]
  simp only [hmeta, hlength, reduceCtorEq, if_false, if_true, Option.bind_eq_bind, Option.bind_some]
  rw [loadLength_tag loader rfl htag]
  rfl

end Tag

/-! ## The type -/

/-- A loader that leaves a type that is known as it is. -/
structure TypedLoader extends SongLoader where
  loadMeta_songType : ∀ song song' type, loadMeta song = some song' → song.songType = some type →
    song'.songType = some type

/-- `get_song_type` and `load_meta_data`, which set a type only where there is none. -/
def TypedLoader.ofDisk (build : Build) (config : InfoConfig) (disk : Disk)
    (before : Int → Option Char) (getSongType : List Char → List Char → SongType)
    (calcDuration : SongType → List Char → Option Int) : TypedLoader where
  getSongType
  loadMeta song := (song.loadMetaData build config disk before).2
  calcDuration
  loadMeta_songType _ _ _ hload hknown := loadMetaData_songType hknown hload

theorem loadLength_songType {loader : SongLoader} {song song' : SongRecord}
    (h : song.loadLength loader = some song') : song'.songType = song.songType := by
  unfold SongRecord.loadLength at h
  split at h
  · obtain ⟨value, -, rfl⟩ := Option.map_eq_some_iff.mp h
    rfl
  all_goals
    split at h
    · cases h
    · cases h
      rfl
    · obtain ⟨playLength, -, rfl⟩ := Option.map_eq_some_iff.mp h
      rfl

/-- The song with its type, before its tags and its length. -/
def SongRecord.typed (loader : SongLoader) (song : SongRecord) : SongRecord :=
  { song with songType := some (song.songType.getD
      (loader.getSongType (song.basename .basenameSong) song.filename)) }

theorem ensureSongFullyLoaded_eq (loader : SongLoader) (song : SongRecord) :
    ensureSongFullyLoaded loader song =
      (if song.metaKeys = none then loader.loadMeta (song.typed loader)
        else some (song.typed loader)).bind fun tagged =>
          if tagged.playLength = -1 then tagged.loadLength loader else some tagged := by
  rw [ensureSongFullyLoaded]
  by_cases hmeta : song.metaKeys = none
  · rw [if_pos hmeta, if_pos hmeta]
    rfl
  · rw [if_neg hmeta, if_neg hmeta]
    rfl

/-- **A song that is fully loaded has a type**, if only `TYPE_UNKNOWN`. -/
theorem ensureSongFullyLoaded_songType {loader : TypedLoader} {song song' : SongRecord}
    (h : ensureSongFullyLoaded loader.toSongLoader song = some song') :
    ∃ type, song'.songType = some type := by
  rw [ensureSongFullyLoaded_eq] at h
  obtain ⟨tagged, htagged, hlength⟩ := Option.bind_eq_some_iff.mp h
  have htype : ∃ type, tagged.songType = some type := by
    split at htagged
    · exact ⟨_, loader.loadMeta_songType _ _ _ htagged rfl⟩
    · cases htagged
      exact ⟨_, rfl⟩
  split at hlength
  · rwa [loadLength_songType hlength]
  · cases hlength
    exact htype

end Squash
