import Squash.Playlist.SongQueue

/-!
# `save_state`

What Squash remembers from one start to the next, of the build with the ncurses display: the song
that is playing, the song queue, and the states of the windows. The state file is a text that
`parse_file` can read.

`state_info.raw_songs` are the entries of the last state file that `load_state` has not queued yet;
`save_state` writes them too, behind those of the queue.
-/

namespace Squash

open LinkedList

/-- The number of windows, `WIN_COUNT`. -/
abbrev winCount : Nat := 6

/-- `state_raw_song_t`. A field that was not assigned yet is `none`; a file name may also be the
null pointer, `some none`. -/
structure RawSong where
  filename : Option (Option (List Char))
  position : Option Int
  deriving DecidableEq, Repr

/-- `state_info_t`; `raw_song_alloc` is the length of `rawSongs`. -/
structure StateInfo where
  rawSongs : List RawSong
  rawSongCount : Nat
  currentSong : Int
  /-- The states by their numbers in `enum window_states_e`. -/
  windowStates : Fin winCount → Int
  curWindowNumber : Int

/-- The part of the program's state that is saved and loaded. Songs are set up in `_load_file` only,
so they all have `config.db_paths`. -/
structure SquashState where
  dbPaths : BasenameType → List Char
  songs : List SongInfo
  basename : ∀ song ∈ songs, song.basename = dbPaths
  files : Files
  /-- `player_info.song` -/
  playing : Option Nat
  currentPosition : Int
  songQueue : SongQueue
  /-- `display_info.window[ i ].state` -/
  windowState : Fin winCount → Int
  stateInfo : StateInfo

/-- The part of `config` that the state file depends on. -/
structure StateConfig where
  dbReadonly : Bool
  globalStatePath : List Char

/-- What `ctime` returns, without the line break at its end. -/
structure Ctime where
  text : List Char
  oneLine : '\n' ∉ text

def SongInfo.fullPath (song : SongInfo) : List Char := buildFullfilename song .basenameSong

/-! ## The text -/

def headerText (time : Ctime) : List Char :=
  '#' :: (" Saved Squash state".toList ++ '\n' ::
    '#' :: (" Auto-Generated on ".toList ++ time.text ++ '\n' :: ['\n']))

def currentEntryText : List Char := keyLine "current_entry".toList ['0']

/-- The two lines of an entry. -/
def entryText (filename : List Char) (position : Int) : List Char :=
  keyLine "entry_filename".toList filename ++
    keyLine "entry_position".toList (Decimal.print position)

def songText (songs : List SongInfo) (entry : SongQueueEntry) : Option (List Char) :=
  songs[entry.songInfo]?.map fun song => entryText song.fullPath entry.startPosition

/-- The entry of the song that is playing, if there is one. -/
def playingText (s : SquashState) : Option (List Char) :=
  match s.playing with
  | none => some []
  | some song => songText s.songs ⟨song, s.currentPosition⟩

/-- One entry for each song in a list. -/
def songTexts (songs : List SongInfo) : List SongQueueEntry → Option (List Char)
  | [] => some []
  | entry :: entries => do
    let text ← songText songs entry
    let rest ← songTexts songs entries
    return text ++ rest

/-- The loop over the song queue. -/
def queueText (s : SquashState) : Option (List Char) :=
  (s.songQueue.heap.values s.songQueue.heap.length s.songQueue.head).bind (songTexts s.songs)

/-- The entry of a raw song. -/
def rawSongText (rawSongs : List RawSong) (currentSong : Int) : Option (List Char) :=
  if currentSong < 0 then none
  else do
    let rawSong ← rawSongs[currentSong.toNat]?
    let filename ← rawSong.filename.join
    let position ← rawSong.position
    return entryText filename position

/-- So many turns of the loop over the raw songs that are left. -/
def rawSongTexts (rawSongs : List RawSong) : Nat → Int → Option (List Char)
  | 0, _ => some []
  | n + 1, currentSong => do
    let text ← rawSongText rawSongs currentSong
    let rest ← rawSongTexts rawSongs n (currentSong + 1)
    return text ++ rest

/-- How many raw songs are left. -/
def StateInfo.pending (info : StateInfo) : Nat := (info.rawSongCount - info.currentSong).toNat

def windowText (windowState : Fin winCount → Int) (i : Fin winCount) : List Char :=
  keyLine "window_number".toList (Decimal.print (i : Nat)) ++
    keyLine "window_state".toList (Decimal.print (windowState i))

def windowTexts (windowState : Fin winCount → Int) : List Char :=
  (List.finRange winCount).flatMap (windowText windowState)

/-- Everything that `save_state` writes. -/
def stateText (time : Ctime) (s : SquashState) : Option (List Char) := do
  let playing ← playingText s
  let queue ← queueText s
  let rawSongs ← rawSongTexts s.stateInfo.rawSongs s.stateInfo.pending s.stateInfo.currentSong
  return headerText time ++ (currentEntryText ++
    (playing ++ (queue ++ (rawSongs ++ windowTexts s.windowState))))

/-- `save_state`. A state file that cannot be opened ends the program and is left out. -/
def saveState (config : StateConfig) (time : Ctime) (s : SquashState) : Option SquashState :=
  if config.dbReadonly then some s
  else do
    let text ← stateText time s
    return { s with
      files := fun path => if path = config.globalStatePath then some text else s.files path
      stateInfo := { s.stateInfo with
        currentSong := s.stateInfo.currentSong + s.stateInfo.pending } }

end Squash
