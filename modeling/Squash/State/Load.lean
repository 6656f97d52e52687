import Squash.State.Save

/-!
# `load_state`

The reader of the state file. `load_state_callback` collects the entries in `raw_songs`, which grows
as it goes: an `entry_filename` goes into the first cell that is not used yet, and the
`entry_position` after it makes the cell used. Then `load_state` looks up the songs by their full
paths and appends them to the song queue.

Reading outside of a text or an array, or through a pointer that is null or was never assigned, is
`none`.
-/

namespace Squash

/-! ## The callback -/

def RawSong.uninitialised : RawSong := ⟨none, none⟩

/-- `squash_ensure_alloc( raw_song_count, raw_song_alloc, raw_songs, ... , 10, *=2 )`. -/
def StateInfo.ensureAlloc (info : StateInfo) : StateInfo :=
  if info.rawSongs.length ≤ info.rawSongCount then
    let alloc := if info.rawSongCount = 0 then 10 else info.rawSongs.length * 2
    { info with rawSongs := info.rawSongs ++
        List.replicate (alloc - info.rawSongs.length) RawSong.uninitialised }
  else info

/-- Assign to the cell `raw_songs[ raw_song_count ]`. -/
def StateInfo.setRawSong (info : StateInfo) (rawSong : RawSong → RawSong) : Option StateInfo :=
  info.rawSongs[info.rawSongCount]?.map fun old =>
    { info with rawSongs := info.rawSongs.set info.rawSongCount (rawSong old) }

/-- `window_states[ cur_window_number ] = state`. -/
def StateInfo.setWindowState (info : StateInfo) (state : Int) : Option StateInfo :=
  if h : 0 ≤ info.curWindowNumber ∧ info.curWindowNumber < winCount then
    let i : Fin winCount := ⟨info.curWindowNumber.toNat, by omega⟩
    some { info with windowStates := fun j => if j = i then state else info.windowStates j }
  else none

/-- `load_state_callback`. -/
def loadStateCallback (pass : StateInfo) (call : AddData) : Option StateInfo :=
  let pass := pass.ensureAlloc
  if strncasecmp "entry_filename".toList call.key 16 then
    pass.setRawSong fun _ => ⟨some call.value, some 0⟩
  else if strncasecmp "entry_position".toList call.key 16 then do
    let value ← call.value
    let pass ← pass.setRawSong fun rawSong => { rawSong with position := some (Decimal.parse value) }
    return { pass with rawSongCount := pass.rawSongCount + 1 }
  else if strncasecmp "current_entry".toList call.key 15 then do
    let value ← call.value
    return { pass with currentSong := Decimal.parse value }
  else if strncasecmp "window_number".toList call.key 14 then do
    let value ← call.value
    return { pass with curWindowNumber := Decimal.parse value }
  else if strncasecmp "window_state".toList call.key 13 then do
    let value ← call.value
    pass.setWindowState (Decimal.parse value)
  else some pass

section Cells

variable {info : StateInfo}

/-- **`squash_ensure_alloc` adds cells at the end**, and changes nothing else. -/
theorem ensureAlloc_eq (info : StateInfo) : ∃ n, info.ensureAlloc =
    { info with rawSongs := info.rawSongs ++ List.replicate n RawSong.uninitialised } := by
  rw [StateInfo.ensureAlloc]
  split
  · exact ⟨_, rfl⟩
  · exact ⟨0, by simp⟩

@[simp] theorem ensureAlloc_rawSongCount (info : StateInfo) :
    info.ensureAlloc.rawSongCount = info.rawSongCount := by
  obtain ⟨n, hn⟩ := ensureAlloc_eq info
  rw [hn]

@[simp] theorem ensureAlloc_currentSong (info : StateInfo) :
    info.ensureAlloc.currentSong = info.currentSong := by
  obtain ⟨n, hn⟩ := ensureAlloc_eq info
  rw [hn]

@[simp] theorem ensureAlloc_windowStates (info : StateInfo) :
    info.ensureAlloc.windowStates = info.windowStates := by
  obtain ⟨n, hn⟩ := ensureAlloc_eq info
  rw [hn]

@[simp] theorem ensureAlloc_curWindowNumber (info : StateInfo) :
    info.ensureAlloc.curWindowNumber = info.curWindowNumber := by
  obtain ⟨n, hn⟩ := ensureAlloc_eq info
  rw [hn]

/-- Cells that were there keep what they hold. -/
theorem getElem?_ensureAlloc {k : Nat} {cell : RawSong} (h : info.rawSongs[k]? = some cell) :
    info.ensureAlloc.rawSongs[k]? = some cell := by
  obtain ⟨n, hn⟩ := ensureAlloc_eq info
  obtain ⟨hlt, -⟩ := List.getElem?_eq_some_iff.mp h
  rw [hn, List.getElem?_append_left hlt]
  exact h

/-- **There is a cell to write to.** -/
theorem rawSongCount_lt_ensureAlloc (h : info.rawSongCount ≤ info.rawSongs.length) :
    info.rawSongCount < info.ensureAlloc.rawSongs.length := by
  rw [StateInfo.ensureAlloc]
  by_cases hfull : info.rawSongs.length ≤ info.rawSongCount
  · rw [if_pos hfull, List.length_append, List.length_replicate]
    split <;> omega
  · rw [if_neg hfull]
    omega

theorem setRawSong_eq {n : Nat} {old : RawSong} (hcount : info.rawSongCount = n)
    (hold : info.rawSongs[n]? = some old) (rawSong : RawSong → RawSong) :
    info.setRawSong rawSong =
      some { info with rawSongs := info.rawSongs.set n (rawSong old) } := by
  subst hcount
  rw [StateInfo.setRawSong, hold]
  rfl

end Cells

/-! ## Looking up a song -/

/-- `strcmp( song->filename, &filename[ basename_length + 1 ] ) == 0`, with a `/` in front of it and
the basename in front of that. A file name that is shorter than the basename is read beyond its
end. -/
def SongInfo.isAt (song : SongInfo) (filename : List Char) : Option Bool :=
  let basename := song.basename .basenameSong
  let basenameLength := basename.length
  if filename.length < basenameLength + 1 then none
  else some (song.filename = filename.drop (basenameLength + 1) ∧
    filename[basenameLength]? = some '/' ∧ filename.take basenameLength = basename)

/-- The loop of `find_song_by_filename`, from song `i` on. -/
def findSongFrom (filename : List Char) : List SongInfo → Nat → Option (Option Nat)
  | [], _ => some none
  | song :: songs, i => do
    if ← song.isAt filename then some (some i) else findSongFrom filename songs (i + 1)

def findSongByFilename (songs : List SongInfo) (filename : Option (List Char)) :
    Option (Option Nat) :=
  match filename with
  | none => some none
  | some filename => findSongFrom filename songs 0

/-! ## `load_state` -/

/-- The state before the file is read. -/
def StateInfo.init : StateInfo where
  rawSongs := []
  rawSongCount := 0
  currentSong := 0
  windowStates := fun _ => 0
  curWindowNumber := 0

/-- Find a raw song and append it to the queue; one that is not found is left out. -/
def loadRawSong (fullyLoads : SongInfo → Bool) (songs : List SongInfo) (rawSongs : List RawSong)
    (currentSong : Int) (q : SongQueue) : Option SongQueue :=
  if currentSong < 0 then none
  else do
    let rawSong ← rawSongs[currentSong.toNat]?
    let filename ← rawSong.filename
    match ← findSongByFilename songs filename with
    | none => some q
    | some song => do
      let position ← rawSong.position
      playlistQueueSong fullyLoads songs q song position

/-- So many turns of the loop over the raw songs. -/
def loadRawSongs (fullyLoads : SongInfo → Bool) (songs : List SongInfo) (rawSongs : List RawSong) :
    Nat → Int → SongQueue → Option SongQueue
  | 0, _, q => some q
  | n + 1, currentSong, q => do
    let q ← loadRawSong fullyLoads songs rawSongs currentSong q
    loadRawSongs fullyLoads songs rawSongs n (currentSong + 1) q

/-- `load_state`. -/
def loadState (fullyLoads : SongInfo → Bool) (config : StateConfig) (s : SquashState) :
    Option SquashState := do
  let (info, _) ← parseFile (s.files config.globalStatePath) loadStateCallback StateInfo.init
  let songQueue ← loadRawSongs fullyLoads s.songs info.rawSongs info.pending info.currentSong
    s.songQueue
  -- the file names are freed
  if (info.rawSongs.take info.rawSongCount).all fun rawSong => rawSong.filename.isSome then
    return { s with
      songQueue
      windowState := info.windowStates
      stateInfo := { info with rawSongs := [], rawSongCount := 0, currentSong := 0 } }
  else none

end Squash
