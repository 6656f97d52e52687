import Squash.Audio.Mp3
import Squash.Playlist.FullyLoaded
import Squash.State.RoundTrip

/-!
# Seeking in an MP3 file

An MP3 has no index, so `mp3_seek` goes to the part of the file that the position is of the length.
Both numbers come from elsewhere: the position from the state file, the length from the tags. The
code only tests that the length is positive, not that the position is inside of it, and libmad is
handed a buffer that starts outside of the mapped file when it is not (`mp3Seek_staysInFile_iff`).

The quotient is exact here, and truncated as the conversion to an integer does it.
-/

namespace Squash

/-- The calls that `mp3_seek` makes to libmad, and the assignments to its stream. -/
inductive MadCall where
  /-- `mad_stream_buffer`, with the index in the mapped file where the buffer starts -/
  | streamBuffer (start length : Int)
  | timerSet (seconds numer denom : Int)
  | frameMute
  | synthMute
  /-- `stream.error = MAD_ERROR_NONE; stream.sync = 0` -/
  | restart
  deriving DecidableEq, Repr

/-- `mp3_seek`. -/
def mp3Seek (fileSize seekTime duration : Int) : List MadCall :=
  if duration ≤ 0 ∧ seekTime ≠ 0 then []
  else
    let newFilePosition := if seekTime = 0 then 0 else (fileSize * seekTime).tdiv duration
    [.streamBuffer newFilePosition (fileSize - newFilePosition), .timerSet 0 seekTime 1000,
      .frameMute, .synthMute, .restart]

/-- libmad is handed a part of the file. -/
def StaysInFile (fileSize : Int) (calls : List MadCall) : Prop :=
  ∀ start length, .streamBuffer start length ∈ calls → 0 ≤ start ∧ start ≤ fileSize ∧ 0 ≤ length

/-- A truncated quotient is in a range that begins at 0. -/
theorem tdiv_mem_iff {x d m : Int} (hd : 0 < d) (hm : 0 ≤ m) :
    0 ≤ x.tdiv d ∧ x.tdiv d ≤ m ↔ -d < x ∧ x < (m + 1) * d := by
  have hmd : 0 < (m + 1) * d := Int.mul_pos (by omega) hd
  by_cases hx : 0 ≤ x
  · rw [Int.tdiv_eq_ediv_of_nonneg hx]
    have hquot := Int.ediv_nonneg hx hd.le
    have hle : x / d < m + 1 ↔ x < (m + 1) * d := Int.ediv_lt_iff_lt_mul hd
    omega
  · -- the quotient is not positive
    obtain ⟨y, rfl⟩ : ∃ y, x = -y := ⟨-x, by omega⟩
    rw [Int.neg_tdiv, Int.tdiv_eq_ediv_of_nonneg (by omega)]
    have hquot := Int.ediv_nonneg (by omega : 0 ≤ y) hd.le
    have hlt : y / d < 1 ↔ y < 1 * d := Int.ediv_lt_iff_lt_mul hd
    omega

/-- **Seeking stays inside the file** exactly when it does nothing, goes to the beginning, or goes to
a position that is at least 0 and at most the length, but for what is lost in the quotient. -/
theorem mp3Seek_staysInFile_iff {fileSize : Int} (h : 0 < fileSize) (seekTime duration : Int) :
    StaysInFile fileSize (mp3Seek fileSize seekTime duration) ↔
      seekTime = 0 ∨ duration ≤ 0 ∨
        (-duration < fileSize * seekTime ∧ fileSize * seekTime < (fileSize + 1) * duration) := by
  unfold mp3Seek
  by_cases hzero : seekTime = 0
  · simp [StaysInFile, hzero, h.le]
  by_cases hduration : duration ≤ 0
  · simp [StaysInFile, hzero, hduration]
  · have hiff := tdiv_mem_iff (x := fileSize * seekTime) (Int.not_le.mp hduration) h.le
    simp only [hzero, hduration, false_and, if_false, false_or, ← hiff]
    constructor
    · intro hstays
      obtain ⟨hstart, hsize, -⟩ := hstays _ _ List.mem_cons_self
      exact ⟨hstart, hsize⟩
    · rintro ⟨hstart, hsize⟩ start length hmem
      have hcall : start = (fileSize * seekTime).tdiv duration ∧ length = fileSize - start := by
        simp only [List.mem_cons, MadCall.streamBuffer.injEq, reduceCtorEq, List.not_mem_nil,
          or_false] at hmem
        grind
      obtain ⟨rfl, rfl⟩ := hcall
      exact ⟨hstart, hsize, by omega⟩

/-- A minute into a song of two minutes. -/
theorem mp3Seek_staysInFile_minute : StaysInFile 1920000 (mp3Seek 1920000 60000 120000) :=
  (mp3Seek_staysInFile_iff (by decide) 60000 120000).mpr (by decide)

/-! ## Where the numbers come from -/

/-- The state file can hold this position. -/
def RestoredPosition (position : Int) : Prop :=
  ∃ text info rawSong, parseFile (some text) loadStateCallback StateInfo.init = some (info, true) ∧
    rawSong ∈ info.rawSongs.take info.rawSongCount ∧ rawSong.position = some position

/-- A song can get this length. -/
def LoadedLength (playLength : Int) : Prop :=
  ∃ loader song, song.playLength = -1 ∧
    (ensureSongFullyLoaded loader song).map SongRecord.playLength = some playLength

/-- **Any position is restored**: the file that `save_state` writes for it will do. -/
theorem restoredPosition (position : Int) : RestoredPosition position := by
  have htrimmed : ∀ p ∈ [("/music/one".toList, position)], Trimmed p.1 := by
    intro p hp
    rw [List.mem_singleton.mp hp]
    show Trimmed "/music/one".toList
    decide
  obtain ⟨info, hinfo, hholds, -⟩ :=
    foldlM_savedCalls [("/music/one".toList, position)] fun _ => 0
  refine ⟨savedText twoSongsTime [("/music/one".toList, position)] fun _ => 0, info,
    ⟨some (some "/music/one".toList), some position⟩, ?_, ?_, rfl⟩
  · have hne : savedText twoSongsTime [("/music/one".toList, position)] (fun _ => 0) ≠ [] :=
      List.cons_ne_nil _ _
    rw [parseFile_some hne, parse_savedText _ _ htrimmed, hinfo]
    rfl
  · have hcell := hholds.cells 0 _ rfl
    rw [hholds.count]
    exact List.mem_of_getElem? ((List.getElem?_take_of_lt Nat.zero_lt_one).trans hcell)

/-- **Any length that a tag can spell is loaded**. -/
theorem loadedLength (value : List Char) : LoadedLength (atoi value).toInt :=
  ⟨⟨fun _ _ => .mp3, some, fun _ _ => none⟩,
    { SongRecord.loadFile (fun _ => "/music".toList) "one".toList with
      metaKeys := some [("length".toList, [some value])] },
    rfl, ensureSongFullyLoaded_length _ rfl rfl rfl⟩

/-- A song of a hundred seconds, according to its tag, is resumed at two hundred. -/
theorem not_mp3Seek_staysInFile :
    ¬ ∀ fileSize seekTime duration, 0 < fileSize → RestoredPosition seekTime →
      LoadedLength duration → StaysInFile fileSize (mp3Seek fileSize seekTime duration) := by
  intro h
  have hlength : LoadedLength 100000 := loadedLength "100000".toList
  have hstays := h 1000 200000 100000 (by decide) (restoredPosition 200000) hlength
  exact absurd (hstays 2000 (-1000) (by decide)) (by decide)

end Squash
