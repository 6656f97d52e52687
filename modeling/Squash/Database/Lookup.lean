import Squash.Foundations.CString
import Squash.State.Load

/-!
# Looking up a song by its path

`find_song_by_filename` compares the end of a path first, since it is more likely to differ, and only
then the separator and the beginning. Where the end starts follows from the length of the song's
basename, and the code does not ask whether the path is that long: a path without more characters
than the basename has is read beyond its end.

So the lookup is right, and stays in bounds, exactly when the path is longer than the basename of
each song in front of the one that is found (`findSongByFilename_iff`). A state file can hold any
path.
-/

namespace Squash.Lookup

open CString

/-- A string with its terminator. -/
def terminated (s : List Char) : List Char := s ++ ['\x00']

/-- The body of the loop: does the song have this path? The null pointer apart, a pointer is what
lies behind it in memory. -/
def isAt (song : SongInfo) (filename : List Char) : Option Bool := do
  let basenameLength ← strlen '\x00' (terminated (song.basename .basenameSong))
  if ← strcmp '\x00' (terminated song.filename) (filename.drop (basenameLength + 1)) then
    let c ← filename[basenameLength]?
    if c = '/' then
      strncmp '\x00' basenameLength (terminated (song.basename .basenameSong)) filename
    else some false
  else some false

/-- The loop, from song `i` on. -/
def findSongFrom (filename : List Char) : List SongInfo → Nat → Option (Option Nat)
  | [], _ => some none
  | song :: songs, i => do
    if ← isAt song filename then some (some i) else findSongFrom filename songs (i + 1)

/-- `find_song_by_filename`. -/
def findSongByFilename (songs : List SongInfo) (filename : Option (List Char)) :
    Option (Option Nat) :=
  match filename with
  | none => some none
  | some filename => findSongFrom filename songs 0

/-- The names of a song are strings. -/
structure Strings (song : SongInfo) : Prop where
  basename : '\x00' ∉ song.basename .basenameSong
  filename : '\x00' ∉ song.filename

variable {song : SongInfo} {songs : List SongInfo} {filename : List Char}

theorem fullPath_eq_iff (song : SongInfo) (filename : List Char) :
    song.fullPath = filename ↔ song.filename = filename.drop ((song.basename .basenameSong).length + 1) ∧
      filename[(song.basename .basenameSong).length]? = some '/' ∧
      song.basename .basenameSong <+: filename := by
  have hpath : song.fullPath = song.basename .basenameSong ++ '/' :: song.filename := rfl
  rw [hpath]
  constructor
  · rintro rfl
    refine ⟨?_, ?_, List.prefix_append _ _⟩
    · rw [← List.drop_drop, List.drop_left]
      rfl
    · rw [List.getElem?_append_right (Nat.le_refl _), Nat.sub_self]
      rfl
  · rintro ⟨hfilename, hslash, rest, rfl⟩
    rw [List.getElem?_append_right (Nat.le_refl _), Nat.sub_self] at hslash
    rw [← List.drop_drop, List.drop_left] at hfilename
    cases rest with
    | nil => cases hslash
    | cons c rest =>
        cases hslash
        rw [hfilename]
        rfl

/-- **One comparison.** It is with the whole path, if the path is long enough. -/
theorem isAt_terminated (hsong : Strings song) (h : '\x00' ∉ filename) :
    isAt song (terminated filename) =
      if (song.basename .basenameSong).length < filename.length then
        some (decide (song.fullPath = filename))
      else none := by
  unfold isAt terminated
  rw [strlen_terminated hsong.basename, Option.bind_eq_bind, Option.bind_some]
  split
  · next hlength =>
      have hdrop : (filename ++ ['\x00']).drop ((song.basename .basenameSong).length + 1) =
          filename.drop ((song.basename .basenameSong).length + 1) ++ ['\x00'] :=
        List.drop_append_of_le_length hlength
      have hnull : '\x00' ∉ filename.drop ((song.basename .basenameSong).length + 1) :=
        fun hmem => h (List.mem_of_mem_drop hmem)
      rw [hdrop, strcmp_terminated hsong.filename hnull,
        List.getElem?_append_left hlength, strncmp_terminated hsong.basename h,
        Option.bind_eq_bind, Option.bind_some, List.getElem?_eq_getElem hlength]
      have hiff := fullPath_eq_iff song filename
      rw [List.getElem?_eq_getElem hlength, Option.some_inj] at hiff
      by_cases hname : song.filename = filename.drop ((song.basename .basenameSong).length + 1)
      · by_cases hslash : filename[(song.basename .basenameSong).length] = '/' <;>
          simp [hiff, hname, hslash]
      · simp [hiff, hname]
  · next hlength =>
      have hdrop : (filename ++ ['\x00']).drop ((song.basename .basenameSong).length + 1) = [] := by
        rw [List.drop_eq_nil_iff]
        simp
        omega
      rw [hdrop]
      cases song.filename <;> rfl

/-- The two models of the loop agree. -/
theorem isAt_eq (hsong : Strings song) (h : '\x00' ∉ filename) :
    isAt song (terminated filename) = song.isAt filename := by
  rw [isAt_terminated hsong h, SongInfo.isAt]
  have hprefix : filename.take (song.basename .basenameSong).length = song.basename .basenameSong ↔
      song.basename .basenameSong <+: filename := by
    rw [List.prefix_iff_eq_take]
    exact eq_comm
  simp only [fullPath_eq_iff, hprefix]
  split <;> split <;> first | rfl | omega

/-- **`load_state` looks its songs up like this.** -/
theorem findSongByFilename_eq (hsongs : ∀ song ∈ songs, Strings song) (h : '\x00' ∉ filename) :
    findSongByFilename songs (some (terminated filename)) =
      Squash.findSongByFilename songs (some filename) := by
  show findSongFrom (terminated filename) songs 0 = Squash.findSongFrom filename songs 0
  generalize 0 = i
  induction songs generalizing i with
  | nil => rfl
  | cons song songs ih =>
      rw [findSongFrom, Squash.findSongFrom, isAt_eq (hsongs song List.mem_cons_self) h]
      have ih := ih (fun s hs => hsongs s (List.mem_cons_of_mem song hs)) (i + 1)
      rw [ih]

theorem findSongFrom_iff (hsongs : ∀ song ∈ songs, Strings song) (h : '\x00' ∉ filename) (i : Nat) :
    findSongFrom (terminated filename) songs i =
        some ((songs.findIdx? fun song => song.fullPath = filename).map (· + i)) ↔
      ∀ song ∈ songs.takeWhile fun song => song.fullPath ≠ filename,
        (song.basename .basenameSong).length < filename.length := by
  induction songs generalizing i with
  | nil => simp [findSongFrom]
  | cons song songs ih =>
      have ih := ih (fun s hs => hsongs s (List.mem_cons_of_mem song hs)) (i + 1)
      rw [findSongFrom, isAt_terminated (hsongs song List.mem_cons_self) h]
      rw [List.findIdx?_cons, List.takeWhile_cons]
      by_cases hpath : song.fullPath = filename
      · have hlength : (song.basename .basenameSong).length < filename.length := by
          rw [← hpath]
          simp [SongInfo.fullPath, buildFullfilename]
        simp [hpath, hlength]
      · -- the song is passed over, which must not read beyond the end
        have hshift : ((songs.findIdx? fun song => song.fullPath = filename).map (· + 1)).map
            (· + i) = (songs.findIdx? fun song => song.fullPath = filename).map (· + (i + 1)) := by
          rw [Option.map_map]
          congr 1
          funext x
          show x + 1 + i = x + (i + 1)
          omega
        by_cases hlength : (song.basename .basenameSong).length < filename.length
        · simp only [hpath, hlength, decide_false, Bool.false_eq_true, if_false, if_true, hshift,
            ne_eq, not_false_eq_true, decide_true, List.forall_mem_cons, true_and]
          exact ih
        · simp [hpath, hlength]

/-- **The lookup by path.** The first song with the path is found, or none, and no character behind
the end of the path is read, exactly when all songs in front of it have basenames shorter than the
path. -/
theorem findSongByFilename_iff (hsongs : ∀ song ∈ songs, Strings song) (h : '\x00' ∉ filename) :
    findSongByFilename songs (some (terminated filename)) =
        some (songs.findIdx? fun song => song.fullPath = filename) ↔
      ∀ song ∈ songs.takeWhile fun song => song.fullPath ≠ filename,
        (song.basename .basenameSong).length < filename.length := by
  have hiff := findSongFrom_iff hsongs h 0
  rwa [show ((fun x => x + 0) : Nat → Nat) = id from rfl, Option.map_id_fun, id] at hiff

theorem findSongByFilename_iff_second :
    findSongByFilename (["a.mp3".toList, "b.mp3".toList].map (loadFile fun _ => "/music".toList))
        (some (terminated "/music/b.mp3".toList)) =
      some ((["a.mp3".toList, "b.mp3".toList].map (loadFile fun _ => "/music".toList)).findIdx?
        fun song => song.fullPath = "/music/b.mp3".toList) := by
  refine (findSongByFilename_iff ?_ (by decide)).mpr (by decide)
  intro song hsong
  obtain ⟨name, hname, rfl⟩ := List.mem_map.mp hsong
  have hnames : ∀ name ∈ ["a.mp3".toList, "b.mp3".toList], '\x00' ∉ name := by decide
  exact ⟨(by decide : '\x00' ∉ "/music".toList), hnames name hname⟩

/-- A path of two characters, which is shorter than the basename of the song. -/
theorem not_findSongByFilename_short :
    findSongByFilename [loadFile (fun _ => "/music".toList) "a.mp3".toList]
        (some (terminated "/a".toList)) ≠
      some ([loadFile (fun _ => "/music".toList) "a.mp3".toList].findIdx?
        fun song => song.fullPath = "/a".toList) := by
  decide

end Squash.Lookup
