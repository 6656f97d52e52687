import Squash.State.Save

/-!
# The master list

A file with the names of all songs, so that the directories need not be walked at each start. It has
a header of comments, and then each name on a line of its own; when it is read, comments and empty
lines are left out.

A song whose name starts like a comment is left out too, and these are the only ones
(`loadMasterlist_saveMasterlist_iff`).
-/

namespace Squash

def masterlistHeader (time : Ctime) : List Char :=
  '#' :: (" Saved Squash masterlist".toList ++ '\n' ::
    '#' :: (" Auto-Generated on ".toList ++ time.text ++ '\n' :: ['\n']))

/-- What `save_masterlist` writes. -/
def masterlistText (time : Ctime) (songs : List SongInfo) : List Char :=
  masterlistHeader time ++ songs.flatMap fun song => song.filename ++ ['\n']

/-- `save_masterlist`, on the file there was before. -/
def saveMasterlist (dbReadonly : Bool) (time : Ctime) (songs : List SongInfo)
    (masterlist : Option (List Char)) : Option (List Char) :=
  if dbReadonly then masterlist else some (masterlistText time songs)

/-- The line is not empty and not a comment. -/
def isSongLine (line : List Char) : Bool := !line.isEmpty && line.head? != some '#'

/-- `load_masterlist`. Taking lines off the text with `strsep` cuts it at every line feed. A file
that does not exist or that is empty cannot be mapped. -/
def loadMasterlist (dbPaths : BasenameType → List Char) (masterlist : Option (List Char))
    (songs : List SongInfo) : List SongInfo :=
  match masterlist with
  | none | some [] => songs
  | some text => songs ++ ((text.splitOn '\n').filter isSongLine).map (loadFile dbPaths)

theorem filter_lines {names : List (List Char)} (h : ∀ name ∈ names, '\n' ∉ name) :
    (((names.flatMap (· ++ ['\n'])).splitOn '\n').filter isSongLine) =
      names.filter isSongLine := by
  induction names with
  | nil => rfl
  | cons name names ih =>
      have hname : (name :: names).flatMap (· ++ ['\n']) =
          name ++ '\n' :: names.flatMap (· ++ ['\n']) := by
        simp
      rw [hname, List.splitOn_append_cons_self_of_not_mem (h name List.mem_cons_self),
        List.filter_cons, List.filter_cons, ih fun n hn => h n (List.mem_cons_of_mem name hn)]

/-- The header has no names in it. -/
theorem filter_masterlistText (time : Ctime) {songs : List SongInfo}
    (h : ∀ song ∈ songs, '\n' ∉ song.filename) :
    ((masterlistText time songs).splitOn '\n').filter isSongLine =
      (songs.map SongInfo.filename).filter isSongLine := by
  let comment : List Char := '#' :: " Saved Squash masterlist".toList
  let generated : List Char := '#' :: (" Auto-Generated on ".toList ++ time.text)
  let names : List (List Char) := songs.map SongInfo.filename
  have htext : masterlistText time songs =
      comment ++ '\n' :: (generated ++ '\n' :: ([] ++ '\n' :: names.flatMap (· ++ ['\n']))) := by
    simp [masterlistText, masterlistHeader, comment, generated, names, List.flatMap_map]
  have hgenerated : '\n' ∉ generated := by
    intro hmem
    rcases List.mem_cons.mp hmem with hmem | hmem
    · exact absurd hmem (by decide)
    · exact (List.mem_append.mp hmem).elim (by decide) time.oneLine
  have hnames : ∀ name ∈ names, '\n' ∉ name := by
    intro name hname
    obtain ⟨song, hsong, rfl⟩ := List.mem_map.mp hname
    exact h song hsong
  rw [htext, List.splitOn_append_cons_self_of_not_mem (by decide),
    List.splitOn_append_cons_self_of_not_mem hgenerated,
    List.splitOn_append_cons_self_of_not_mem (by simp)]
  show ((names.flatMap (· ++ ['\n'])).splitOn '\n').filter isSongLine = _
  exact filter_lines hnames

/-- **The names come back**, all and in order, exactly when none starts like a comment. -/
theorem loadMasterlist_saveMasterlist_iff (dbPaths : BasenameType → List Char) (time : Ctime)
    (songs : List SongInfo) (masterlist : Option (List Char))
    (h : ∀ song ∈ songs, song.filename ≠ [] ∧ '\n' ∉ song.filename) :
    (loadMasterlist dbPaths (saveMasterlist false time songs masterlist) []).map
        SongInfo.filename = songs.map SongInfo.filename ↔
      ∀ song ∈ songs, song.filename.head? ≠ some '#' := by
  have hloaded : (loadMasterlist dbPaths (saveMasterlist false time songs masterlist) []).map
      SongInfo.filename = (songs.map SongInfo.filename).filter isSongLine := by
    have hsaved : saveMasterlist false time songs masterlist = some (masterlistText time songs) :=
      rfl
    rw [hsaved]
    show (([] ++ (((masterlistText time songs).splitOn '\n').filter isSongLine).map
      (loadFile dbPaths)).map SongInfo.filename) = _
    rw [filter_masterlistText time fun song hsong => (h song hsong).2, List.nil_append,
      List.map_map]
    exact List.map_id _
  rw [hloaded, List.filter_eq_self]
  constructor
  · intro hall song hsong
    have hline := hall song.filename (List.mem_map_of_mem hsong)
    simp only [isSongLine, Bool.and_eq_true, bne_iff_ne] at hline
    exact hline.2
  · intro hhead name hname
    obtain ⟨song, hsong, rfl⟩ := List.mem_map.mp hname
    have hne := (h song hsong).1
    simp [isSongLine, hne, hhead song hsong]

def masterlistTime : Ctime := ⟨"Sat Jan  1 00:00:00 2000".toList, by decide⟩

theorem loadMasterlist_saveMasterlist_two :
    (loadMasterlist (fun _ => "/music".toList) (saveMasterlist false masterlistTime
        (["a/#1.ogg".toList, "b.mp3".toList].map (loadFile fun _ => "/music".toList)) none) []).map
        SongInfo.filename =
      (["a/#1.ogg".toList, "b.mp3".toList].map (loadFile fun _ => "/music".toList)).map
        SongInfo.filename := by
  refine (loadMasterlist_saveMasterlist_iff (fun _ => "/music".toList) masterlistTime
    (["a/#1.ogg".toList, "b.mp3".toList].map (loadFile fun _ => "/music".toList)) none ?_).mpr ?_
  · intro song hsong
    obtain ⟨name, hname, rfl⟩ := List.mem_map.mp hsong
    have hnames : ∀ name ∈ ["a/#1.ogg".toList, "b.mp3".toList], name ≠ [] ∧ '\n' ∉ name := by decide
    exact hnames name hname
  · intro song hsong
    obtain ⟨name, hname, rfl⟩ := List.mem_map.mp hsong
    have hnames : ∀ name ∈ ["a/#1.ogg".toList, "b.mp3".toList], name.head? ≠ some '#' := by decide
    exact hnames name hname

/-- A song in the top directory whose name starts with a number sign. -/
theorem loadMasterlist_numberSign :
    (loadMasterlist (fun _ => "/music".toList) (saveMasterlist false masterlistTime
        (["#1.ogg".toList, "b.mp3".toList].map (loadFile fun _ => "/music".toList)) none) []).map
        SongInfo.filename ≠
      (["#1.ogg".toList, "b.mp3".toList].map (loadFile fun _ => "/music".toList)).map
        SongInfo.filename := by
  decide

end Squash
