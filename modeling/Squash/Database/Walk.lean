import Squash.Database.Record
import Squash.Database.SongType
import Squash.Foundations.Buffer
import Squash.Foundations.CString
import Squash.Foundations.Directory
import Squash.Foundations.GrowingArray

/-!
# Walking over the music

`_walk_filesystem` calls a loader for each file below a directory. It builds the path of an entry in
a buffer that already has the path of the directory, once relative to the directory of all songs and
once in full, and calls itself with the relative path. The buffers have room for the longest name
that there is.

`_load_file` is the loader that fills the database, in an array that grows as it goes. The counts are
unbounded here.
-/

namespace Squash

open Directory Pcm

/-! ## The paths -/

/-- Memory from `malloc`, which holds anything. -/
def squashMalloc (fresh : Nat → Char) (size : Nat) : List Char := (List.range size).map fresh

/-- `strcpy( &buffer[ k ], s )`. -/
def strcpyAt (buffer : List Char) (k : Nat) (s : List Char) : Option (List Char) :=
  Buffer.write buffer k (s ++ ['\x00'])

/-- The string that starts at the beginning of the buffer. -/
def bufferString (buffer : List Char) : Option (List Char) :=
  (CString.strlen '\x00' buffer).map buffer.take

/-- A buffer for the paths of the entries of `dir`. -/
def pathBuffer (fresh : Nat → Char) (dir : List Char) : Option (List Char) := do
  let buffer ← strcpyAt (squashMalloc fresh (dir.length + 257)) 0 dir
  let buffer ← Buffer.write buffer dir.length ['/']
  Buffer.write buffer (dir.length + 1) ['\x00']

/-- The current and the parent directory. -/
def isDots (name : List Char) : Option Bool := do
  if ← CString.strncmp '\x00' 2 ['.', '\x00'] (name ++ ['\x00']) then return true
  else CString.strncmp '\x00' 3 ['.', '.', '\x00'] (name ++ ['\x00'])

/-- `file_path` and `fullfile_path`. At the root `file_path` is the name in the directory entry. -/
structure PathBuffers where
  filePath : Option (List Char)
  fullfilePath : List Char

/-- Put a name behind the directories. -/
def PathBuffers.setName (baseDirLength fullbaseDirLength : Nat) (name : List Char)
    (buffers : PathBuffers) : Option PathBuffers := do
  let filePath ← match buffers.filePath with
    | none => some none
    | some buffer => (strcpyAt buffer (baseDirLength + 1) name).map some
  let fullfilePath ← strcpyAt buffers.fullfilePath (fullbaseDirLength + 1) name
  return ⟨filePath, fullfilePath⟩

/-- What `file_path` points to. -/
def PathBuffers.path (name : List Char) (buffers : PathBuffers) : Option (List Char) :=
  match buffers.filePath with
  | none => some name
  | some buffer => bufferString buffer

/-! ## The walk -/

section Walk

variable {σ : Type} (fs : FileSystem Char) (loader : σ → List Char → Option σ)

/-- What is done with one entry. -/
def walkEntry (descend : List Char → σ → Option σ) (name : List Char) (buffers : PathBuffers)
    (s : σ) : Option σ := do
  let fullfilePath ← bufferString buffers.fullfilePath
  match fs.isDir fullfilePath with
  | none => some s
  | some true => (buffers.path name).bind fun filePath => descend filePath s
  | some false => (buffers.path name).bind fun filePath => loader s filePath

/-- The loop over the entries. -/
def walkEntries (descend : List Char → σ → Option σ) (baseDirLength fullbaseDirLength : Nat) :
    List (List Char) → PathBuffers → σ → Option σ
  | [], _, s => some s
  | name :: names, buffers, s => do
    if ← isDots name then
      walkEntries descend baseDirLength fullbaseDirLength names buffers s
    else
      let buffers ← buffers.setName baseDirLength fullbaseDirLength name
      let s ← walkEntry fs loader descend name buffers s
      walkEntries descend baseDirLength fullbaseDirLength names buffers s

/-- The directory to open. -/
def fullbaseDir (songPath : List Char) : Option (List Char) → List Char
  | none => songPath
  | some baseDir => songPath ++ '/' :: baseDir

/-- `_walk_filesystem`, which calls itself so many times at most. -/
def walkFilesystem (fresh : Nat → Char) (songPath : List Char) :
    Nat → Option (List Char) → σ → Option σ
  | 0, _, _ => none
  | fuel + 1, baseDir, s =>
    let fullbaseDir := fullbaseDir songPath baseDir
    match fs.readDir fullbaseDir with
    | none => some s
    | some names => do
      let filePath ← match baseDir with
        | none => some none
        | some baseDir => (pathBuffer fresh baseDir).map some
      let fullfilePath ← pathBuffer fresh fullbaseDir
      walkEntries fs loader (fun dir => walkFilesystem fresh songPath fuel (some dir))
        (baseDir.elim 0 List.length) fullbaseDir.length names ⟨filePath, fullfilePath⟩ s

end Walk

/-! ## The loader -/

/-- `database_info`. A cell that was not set up yet is `none`. -/
structure Database where
  songs : List (Option SongRecord)
  songCount : Nat
  songCountAllocated : Nat

def Database.empty : Database := ⟨[], 0, 0⟩

def initialDbSize : Nat := 2500

/-- `squash_ensure_alloc` on the database. -/
def Database.ensureAlloc (db : Database) : Database :=
  if db.songCountAllocated ≤ db.songCount then
    let allocated := if db.songCount = 0 then initialDbSize else db.songCountAllocated * 2
    { db with
      songs := db.songs.take allocated ++ List.replicate (allocated - db.songs.length) none
      songCountAllocated := allocated }
  else db

/-- Set up the next entry, which has to be inside of the array. -/
def Database.addSong (song : SongRecord) (db : Database) : Option Database :=
  if db.songCount < db.songs.length then
    some { db with
      songs := db.songs.set db.songCount (some song)
      songCount := db.songCount + 1 }
  else none

/-- What `_load_file` uses besides the database: the configuration, what lies in front of the string
that it is handed, and the files. -/
structure LoadContext where
  dbPaths : BasenameType → List Char
  useMagic : Bool
  before : List Char → Int → Option Char
  contents : List Char → Option (List Byte)

/-- The type that the name of a file, or the file, tells. -/
def LoadContext.getSongType (context : LoadContext) (filename : List Char) : Option SongType :=
  Squash.getSongType context.useMagic (context.before filename)
    (context.contents (context.dbPaths .basenameSong ++ '/' :: filename)) filename

/-- `_load_file`. -/
def Database.loadFile (context : LoadContext) (trust : Bool) (db : Database)
    (filename : List Char) : Option Database := do
  let type ← if trust then some SongType.unknown else context.getSongType filename
  if type ≠ .unknown ∨ trust = true then
    db.ensureAlloc.addSong (SongRecord.loadFile context.dbPaths filename)
  else some db

/-! ## Building a path -/

theorem strcpyAt_append (pre rest s : List Char) (h : s.length < rest.length) :
    strcpyAt (pre ++ rest) pre.length s =
      some (pre ++ (s ++ '\x00' :: rest.drop (s.length + 1))) := by
  have hold : (rest.take (s.length + 1)).length = (s ++ ['\x00']).length := by
    rw [List.length_take, List.length_append, List.length_singleton]
    omega
  have hwrite : Buffer.write (pre ++ (rest.take (s.length + 1) ++ rest.drop (s.length + 1)))
      pre.length (s ++ ['\x00']) = some (pre ++ ((s ++ ['\x00']) ++ rest.drop (s.length + 1))) :=
    Buffer.write_append hold
  rw [List.take_append_drop, List.append_assoc] at hwrite
  exact hwrite

/-- The buffer has the path of a directory, a slash, and room for a name. -/
def Ready (dir buffer : List Char) : Prop :=
  ∃ rest, rest.length = 256 ∧ buffer = dir ++ '/' :: rest

theorem pathBuffer_ready (fresh : Nat → Char) (dir : List Char) :
    ∃ buffer, pathBuffer fresh dir = some buffer ∧ Ready dir buffer := by
  -- the path and its terminator, the slash, and the terminator behind it
  have hlength : (squashMalloc fresh (dir.length + 257)).length = dir.length + 257 := by
    simp [squashMalloc]
  have hcopy := strcpyAt_append [] (squashMalloc fresh (dir.length + 257)) dir (by omega)
  obtain ⟨c, rest, hrest⟩ : ∃ c rest,
      (squashMalloc fresh (dir.length + 257)).drop (dir.length + 1) = c :: rest :=
    List.exists_cons_of_ne_nil (List.ne_nil_of_length_pos (by rw [List.length_drop]; omega))
  have hroom : rest.length = 255 := by
    have hdrop := congrArg List.length hrest
    rw [List.length_drop, hlength, List.length_cons] at hdrop
    omega
  have hslash : Buffer.write (dir ++ (['\x00'] ++ c :: rest)) dir.length ['/'] =
      some (dir ++ (['/'] ++ c :: rest)) := Buffer.write_append rfl
  have hend : Buffer.write ((dir ++ ['/']) ++ ([c] ++ rest)) (dir ++ ['/']).length ['\x00'] =
      some ((dir ++ ['/']) ++ (['\x00'] ++ rest)) := Buffer.write_append rfl
  refine ⟨dir ++ '/' :: '\x00' :: rest, ?_, '\x00' :: rest, by simp [hroom], rfl⟩
  rw [hrest] at hcopy
  simp only [List.length_append, List.length_singleton, List.append_assoc, List.singleton_append,
    List.nil_append, List.length_nil] at hcopy hslash hend
  rw [pathBuffer, hcopy]
  simp only [Option.bind_eq_bind, Option.bind_some, hslash, hend]

/-- **A name fits**, and stands behind the directory. -/
theorem strcpyAt_ready {dir buffer name : List Char} (h : Ready dir buffer)
    (hname : name.length ≤ 255) (hdir : '\x00' ∉ dir) (hnul : '\x00' ∉ name) :
    ∃ buffer', strcpyAt buffer (dir.length + 1) name = some buffer' ∧ Ready dir buffer' ∧
      bufferString buffer' = some (dir ++ '/' :: name) := by
  obtain ⟨rest, hrest, rfl⟩ := h
  have hcopy : strcpyAt (dir ++ '/' :: rest) (dir.length + 1) name =
      some (dir ++ '/' :: (name ++ '\x00' :: rest.drop (name.length + 1))) := by
    simpa using strcpyAt_append (dir ++ ['/']) rest name (by omega)
  refine ⟨_, hcopy, ⟨_, ?_, rfl⟩, ?_⟩
  · rw [List.length_append, List.length_cons, List.length_drop]
    omega
  · have hpath : '\x00' ∉ dir ++ '/' :: name := by simp [hdir, hnul]
    have hstring : dir ++ '/' :: (name ++ '\x00' :: rest.drop (name.length + 1)) =
        (dir ++ '/' :: name) ++ '\x00' :: rest.drop (name.length + 1) := by simp
    rw [bufferString, hstring, CString.strlen_terminated hpath, Option.map_some, List.take_left]

/-- The path of an entry, relative to the directory of all songs. -/
def entryPath (name : List Char) : Option (List Char) → List Char
  | none => name
  | some baseDir => baseDir ++ '/' :: name

/-- Both buffers are ready for the entries of a directory. -/
structure PathBuffers.Ready (songPath : List Char) (baseDir : Option (List Char))
    (buffers : PathBuffers) : Prop where
  root : baseDir = none → buffers.filePath = none
  file : ∀ dir, baseDir = some dir → ∃ buffer, buffers.filePath = some buffer ∧
    Squash.Ready dir buffer
  fullfile : Squash.Ready (fullbaseDir songPath baseDir) buffers.fullfilePath

variable {songPath name : List Char} {baseDir : Option (List Char)} {buffers : PathBuffers}

/-- A path for the system and the loader: there is no terminator in it. -/
structure Clean (songPath : List Char) (baseDir : Option (List Char)) : Prop where
  song : '\x00' ∉ songPath
  base : ∀ dir ∈ baseDir, '\x00' ∉ dir

theorem Clean.fullbaseDir (h : Clean songPath baseDir) : '\x00' ∉ fullbaseDir songPath baseDir := by
  cases baseDir with
  | none => exact h.song
  | some dir => simp [Squash.fullbaseDir, h.song, h.base dir rfl]

theorem Clean.entry (h : Clean songPath baseDir) (hname : '\x00' ∉ name) :
    Clean songPath (some (entryPath name baseDir)) := by
  refine ⟨h.song, ?_⟩
  rintro dir ⟨⟩
  cases baseDir with
  | none => exact hname
  | some dir => simp [entryPath, hname, h.base dir rfl]

theorem setName_ready (h : buffers.Ready songPath baseDir) (hclean : Clean songPath baseDir)
    (hname : name.length ≤ 255) (hnul : '\x00' ∉ name) :
    ∃ buffers', buffers.setName (baseDir.elim 0 List.length) (fullbaseDir songPath baseDir).length
        name = some buffers' ∧
      buffers'.Ready songPath baseDir ∧ buffers'.path name = some (entryPath name baseDir) ∧
      bufferString buffers'.fullfilePath = some (fullbaseDir songPath baseDir ++ '/' :: name) := by
  obtain ⟨full, hfull, hfullReady, hfullString⟩ :=
    strcpyAt_ready h.fullfile hname hclean.fullbaseDir hnul
  cases baseDir with
  | none =>
      refine ⟨⟨none, full⟩, ?_, ⟨fun _ => rfl, nofun, hfullReady⟩, rfl, hfullString⟩
      simp only [PathBuffers.setName, h.root rfl, hfull, Option.bind_eq_bind, Option.bind_some]
      rfl
  | some dir =>
      obtain ⟨buffer, hbuffer, hready⟩ := h.file dir rfl
      obtain ⟨file, hfile, hfileReady, hfileString⟩ :=
        strcpyAt_ready hready hname (hclean.base dir rfl) hnul
      refine ⟨⟨some file, full⟩, ?_, ⟨nofun, ?_, hfullReady⟩, hfileString, hfullString⟩
      · simp only [PathBuffers.setName, hbuffer, Option.elim_some, hfile, hfull, Option.bind_eq_bind,
          Option.bind_some, Option.map_some]
        rfl
      · rintro dir' ⟨⟩
        exact ⟨file, rfl, hfileReady⟩

/-- The names that the walk leaves out. -/
def dots (name : List Char) : Bool := name = ['.'] ∨ name = ['.', '.']

theorem isDots_eq (h : '\x00' ∉ name) : isDots name = some (dots name) := by
  have hone := CString.strncmp_whole (s := ['.']) (by decide) h [] []
  have htwo := CString.strncmp_whole (s := ['.', '.']) (by decide) h [] []
  simp only [List.length_cons, List.length_nil, List.cons_append, List.nil_append] at hone htwo
  rw [isDots, hone]
  simp only [Option.bind_eq_bind, Option.bind_some, htwo, decide_eq_true_eq, dots]
  split_ifs with hdot
  · simp [← hdot]
  · have hne : name ≠ ['.'] := fun heq => hdot heq.symm
    simp [hne, eq_comm]

/-! ## The tree is walked over -/

section Tree

open Listing

variable {σ : Type} (fs : FileSystem Char) (loader : σ → List Char → Option σ)
  (descend : List Char → σ → Option σ) (fresh : Nat → Char)

theorem walkEntries_skip (n k : Nat) {names : List (List Char)}
    (h : ∀ name ∈ names, '\x00' ∉ name) (buffers : PathBuffers) (s : σ) :
    walkEntries fs loader descend n k names buffers s =
      walkEntries fs loader descend n k (names.filter (!dots ·)) buffers s := by
  induction names generalizing buffers s with
  | nil => rfl
  | cons name names ih =>
      have hname := isDots_eq (h name List.mem_cons_self)
      have ih := ih fun name hname => h name (List.mem_cons_of_mem _ hname)
      cases hdots : dots name with
      | true =>
          rw [List.filter_cons_of_neg (by simp [hdots]), walkEntries, hname, hdots]
          exact ih buffers s
      | false =>
          rw [List.filter_cons_of_pos (by simp [hdots])]
          simp only [walkEntries, hname, ih]

variable {fs} {l : Listing Char}

theorem fullbaseDir_entry (songPath name : List Char) (baseDir : Option (List Char)) :
    fullbaseDir songPath (some (entryPath name baseDir)) =
      fullbaseDir songPath baseDir ++ '/' :: name := by
  cases baseDir <;> simp [fullbaseDir, entryPath]

theorem entryPath_entryPath (name path : List Char) (baseDir : Option (List Char)) :
    entryPath path (some (entryPath name baseDir)) = entryPath (name ++ '/' :: path) baseDir := by
  cases baseDir <;> simp [entryPath]

/-- A directory is opened, and its entries are taken one by one. -/
theorem walkFilesystem_succ (hclean : Clean songPath baseDir)
    (hat : l.At fs '/' dots (fullbaseDir songPath baseDir)) (hnul : ∀ name ∈ l.names, '\x00' ∉ name)
    (fuel : Nat) (s : σ) :
    ∃ buffers, PathBuffers.Ready songPath baseDir buffers ∧
      walkFilesystem fs loader fresh songPath (fuel + 1) baseDir s =
        walkEntries fs loader (fun dir => walkFilesystem fs loader fresh songPath fuel (some dir))
          (baseDir.elim 0 List.length) (fullbaseDir songPath baseDir).length l.names buffers s := by
  obtain ⟨names, hread, hnames⟩ := hat.names
  have hskip : ∀ name ∈ names, '\x00' ∉ name := by
    intro name hname
    cases hdots : dots name with
    | true =>
        simp only [dots, decide_eq_true_eq] at hdots
        rcases hdots with rfl | rfl <;> decide
    | false =>
        apply hnul name
        rw [← hnames]
        exact List.mem_filter.mpr ⟨hname, by simp [hdots]⟩
  obtain ⟨full, hfull, hfullReady⟩ := pathBuffer_ready fresh (fullbaseDir songPath baseDir)
  cases baseDir with
  | none =>
      refine ⟨⟨none, full⟩, ⟨fun _ => rfl, nofun, hfullReady⟩, ?_⟩
      rw [← hnames, ← walkEntries_skip fs loader _ _ _ hskip]
      simp only [walkFilesystem, hread, hfull, Option.bind_eq_bind, Option.bind_some]
  | some dir =>
      obtain ⟨file, hfile, hfileReady⟩ := pathBuffer_ready fresh dir
      refine ⟨⟨some file, full⟩, ⟨nofun, ?_, hfullReady⟩, ?_⟩
      · rintro dir' ⟨⟩
        exact ⟨file, rfl, hfileReady⟩
      · rw [← hnames, ← walkEntries_skip fs loader _ _ _ hskip]
        simp only [walkFilesystem, hread, hfull, hfile, Option.bind_eq_bind, Option.bind_some,
          Option.map_some]

/-- The file system could have this name. -/
structure FileName (name : List Char) : Prop where
  length : name.length ≤ 255
  noNul : '\x00' ∉ name
  noDots : dots name = false

/-- One entry of a directory. -/
theorem walkEntries_cons (names : List (List Char)) (hready : buffers.Ready songPath baseDir)
    (hclean : Clean songPath baseDir) (hname : FileName name) (s : σ) :
    ∃ buffers', PathBuffers.Ready songPath baseDir buffers' ∧
      walkEntries fs loader descend (baseDir.elim 0 List.length)
          (fullbaseDir songPath baseDir).length (name :: names) buffers s =
        (match fs.isDir (fullbaseDir songPath baseDir ++ '/' :: name) with
          | none => some s
          | some true => descend (entryPath name baseDir) s
          | some false => loader s (entryPath name baseDir)).bind fun s =>
            walkEntries fs loader descend (baseDir.elim 0 List.length)
              (fullbaseDir songPath baseDir).length names buffers' s := by
  obtain ⟨buffers', hset, hready', hpath, hfull⟩ :=
    setName_ready hready hclean hname.length hname.noNul
  refine ⟨buffers', hready', ?_⟩
  have hentry : walkEntry fs loader descend name buffers' s =
      match fs.isDir (fullbaseDir songPath baseDir ++ '/' :: name) with
        | none => some s
        | some true => descend (entryPath name baseDir) s
        | some false => loader s (entryPath name baseDir) := by
    rw [walkEntry, hfull, Option.bind_eq_bind, Option.bind_some]
    simp only [hpath, Option.bind_some]
  rw [walkEntries, isDots_eq hname.noNul, Option.bind_eq_bind, Option.bind_some, hname.noDots]
  simp only [Bool.false_eq_true, if_false, hset, Option.bind_eq_bind, Option.bind_some, hentry]

/-- The loader is called for each file below the entries, with the path of the directory. -/
theorem walkEntries_listing (hclean : Clean songPath baseDir)
    (hentries : l.Entries fs '/' dots (fullbaseDir songPath baseDir))
    (hnames : ∀ name ∈ l.allNames, FileName name) (hready : buffers.Ready songPath baseDir)
    {fuel : Nat} (hfuel : l.depth ≤ fuel) (s : σ) :
    walkEntries fs loader (fun dir => walkFilesystem fs loader fresh songPath fuel (some dir))
        (baseDir.elim 0 List.length) (fullbaseDir songPath baseDir).length l.names buffers s =
      ((l.paths '/').map fun path => entryPath path baseDir).foldlM loader s := by
  induction l generalizing baseDir buffers fuel s with
  | nil => rfl
  | file name rest ih =>
      obtain ⟨hfile, hrest⟩ := hentries
      obtain ⟨buffers', hready', hcons⟩ := walkEntries_cons loader
        (fun dir => walkFilesystem fs loader fresh songPath fuel (some dir)) rest.names hready
        hclean (hnames name List.mem_cons_self) s
      have ih := ih hclean hrest (fun n hn => hnames n (List.mem_cons_of_mem _ hn)) hready' hfuel
      rw [names, hcons, hfile]
      show ((loader s _).bind fun s => _) = (List.map _ (name :: rest.paths '/')).foldlM loader s
      rw [List.map_cons, List.foldlM_cons]
      simp only [ih]
      rfl
  | dir name sub rest ihsub ihrest =>
      have hdir := hentries.at_dir
      obtain ⟨hisDir, -, -, hrest⟩ := hentries
      obtain ⟨hname, hnames⟩ := List.forall_mem_cons.mp hnames
      obtain ⟨hsub, hrestNames⟩ := List.forall_mem_append.mp hnames
      have hdepth : sub.depth + 1 + rest.depth ≤ fuel := hfuel
      -- the directory is walked over first
      obtain ⟨fuel, rfl⟩ : ∃ m, fuel = m + 1 := ⟨fuel - 1, by omega⟩
      rw [← fullbaseDir_entry] at hdir
      obtain ⟨buffers', hready', hwalk⟩ := walkFilesystem_succ loader fresh
        (hclean.entry hname.noNul) hdir (fun n hn => (hsub n (mem_allNames hn)).noNul) fuel s
      have hbelow := ihsub (hclean.entry hname.noNul) hdir.entries hsub hready'
        (by omega : sub.depth ≤ fuel) s
      -- and then the other entries
      obtain ⟨buffers'', hready'', hcons⟩ := walkEntries_cons loader
        (fun dir => walkFilesystem fs loader fresh songPath (fuel + 1) (some dir))
        rest.names hready hclean hname s
      have hbehind := ihrest hclean hrest hrestNames hready'' (by omega : rest.depth ≤ fuel + 1)
      rw [names, hcons, hisDir]
      show ((walkFilesystem fs loader fresh songPath (fuel + 1) (some _) s).bind fun s => _) =
        (List.map _ ((sub.paths '/').map (name ++ '/' :: ·) ++ rest.paths '/')).foldlM loader s
      rw [hwalk, hbelow, List.map_append, List.map_map, List.foldlM_append]
      simp only [hbehind, entryPath_entryPath]
      rfl

/-- **The loader is called for each file, depth first**, and the walk ends. -/
theorem walkFilesystem_listing (hsong : '\x00' ∉ songPath) (hat : l.At fs '/' dots songPath)
    (hnames : ∀ name ∈ l.allNames, FileName name) {fuel : Nat} (hfuel : l.depth < fuel) (s : σ) :
    walkFilesystem fs loader fresh songPath fuel none s = (l.paths '/').foldlM loader s := by
  obtain ⟨fuel, rfl⟩ : ∃ m, fuel = m + 1 := ⟨fuel - 1, by omega⟩
  have hclean : Clean songPath none := ⟨hsong, nofun⟩
  obtain ⟨buffers, hready, hwalk⟩ := walkFilesystem_succ loader fresh hclean hat
    (fun name hname => (hnames name (mem_allNames hname)).noNul) fuel s
  have hlisting := walkEntries_listing loader fresh hclean hat.entries hnames hready
    (Nat.le_of_lt_succ hfuel) s
  rw [hwalk, hlisting]
  exact congrArg (List.foldlM loader s) (List.map_id _)

end Tree

/-! ## The database grows -/

/-- The array has these songs, and room for as many as it says. -/
structure Database.Holds (db : Database) (songs : List SongRecord) : Prop where
  count : db.songCount = songs.length
  array : db.songs.length = db.songCountAllocated
  room : db.songCount ≤ db.songCountAllocated
  cells : db.songs.take db.songCount = songs.map some

variable {db : Database} {songs : List SongRecord}

/-- The songs as an array that grows. -/
def Database.array (db : Database) : GrowingArray SongRecord :=
  ⟨db.songs, db.songCount, db.songCountAllocated⟩

theorem Database.holds_iff : db.Holds songs ↔ db.array.Holds songs :=
  ⟨fun h => ⟨h.count, h.array, h.room, h.cells⟩, fun h => ⟨h.count, h.memory, h.room, h.cells⟩⟩

theorem Database.array_ensureAlloc (db : Database) :
    db.ensureAlloc.array = db.array.ensureAlloc initialDbSize := by
  unfold Database.ensureAlloc GrowingArray.ensureAlloc
  split
  · next hfull => exact (if_pos hfull).symm
  · next hroom => exact (if_neg hroom).symm

theorem Database.map_addSong (db : Database) (song : SongRecord) :
    (db.addSong song).map Database.array = db.array.push song := by
  unfold Database.addSong GrowingArray.push
  split
  · next hcell => exact (if_pos hcell).symm
  · next hfull => exact (if_neg hfull).symm

/-- **There is a cell to write to**, and nothing is lost. -/
theorem Database.Holds.add (h : db.Holds songs) (song : SongRecord) :
    ∃ db', db.ensureAlloc.addSong song = some db' ∧ db'.Holds (songs ++ [song]) := by
  obtain ⟨array, hpush, hholds⟩ :=
    (Database.holds_iff.mp h).add (by decide : 0 < initialDbSize) song
  rw [← Database.array_ensureAlloc, ← Database.map_addSong] at hpush
  obtain ⟨db', hadd, rfl⟩ := Option.map_eq_some_iff.mp hpush
  exact ⟨db', hadd, Database.holds_iff.mpr hholds⟩

variable {context : LoadContext}

/-- One call of the loader. -/
theorem Database.Holds.loadFile (h : db.Holds songs) (hmagic : context.useMagic = false)
    (hbefore : ∀ name, Unmatched (context.before name)) (filename : List Char) :
    ∃ db', db.loadFile context false filename = some db' ∧
      db'.Holds (songs ++ ([filename].filter isMusic).map (SongRecord.loadFile context.dbPaths)) := by
  have htype : context.getSongType filename = some (suffixType filename) := by
    rw [LoadContext.getSongType, hmagic]
    exact getSongType_name (hbefore filename) _ filename
  have hload : db.loadFile context false filename =
      if isMusic filename then
        db.ensureAlloc.addSong (SongRecord.loadFile context.dbPaths filename)
      else some db := by
    simp only [Database.loadFile, htype, Bool.false_eq_true, if_false, Option.bind_eq_bind,
      Option.bind_some, or_false, suffixType_ne_unknown]
  rw [hload, List.filter_singleton]
  cases isMusic filename with
  | true => exact h.add _
  | false => exact ⟨db, rfl, by simpa using h⟩

/-- Call after call. -/
theorem Database.Holds.loadFiles (h : db.Holds songs) (hmagic : context.useMagic = false)
    (hbefore : ∀ name, Unmatched (context.before name)) (filenames : List (List Char)) :
    ∃ db', filenames.foldlM (Database.loadFile context false) db = some db' ∧
      db'.Holds (songs ++ (filenames.filter isMusic).map (SongRecord.loadFile context.dbPaths)) := by
  induction filenames generalizing db songs with
  | nil => exact ⟨db, rfl, by simpa using h⟩
  | cons filename filenames ih =>
      obtain ⟨mid, hmid, hmidHolds⟩ := h.loadFile hmagic hbefore filename
      obtain ⟨db', hdb', hholds⟩ := ih hmidHolds
      refine ⟨db', ?_, ?_⟩
      · rw [List.foldlM_cons, hmid, Option.bind_eq_bind, Option.bind_some, hdb']
      · have hfilter : (filename :: filenames).filter isMusic =
            [filename].filter isMusic ++ filenames.filter isMusic := by
          rw [← List.filter_append]
          rfl
        rwa [hfilter, List.map_append, ← List.append_assoc]

/-- **The music is loaded completely and once**: the loader is called for the files of the tree in
their order, and after any of these calls the database has the music among them, in an array that
has room for it. -/
theorem walkFilesystem_loadFile (fs : FileSystem Char) (fresh : Nat → Char) (context : LoadContext)
    (l : Listing Char) (hmagic : context.useMagic = false)
    (hbefore : ∀ name, Unmatched (context.before name))
    (hsong : '\x00' ∉ context.dbPaths .basenameSong)
    (hat : l.At fs '/' dots (context.dbPaths .basenameSong))
    (hnames : ∀ name ∈ l.allNames, FileName name) :
    (∃ n, ∀ fuel, n ≤ fuel → ∃ db,
      walkFilesystem fs (Database.loadFile context false) fresh (context.dbPaths .basenameSong) fuel
          none .empty = some db ∧
        (l.paths '/').foldlM (Database.loadFile context false) .empty = some db ∧
        db.Holds ((l.select '/' isMusic).map (SongRecord.loadFile context.dbPaths))) ∧
      ∀ calls, calls <+: l.paths '/' → ∃ db,
        calls.foldlM (Database.loadFile context false) .empty = some db ∧
          db.Holds ((calls.filter isMusic).map (SongRecord.loadFile context.dbPaths)) := by
  have hempty : Database.empty.Holds [] := ⟨rfl, rfl, Nat.le_refl 0, rfl⟩
  constructor
  · refine ⟨l.depth + 1, fun fuel hfuel => ?_⟩
    obtain ⟨db, hdb, hholds⟩ := hempty.loadFiles hmagic hbefore (l.paths '/')
    refine ⟨db, ?_, hdb, ?_⟩
    · rw [walkFilesystem_listing _ fresh hsong hat hnames hfuel, hdb]
    · rwa [List.nil_append, Listing.filter_paths isMusic_path] at hholds
  · intro calls _
    exact hempty.loadFiles hmagic hbefore calls

/-- A song, and a directory with another song and a picture. -/
def album : Listing Char :=
  .file "a.mp3".toList (.dir "d".toList (.file "b.OGG".toList (.file "c.png".toList .nil)) .nil)

def albumSystem : FileSystem Char where
  readDir := fun path =>
    if path = "/music".toList then
      some [".".toList, "..".toList, "a.mp3".toList, "d".toList]
    else if path = "/music/d".toList then
      some [".".toList, "b.OGG".toList, "..".toList, "c.png".toList]
    else none
  isDir := fun path => some (path = "/music/d".toList)

def albumContext : LoadContext where
  dbPaths := fun _ => "/music".toList
  useMagic := false
  before := fun _ _ => some 'x'
  contents := fun _ => none

theorem walkFilesystem_loadFile_album :
    (∃ n, ∀ fuel, n ≤ fuel → ∃ db,
      walkFilesystem albumSystem (Database.loadFile albumContext false) (fun _ => 'x')
          "/music".toList fuel none .empty = some db ∧
        (album.paths '/').foldlM (Database.loadFile albumContext false) .empty = some db ∧
        db.Holds (["a.mp3".toList, "d/b.OGG".toList].map
          (SongRecord.loadFile albumContext.dbPaths))) ∧
      ∀ calls, calls <+: album.paths '/' → ∃ db,
        calls.foldlM (Database.loadFile albumContext false) .empty = some db ∧
          db.Holds ((calls.filter isMusic).map (SongRecord.loadFile albumContext.dbPaths)) := by
  have hat : album.At albumSystem '/' dots "/music".toList :=
    ⟨⟨_, rfl, rfl⟩, rfl, rfl, ⟨_, rfl, rfl⟩, ⟨rfl, rfl, trivial⟩, trivial⟩
  refine walkFilesystem_loadFile albumSystem (fun _ => 'x') albumContext album rfl ?_ (by decide) hat
    ?_
  · exact fun _ _ _ => ⟨'x', rfl, by decide⟩
  · intro name hname
    have hnames : ∀ name ∈ album.allNames,
        name.length ≤ 255 ∧ '\x00' ∉ name ∧ dots name = false := by decide
    obtain ⟨hlength, hnul, hdots⟩ := hnames name hname
    exact ⟨hlength, hnul, hdots⟩

end Squash
