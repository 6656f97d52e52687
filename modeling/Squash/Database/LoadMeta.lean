import Squash.Database.Record
import Squash.Database.SongType
import Squash.Database.Tags

/-!
# What `load_meta_data` writes

On the empeg the music may be the original player's, where a song with a name that ends in 0 has its
tags in a file with a name that ends in 1 instead. `load_meta_data` reads that file in place of an
`.info` file, and `metaname` stays the name of it until the end, where the tags that come from the
music file are saved. So a song of the original player's whose tags could not be read gets a new file
among them, and `Overwrite_Info` replaces those that there are (`loadMetaData_onlyInfo_iff`).

The model has the calls that change files next to the song. The program ends with `none`.
-/

namespace Squash

open Pcm (Byte)

/-- What the Makefile is told. -/
structure Build where
  empeg : Bool
  useMagic : Bool
  noVorbisComment : Bool
  noId3lib : Bool
  deriving DecidableEq, Repr

/-- A music file, as its bytes are seen here and by the libraries. -/
structure MusicFile where
  bytes : List Byte
  userComments : List (List Char)
  frames : List Id3Frame
  blocks : List FlacMetadata

/-- The files, and what can be created. -/
structure Disk where
  contents : Files
  music : List Char → Option MusicFile
  /-- `fopen( path, "w" )` does not fail. -/
  opens : List Char → Bool
  /-- `create_path( dir )` does not fail. -/
  creates : List Char → Bool

/-- The calls that change files. -/
inductive FileCall where
  | createPath (dir : List Char)
  /-- `fopen( path, "w" )`, and the text that is written, if that goes well -/
  | write (path : List Char) (text : Option (List Char))
  deriving DecidableEq, Repr

/-- `ogg_load_meta`, `mp3_load_meta` and `flac_load_meta`: what they insert. Only id3lib does not
mind when there is no file. -/
def Disk.loadMeta (build : Build) (disk : Disk) (type : SongType) (filename : List Char) :
    Option (List AddData) :=
  match type with
  | .ogg =>
    if build.noVorbisComment then some []
    else (disk.music filename).map fun file => oggLoadMeta file.userComments
  | .mp3 =>
    if build.noId3lib then some []
    else some ((disk.music filename).elim [] fun file => mp3LoadMeta file.frames)
  | .flac => (disk.music filename).map fun file => file.blocks.flatMap flacMetadataCallbackLoadMeta
  | .unknown => some []

/-- The two `#ifdef`s around the saving. -/
def Build.savesType (build : Build) (type : SongType) : Bool :=
  (!build.noVorbisComment || type != .ogg) && (!build.noId3lib || type != .mp3)

/-- The name ends in 0. -/
def SongRecord.EndsInZero (song : SongRecord) : Prop :=
  song.filename[song.filename.length - 1]? = some '0'

instance (song : SongRecord) : Decidable song.EndsInZero :=
  inferInstanceAs (Decidable (song.filename[song.filename.length - 1]? = some '0'))

/-- `song->filename[ length - 1 ] = c`. -/
def SongRecord.setLast (song : SongRecord) (c : Char) : SongRecord :=
  { song with filename := song.filename.set (song.filename.length - 1) c }

/-- The choice of `metaname`. The name of the song is changed for a moment. -/
def SongRecord.metaname (build : Build) (song : SongRecord) : SongRecord × List Char :=
  if build.empeg = true ∧ song.EndsInZero then
    let song := song.setLast '1'
    let metaname := buildFullfilename song.toInfo .basenameSong
    (song.setLast '0', metaname)
  else (song, buildFullfilename song.toInfo .basenameMeta)

/-- Parse the file, unless the tags are to come from the music file. -/
def SongRecord.parseInfo (config : InfoConfig) (info : Option (List Char)) (song : SongRecord) :
    Option (SongRecord × Bool) :=
  if config.dbOverwriteinfo && config.dbSaveinfo then some (song, false)
  else (parseMeta info (song.metaKeys.getD [])).map fun (metaKeys, success) =>
    ({ song with metaKeys := some metaKeys }, success)

/-- `song->song_type`, which is found out now if it is not known. -/
def SongRecord.findType (build : Build) (disk : Disk) (before : Int → Option Char)
    (song : SongRecord) : Option SongType :=
  song.songType.or (getSongType build.useMagic before
    ((disk.music (buildFullfilename song.toInfo .basenameSong)).map MusicFile.bytes) song.filename)

/-- The directory of `metaname`, if there is a slash in it. -/
def dirname (metaname : List Char) : Option (List Char) :=
  if '/' ∈ metaname then some (metaname.rdropWhile (· ≠ '/')).dropLast else none

/-- From `config.db_saveinfo` on. -/
def SongRecord.saveInfo (build : Build) (config : InfoConfig) (disk : Disk) (metaname : List Char)
    (type : SongType) (song : SongRecord) : List FileCall × Option SongRecord :=
  if config.dbSaveinfo && build.savesType type then
    let calls := ((dirname metaname).map FileCall.createPath).toList
    if !(dirname metaname).all disk.creates then (calls, none)
    else if disk.contents metaname = none ∨ config.dbOverwriteinfo = true then
      if disk.opens metaname then
        let text := metaText (song.metaKeys.getD [])
        (calls ++ [.write metaname text], text.map fun _ => song)
      else (calls ++ [.write metaname none], none)
    else (calls, some song)
  else ([], some song)

/-- The part after the file did not load: the tags come from the music file, and are saved. -/
def SongRecord.loadFromMusic (build : Build) (config : InfoConfig) (disk : Disk)
    (before : Int → Option Char) (metaname : List Char) (song : SongRecord) :
    List FileCall × Option SongRecord :=
  match song.findType build disk before with
  | none => ([], none)
  | some type =>
    if type = .unknown then ([], some { song with songType := some type })
    else
      match disk.loadMeta build type (buildFullfilename song.toInfo .basenameSong) with
      | none => ([], none)
      | some calls =>
        let metaKeys := song.metaKeys.map fun metaKeys => calls.foldl insertMetaData metaKeys
        saveInfo build config disk metaname type { song with metaKeys, songType := some type }

/-- `load_meta_data( song, TYPE_META )`. -/
def SongRecord.loadMetaData (build : Build) (config : InfoConfig) (disk : Disk)
    (before : Int → Option Char) (song : SongRecord) : List FileCall × Option SongRecord :=
  let song := { song with metaKeys := some (song.metaKeys.getD []) }
  let (song, metaname) := song.metaname build
  match song.parseInfo config (disk.contents metaname) with
  | none => ([], none)
  | some (song, success) =>
    if success then ([], some song) else song.loadFromMusic build config disk before metaname

/-! ## The file that is written -/

variable {build : Build} {config : InfoConfig} {disk : Disk} {before : Int → Option Char}
  {song : SongRecord} {metaname : List Char} {type : SongType}

/-- The tags come from the music file, and nothing keeps them from being saved. -/
structure SongRecord.Saves (build : Build) (config : InfoConfig) (disk : Disk)
    (before : Int → Option Char) (metaname : List Char) (song : SongRecord) : Prop where
  saveinfo : config.dbSaveinfo = true
  file : disk.contents metaname = none ∨ config.dbOverwriteinfo = true
  directory : (dirname metaname).all disk.creates = true
  type : ∃ type calls, song.findType build disk before = some type ∧ type ≠ .unknown ∧
    build.savesType type = true ∧
    disk.loadMeta build type (buildFullfilename song.toInfo .basenameSong) = some calls

theorem setLast_concat {name : List Char} {d : Char} (h : song.filename = name ++ [d]) (c : Char) :
    (song.setLast c).filename = name ++ [c] := by
  simp [SongRecord.setLast, h]

theorem setLast_setLast (h : song.EndsInZero) : (song.setLast '1').setLast '0' = song := by
  obtain ⟨hlt, hzero⟩ := List.getElem?_eq_some_iff.mp h
  have hname : song.filename.set (song.filename.length - 1) '0' = song.filename := by
    rw [← hzero]
    exact List.set_getElem_self hlt
  simp only [SongRecord.setLast, List.length_set, List.set_set, hname]

/-- The name of the song is itself again. -/
theorem metaname_fst (build : Build) (song : SongRecord) : (song.metaname build).1 = song := by
  unfold SongRecord.metaname
  split
  · next h => exact setLast_setLast h.2
  · rfl

theorem parseInfo_eq (config : InfoConfig) (info : Option (List Char)) (song : SongRecord) :
    ∃ metaKeys, song.parseInfo config info = some ({ song with metaKeys },
      decide ((config.dbOverwriteinfo && config.dbSaveinfo) = false ∧ info.getD [] ≠ [])) := by
  unfold SongRecord.parseInfo
  by_cases hover : (config.dbOverwriteinfo && config.dbSaveinfo) = true
  · exact ⟨song.metaKeys, by simp [hover]⟩
  · obtain ⟨loaded, hparse⟩ := parseMeta_eq info (song.metaKeys.getD [])
    exact ⟨some loaded, by simp [hover, hparse]⟩

/-- What the song has after the parsing is what `loadMetaInfo` goes on with. -/
theorem parseInfo_loaded (config : InfoConfig) (info : Option (List Char)) (song : SongRecord)
    (metaKeys : List MetaKey) :
    ∃ loaded success, SongRecord.parseInfo config info { song with metaKeys := some metaKeys } =
        some ({ song with metaKeys := some loaded }, success) ∧
      (if (config.dbOverwriteinfo && config.dbSaveinfo) = true then some (metaKeys, false)
        else parseMeta info metaKeys) = some (loaded, success) := by
  unfold SongRecord.parseInfo
  by_cases hover : (config.dbOverwriteinfo && config.dbSaveinfo) = true
  · exact ⟨metaKeys, false, by rw [if_pos hover], by rw [if_pos hover]⟩
  · obtain ⟨loaded, hparse⟩ := parseMeta_eq info metaKeys
    refine ⟨loaded, _, ?_, by rw [if_neg hover, hparse]⟩
    rw [if_neg hover]
    show (parseMeta info metaKeys).map _ = _
    rw [hparse]
    rfl

/-- The last part writes one file at most. -/
theorem mem_saveInfo (path : List Char) :
    (∃ text, .write path text ∈ (song.saveInfo build config disk metaname type).1) ↔
      path = metaname ∧ config.dbSaveinfo = true ∧ build.savesType type = true ∧
        (dirname metaname).all disk.creates = true ∧
        (disk.contents metaname = none ∨ config.dbOverwriteinfo = true) := by
  have hdirs : ∀ text, .write path text ∉ ((dirname metaname).map FileCall.createPath).toList := by
    simp
  unfold SongRecord.saveInfo
  by_cases hsave : (config.dbSaveinfo && build.savesType type) = true
  · obtain ⟨hsaveinfo, htype⟩ := (Bool.and_eq_true _ _).mp hsave
    by_cases hdir : (dirname metaname).all disk.creates = true
    · by_cases hfile : disk.contents metaname = none ∨ config.dbOverwriteinfo = true
      · by_cases hopens : disk.opens metaname = true
        · simp [hsaveinfo, htype, hdir, hfile, hopens]
        · simp [hsaveinfo, htype, hdir, hfile, hopens]
      · simp [hsaveinfo, htype, hdir, hfile]
    · simp [hsaveinfo, htype, hdir]
  · rw [if_neg hsave]
    constructor
    · rintro ⟨text, hmem⟩
      cases hmem
    · rintro ⟨-, hsaveinfo, htype, -⟩
      exact absurd ((Bool.and_eq_true _ _).mpr ⟨hsaveinfo, htype⟩) hsave

theorem saveInfo_snd {song' : SongRecord}
    (h : song' ∈ (song.saveInfo build config disk metaname type).2) : song' = song := by
  unfold SongRecord.saveInfo at h
  by_cases hsave : (config.dbSaveinfo && build.savesType type) = true
  · by_cases hdir : (dirname metaname).all disk.creates = true
    · by_cases hfile : disk.contents metaname = none ∨ config.dbOverwriteinfo = true
      · by_cases hopens : disk.opens metaname = true
        · simp [hsave, hdir, hfile, hopens] at h
          exact h.2.symm
        · simp [hsave, hdir, hfile, hopens] at h
      · simp [hsave, hdir, hfile] at h
        exact h.symm
    · simp [hsave, hdir] at h
  · simp [hsave] at h
    exact h.symm

/-- If the tags come from the music file, one file is written at most. -/
theorem mem_loadFromMusic (path : List Char) :
    (∃ text, .write path text ∈ (song.loadFromMusic build config disk before metaname).1) ↔
      path = metaname ∧ song.Saves build config disk before metaname := by
  unfold SongRecord.loadFromMusic
  cases htype : song.findType build disk before with
  | none =>
      refine iff_of_false (by simp) ?_
      rintro ⟨-, hsaves⟩
      obtain ⟨type, calls, hfound, -⟩ := hsaves.type
      cases htype.symm.trans hfound
  | some type =>
      by_cases hunknown : type = .unknown
      · refine iff_of_false (by simp [hunknown]) ?_
        rintro ⟨-, hsaves⟩
        obtain ⟨type, calls, hfound, hknown, -⟩ := hsaves.type
        cases htype.symm.trans hfound
        exact absurd hunknown hknown
      simp only [hunknown, if_false]
      cases hcalls : disk.loadMeta build type (buildFullfilename song.toInfo .basenameSong) with
      | none =>
          refine iff_of_false (by simp) ?_
          rintro ⟨-, hsaves⟩
          obtain ⟨type, calls, hfound, -, -, hload⟩ := hsaves.type
          cases htype.symm.trans hfound
          cases hcalls.symm.trans hload
      | some calls =>
          simp only [mem_saveInfo]
          constructor
          · rintro ⟨hpath, hsaveinfo, hsaved, hdir, hfile⟩
            exact ⟨hpath, hsaveinfo, hfile, hdir, type, calls, htype, hunknown, hsaved, hcalls⟩
          · rintro ⟨hpath, hsaves⟩
            obtain ⟨type, calls, hfound, -, hsaved, -⟩ := hsaves.type
            cases htype.symm.trans hfound
            exact ⟨hpath, hsaves.saveinfo, hsaved, hsaves.directory, hsaves.file⟩

theorem loadFromMusic_snd {song' : SongRecord}
    (h : song' ∈ (song.loadFromMusic build config disk before metaname).2) :
    song'.filename = song.filename := by
  unfold SongRecord.loadFromMusic at h
  cases htype : song.findType build disk before with
  | none => simp [htype] at h
  | some type =>
      simp only [htype] at h
      split at h
      · cases h
        rfl
      · split at h
        · cases h
        · rw [saveInfo_snd h]

theorem metaname_snd (build : Build) (song : SongRecord) (metaKeys : Option (List MetaKey)) :
    ({ song with metaKeys }.metaname build).2 = (song.metaname build).2 := by
  unfold SongRecord.metaname
  by_cases h : build.empeg = true ∧ song.EndsInZero
  · rw [if_pos h, if_pos (show _ ∧ SongRecord.EndsInZero { song with metaKeys } from h)]
    rfl
  · rw [if_neg h, if_neg (show ¬ (_ ∧ SongRecord.EndsInZero { song with metaKeys }) from h)]
    rfl

/-- The tags come from the music file when they are to be saved in any case, and when the file that
was chosen does not exist or is empty. -/
theorem loadMetaData_branches (build : Build) (config : InfoConfig) (disk : Disk)
    (before : Int → Option Char) (song : SongRecord) : ∃ metaKeys,
    song.loadMetaData build config disk before =
      if (config.dbOverwriteinfo && config.dbSaveinfo) = false ∧
          (disk.contents (song.metaname build).2).getD [] ≠ [] then
        ([], some { song with metaKeys })
      else
        SongRecord.loadFromMusic build config disk before (song.metaname build).2
          { song with metaKeys } := by
  obtain ⟨metaKeys, hparse⟩ := parseInfo_eq config (disk.contents (song.metaname build).2)
    { song with metaKeys := some (song.metaKeys.getD []) }
  refine ⟨metaKeys, ?_⟩
  unfold SongRecord.loadMetaData
  simp only [metaname_fst, metaname_snd, hparse, decide_eq_true_eq]

/-- **One file is written at most**, the one that was chosen to be read. -/
theorem mem_loadMetaData (path : List Char) :
    (∃ text, .write path text ∈ (song.loadMetaData build config disk before).1) ↔
      path = (song.metaname build).2 ∧
        song.Saves build config disk before (song.metaname build).2 := by
  obtain ⟨metaKeys, hbranches⟩ := loadMetaData_branches build config disk before song
  rw [hbranches]
  by_cases hsuccess : (config.dbOverwriteinfo && config.dbSaveinfo) = false ∧
      (disk.contents (song.metaname build).2).getD [] ≠ []
  · rw [if_pos hsuccess]
    refine iff_of_false (by simp) ?_
    -- the file is there, and is not overwritten
    rintro ⟨-, hsaves⟩
    obtain ⟨hread, hne⟩ := hsuccess
    rcases hsaves.file with hnone | hover
    · rw [hnone] at hne
      exact absurd rfl hne
    · rw [hover, hsaves.saveinfo] at hread
      cases hread
  · rw [if_neg hsuccess, mem_loadFromMusic]
    exact ⟨fun ⟨hpath, hsaves⟩ => ⟨hpath, ⟨hsaves.saveinfo, hsaves.file, hsaves.directory, hsaves.type⟩⟩,
      fun ⟨hpath, hsaves⟩ => ⟨hpath, ⟨hsaves.saveinfo, hsaves.file, hsaves.directory, hsaves.type⟩⟩⟩

/-! ## The tags -/

/-- The tags are saved, if they can be written. -/
theorem metaKeys_saveInfo (hopens : ∀ path, disk.opens path = true)
    (hcreates : ∀ dir, disk.creates dir = true) (htype : build.savesType type = true)
    {metaKeys : List MetaKey} (hkeys : song.metaKeys = some metaKeys) :
    (song.saveInfo build config disk metaname type).2.bind SongRecord.metaKeys =
      if config.dbSaveinfo = true ∧
          (disk.contents metaname = none ∨ config.dbOverwriteinfo = true) then
        (metaText metaKeys).map fun _ => metaKeys
      else some metaKeys := by
  have hdir : (dirname metaname).all disk.creates = true := by
    cases dirname metaname with
    | none => rfl
    | some dir => exact hcreates dir
  unfold SongRecord.saveInfo
  by_cases hsave : config.dbSaveinfo = true
  · by_cases hfile : disk.contents metaname = none ∨ config.dbOverwriteinfo = true
    · cases htext : metaText metaKeys with
      | none => simp [hsave, htype, hdir, hfile, hopens, hkeys, htext]
      | some text => simp [hsave, htype, hdir, hfile, hopens, hkeys, htext]
    · simp [hsave, htype, hdir, hfile, hkeys]
  · simp [hsave, hkeys]

/-- What the libraries find in the file, as far as the type of the song is known. -/
structure FindsTags (build : Build) (disk : Disk) (before : Int → Option Char) (song : SongRecord)
    (tags : Option SongTags) : Prop where
  unknown : tags = none → song.findType build disk before = some .unknown
  known : ∀ t ∈ tags, ∃ type ≠ .unknown, song.findType build disk before = some type ∧
    build.savesType type = true ∧
    disk.loadMeta build type (buildFullfilename song.toInfo .basenameSong) = some t.calls

/-- What `loadMetaInfo` goes by after it looked at the file. -/
theorem loadMetaInfo_map {tags : Option SongTags} {info : Option (List Char)}
    {metaKeys loaded : List MetaKey} {success : Bool}
    (hloaded : (if (config.dbOverwriteinfo && config.dbSaveinfo) = true then some (metaKeys, false)
      else parseMeta info metaKeys) = some (loaded, success)) :
    (loadMetaInfo config tags info metaKeys).map Prod.fst =
      match tags with
      | none => some loaded
      | some tags =>
        if success then some loaded
        else if config.dbSaveinfo = true ∧ (info = none ∨ config.dbOverwriteinfo = true) then
          (metaText (tags.calls.foldl insertMetaData loaded)).map fun _ =>
            tags.calls.foldl insertMetaData loaded
        else some (tags.calls.foldl insertMetaData loaded) := by
  unfold loadMetaInfo
  by_cases hover : (config.dbOverwriteinfo && config.dbSaveinfo) = true
  · rw [if_pos hover] at hloaded
    cases hloaded
    cases tags with
    | none => simp [hover]
    | some tags =>
        obtain ⟨hoverwrite, hsaveinfo⟩ := (Bool.and_eq_true _ _).mp hover
        cases htext : metaText (tags.calls.foldl insertMetaData metaKeys) with
        | none => simp [hoverwrite, hsaveinfo, htext]
        | some text => simp [hoverwrite, hsaveinfo, htext]
  · rw [if_neg hover] at hloaded
    rw [if_neg hover, hloaded]
    cases success with
    | true => cases tags <;> rfl
    | false =>
        cases tags with
        | none => rfl
        | some tags =>
            by_cases hsave : config.dbSaveinfo = true ∧
                (info = none ∨ config.dbOverwriteinfo = true)
            · cases htext : metaText (tags.calls.foldl insertMetaData loaded) with
              | none => simp [hsave, htext]
              | some text => simp [hsave, htext]
            · simp [hsave]

theorem loadFromMusic_unknown (htype : song.findType build disk before = some .unknown) :
    song.loadFromMusic build config disk before metaname =
      ([], some { song with songType := some .unknown }) := by
  simp only [SongRecord.loadFromMusic, htype, if_true]

theorem loadFromMusic_known (htype : song.findType build disk before = some type)
    (hknown : type ≠ .unknown) {calls : List AddData}
    (hcalls : disk.loadMeta build type (buildFullfilename song.toInfo .basenameSong) = some calls) :
    song.loadFromMusic build config disk before metaname =
      SongRecord.saveInfo build config disk metaname type
        { song with
          metaKeys := song.metaKeys.map fun metaKeys => calls.foldl insertMetaData metaKeys
          songType := some type } := by
  simp only [SongRecord.loadFromMusic, htype, hknown, if_false, hcalls]

/-- **Loading the tags of a song of one's own** is `loadMetaInfo`, with the song's `.info` file. -/
theorem loadMetaData_metaKeys (hopens : ∀ path, disk.opens path = true)
    (hcreates : ∀ dir, disk.creates dir = true) (hown : ¬ (build.empeg = true ∧ song.EndsInZero))
    {tags : Option SongTags} (htags : FindsTags build disk before song tags) :
    (song.loadMetaData build config disk before).2.bind SongRecord.metaKeys =
      (loadMetaInfo config tags (disk.contents (buildFullfilename song.toInfo .basenameMeta))
        (song.metaKeys.getD [])).map Prod.fst := by
  have hmetaname : (song.metaname build).2 = buildFullfilename song.toInfo .basenameMeta := by
    rw [SongRecord.metaname, if_neg hown]
  obtain ⟨loaded, success, hparse, hloaded⟩ := parseInfo_loaded config
    (disk.contents (song.metaname build).2) song (song.metaKeys.getD [])
  rw [← hmetaname, loadMetaInfo_map hloaded]
  unfold SongRecord.loadMetaData
  simp only [metaname_fst, metaname_snd, hparse]
  cases success with
  | true => cases tags <;> rfl
  | false =>
      simp only [Bool.false_eq_true, if_false]
      cases tags with
      | none =>
          have htype : SongRecord.findType build disk before { song with metaKeys := some loaded } =
              some .unknown := htags.unknown rfl
          rw [loadFromMusic_unknown htype]
          rfl
      | some tags =>
          obtain ⟨type, hknown, hfound, hsaves, hcalls⟩ := htags.known tags rfl
          have htype : SongRecord.findType build disk before { song with metaKeys := some loaded } =
              some type := hfound
          rw [loadFromMusic_known htype hknown hcalls]
          exact metaKeys_saveInfo hopens hcreates hsaves rfl

/-! ## Whose file it is -/

/-- The file that has the tags of a song of the original player's. -/
def SongRecord.originalInfo (song : SongRecord) : List Char :=
  buildFullfilename (song.setLast '1').toInfo .basenameSong

/-- It is not the `.info` file, whatever the song is called. -/
theorem originalInfo_ne (h : song.EndsInZero) :
    song.originalInfo ≠ buildFullfilename song.toInfo .basenameMeta := by
  obtain ⟨hlt, -⟩ := List.getElem?_eq_some_iff.mp h
  have hone : song.originalInfo.getLast? = some '1' := by
    obtain ⟨name, c, hname⟩ := List.eq_nil_or_concat' song.filename |>.resolve_left
      (List.ne_nil_of_length_pos (Nat.zero_lt_of_lt hlt))
    have hpath : song.originalInfo = (song.basename .basenameSong ++ '/' :: name) ++ ['1'] := by
      show song.basename .basenameSong ++ '/' :: (song.setLast '1').filename = _
      rw [setLast_concat hname, List.append_assoc]
      rfl
    rw [hpath, List.getLast?_concat]
  have hinfo : (buildFullfilename song.toInfo .basenameMeta).getLast? = some 'o' := by
    have hpath : buildFullfilename song.toInfo .basenameMeta =
        (song.basename .basenameMeta ++ '/' :: song.filename ++ ".inf".toList) ++ ['o'] := by
      show song.basename .basenameMeta ++ '/' :: song.filename ++ '.' :: "info".toList = _
      rw [List.append_assoc, List.append_assoc, List.append_assoc]
      rfl
    rw [hpath, List.getLast?_concat]
  intro heq
  rw [heq, hinfo] at hone
  cases hone

/-- Of the files only the song's own `.info` file is created or overwritten, and the song has the
name that it had. -/
structure OnlyInfo (song : SongRecord) (result : List FileCall × Option SongRecord) : Prop where
  writes : ∀ path text, .write path text ∈ result.1 →
    path = buildFullfilename song.toInfo .basenameMeta
  filename : ∀ song' ∈ result.2, song'.filename = song.filename

theorem loadMetaData_filename {song' : SongRecord}
    (h : song' ∈ (song.loadMetaData build config disk before).2) :
    song'.filename = song.filename := by
  obtain ⟨metaKeys, hbranches⟩ := loadMetaData_branches build config disk before song
  rw [hbranches] at h
  split at h
  · cases h
    rfl
  · exact (loadFromMusic_snd h).trans rfl

theorem loadFromMusic_songType {song' : SongRecord} (hknown : song.songType = some type)
    (h : song' ∈ (song.loadFromMusic build config disk before metaname).2) :
    song'.songType = some type := by
  have htype : song.findType build disk before = some type := by
    rw [SongRecord.findType, hknown]
    rfl
  unfold SongRecord.loadFromMusic at h
  simp only [htype] at h
  split at h
  · cases h
    rfl
  · split at h
    · cases h
    · rw [saveInfo_snd h]

/-- A type that is known stays. -/
theorem loadMetaData_songType {song' : SongRecord} (hknown : song.songType = some type)
    (h : song' ∈ (song.loadMetaData build config disk before).2) :
    song'.songType = some type := by
  obtain ⟨metaKeys, hbranches⟩ := loadMetaData_branches build config disk before song
  rw [hbranches] at h
  split at h
  · cases h
    exact hknown
  · have hkept : ({ song with metaKeys } : SongRecord).songType = some type := hknown
    exact loadFromMusic_songType hkept h

/-- **The original player's files stay as they are** unless the song is one of its and has its tags
saved. -/
theorem loadMetaData_onlyInfo_iff (build : Build) (config : InfoConfig) (disk : Disk)
    (before : Int → Option Char) (song : SongRecord) :
    OnlyInfo song (song.loadMetaData build config disk before) ↔
      ¬ (build.empeg = true ∧ song.EndsInZero ∧
        song.Saves build config disk before song.originalInfo) := by
  constructor
  · rintro honly ⟨hempeg, hzero, hsaves⟩
    have hmetaname : (song.metaname build).2 = song.originalInfo := by
      rw [SongRecord.metaname, if_pos ⟨hempeg, hzero⟩]
      rfl
    obtain ⟨text, hwrite⟩ := (mem_loadMetaData song.originalInfo).mpr
      ⟨hmetaname.symm, hmetaname.symm ▸ hsaves⟩
    exact originalInfo_ne hzero (honly.writes _ text hwrite)
  · intro hno
    refine ⟨fun path text hwrite => ?_, fun song' hsong' => loadMetaData_filename hsong'⟩
    obtain ⟨rfl, hsaves⟩ := (mem_loadMetaData path).mp ⟨text, hwrite⟩
    unfold SongRecord.metaname at hsaves ⊢
    split
    · next hzero =>
        rw [if_pos hzero] at hsaves
        exact absurd ⟨hzero.1, hzero.2, hsaves⟩ hno
    · rfl

/-- What `doc/empeg/INSTALL` recommends. -/
def empegBuild : Build := ⟨true, true, false, true⟩

def drive : BasenameType → List Char
  | .basenameSong => "/drive0".toList
  | .basenameMeta => "/drive0/info".toList
  | .basenameStat => "/drive0/stat".toList

/-- A FLAC file of the original player's, and its tags. -/
def fidsDisk : Disk where
  contents := fun path =>
    if path = "/drive0/fids/1231".toList then some "title=Song\nduration=200000\n".toList else none
  music := fun path =>
    if path = "/drive0/fids/1230".toList then
      some ⟨[102, 76, 97, 67], [], [], [.vorbisComment ["title=Song".toList]]⟩
    else none
  opens := fun _ => true
  creates := fun _ => true

/-- With `Overwrite_Info` the file of the original player's is overwritten, and loses the length. -/
theorem not_loadMetaData_onlyInfo :
    ¬ ∀ build config disk before song, build.empeg = true →
      OnlyInfo song (song.loadMetaData build config disk before) := by
  intro h
  have honly := h empegBuild ⟨true, true⟩ fidsDisk (fun _ => none)
    (SongRecord.loadFile drive "fids/1230".toList) rfl
  have hwrite : .write "/drive0/fids/1231".toList (some "title=Song\n\n".toList) ∈
      ((SongRecord.loadFile drive "fids/1230".toList).loadMetaData empegBuild ⟨true, true⟩ fidsDisk
        fun _ => none).1 := by
    decide
  exact absurd (honly.writes _ _ hwrite) (by decide)

end Squash
