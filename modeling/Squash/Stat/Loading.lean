import Squash.Foundations.Transition
import Squash.Stat.Effects

/-!
# Statistics around the load

`setup_database` loads the statistics song by song while the player and the user may already give
feedback and adjust ratings. `statStep` takes these operations in any order, one song's load at a
time; songs are picked, and `.stat` files written, only when all is loaded.

`Tallied` says that nothing is lost or counted twice: memory is what the files held at the start
plus the feedback since, and a song that is not marked as changed is on disk as it is in memory.
-/

namespace Squash

open Transition

/-! ## Steps -/

/-- `loaded` are the songs that `load_all_meta_data( TYPE_STAT )` is done with. -/
structure StatState where
  store : Store
  loaded : List Nat

/-- The database just after `load_db_filenames`, and the files that there are. -/
def loadDbFilenames (dbPaths : BasenameType → List Char) (filenames : List (List Char))
    (files : Files) : StatState where
  store := ⟨⟨filenames.map (loadFile dbPaths), false, 0, 0, 0, 0, 0, 0⟩, files, []⟩
  loaded := []

/-- No two songs have the same name, so that no two songs share a `.stat` file. -/
structure FreshDatabase where
  dbPaths : BasenameType → List Char
  filenames : List (List Char)
  nodup : filenames.Nodup
  files : Files

inductive StatStep where
  | loadMetaData (i : Nat)
  | feedback (i : Nat) (direction : Int)
  | songRatingAdjust (song : Option Nat) (relative : Bool) (amount : Int)
  | startSongPicker
  | pickSong (draws : List Draw)
  | saveSong (i : Nat)

/-- One step, with the feedback that it gives: a song and a direction. -/
def statStep (config : Config) (s : StatState) : StatStep → Option (StatState × List (Nat × Int))
  | .loadMetaData i =>
    if i ∈ s.loaded then none
    else do
      let song ← s.store.databaseInfo.songs[i]?
      let song ← Squash.loadMetaData s.store.files song
      return (⟨s.store.setSong i song, i :: s.loaded⟩, [])
  | .feedback i direction =>
    (Squash.feedback config s.store i direction).map fun store =>
      ({ s with store }, [(i, direction)])
  | .songRatingAdjust song relative amount =>
    (Squash.songRatingAdjust config s.store song relative amount).map fun store =>
      ({ s with store }, [])
  | .startSongPicker =>
    if ∀ i < s.store.databaseInfo.songs.length, i ∈ s.loaded then
      some ({ s with store :=
        { s.store with databaseInfo := s.store.databaseInfo.startSongPicker config } }, [])
    else none
  | .pickSong draws =>
    if s.store.databaseInfo.statsLoaded then
      (Squash.pickSong s.store.databaseInfo draws).map fun r =>
        ({ s with store := { s.store with databaseInfo := r.1 } }, [])
    else none
  | .saveSong i => some ({ s with store := Squash.saveSong config s.store i }, [])

namespace FreshDatabase

variable (d : FreshDatabase)

def song (name : List Char) : SongInfo := loadFile d.dbPaths name

/-- Where the statistics of a song are kept. -/
def path (name : List Char) : List Char := buildFullfilename (d.song name) .basenameStat

def start : StatState := loadDbFilenames d.dbPaths d.filenames d.files

theorem path_injective : Function.Injective d.path := by
  intro a b h
  have hsplit : d.dbPaths .basenameStat ++ '/' :: a ++ '.' :: "stat".toList =
      d.dbPaths .basenameStat ++ '/' :: b ++ '.' :: "stat".toList := h
  have hfront := List.append_cancel_right hsplit
  exact (List.cons.inj (List.append_cancel_left hfront)).2

end FreshDatabase

/-! ## The property -/

def plays (t : List (Nat × Int)) (i : Nat) : Nat := t.countP fun e => e.1 = i ∧ 0 ≤ e.2

def skips (t : List (Nat × Int)) (i : Nat) : Nat := t.countP fun e => e.1 = i ∧ e.2 < 0

/-- No play and no skip is lost or counted twice. The song that a `.stat` file turns a fresh one
into says what the file holds. -/
structure Tallied (d : FreshDatabase) (s : StatState × List (Nat × Int)) : Prop where
  /-- No file is written before `stats_loaded`. -/
  unwritten : s.1.store.databaseInfo.statsLoaded = false → s.1.store.written = []
  counts : ∀ i ∈ s.1.loaded, ∃ name song held, d.filenames[i]? = some name ∧
    s.1.store.databaseInfo.songs[i]? = some song ∧
    loadMetaData d.files (d.song name) = some held ∧
    song.stat.playCount = held.stat.playCount + plays s.2 i ∧
    song.stat.skipCount = held.stat.skipCount + skips s.2 i
  saved : s.1.store.databaseInfo.statsLoaded = true → ∀ (i : Nat) name,
    d.filenames[i]? = some name → ∃ song, s.1.store.databaseInfo.songs[i]? = some song ∧
      (song.stat.changed = false →
        ∃ held, loadMetaData s.1.store.files (d.song name) = some held ∧ held.stat = song.stat)

/-! ## The invariant -/

/-- What is known of one song, given the feedback it got. -/
structure SongTally (d : FreshDatabase) (files : Files) (loaded : Prop) (plays skips : Int)
    (name : List Char) (song : SongInfo) : Prop where
  basename : song.basename = d.dbPaths
  filename : song.filename = name
  counts : loaded → ∃ f, readStat (d.files (d.path name)) = some f ∧
    song.stat.playCount = f.plays + plays ∧ song.stat.skipCount = f.skips + skips
  early : ¬ loaded → song.stat.playCount = plays ∧ song.stat.skipCount = skips
  untouched : ¬ loaded → song.stat.changed = false → song.stat = (d.song name).stat
  saved : loaded → song.stat.changed = false →
    ∃ f, readStat (files (d.path name)) = some f ∧ song.stat = (d.song name).stat.merge f

structure StatInv (d : FreshDatabase) (s : StatState × List (Nat × Int)) : Prop where
  length : s.1.store.databaseInfo.songs.length = d.filenames.length
  inRange : ∀ i ∈ s.1.loaded, i < d.filenames.length
  unsaved : s.1.store.databaseInfo.statsLoaded = false →
    s.1.store.written = [] ∧ s.1.store.files = d.files
  allLoaded : s.1.store.databaseInfo.statsLoaded = true →
    ∀ i < d.filenames.length, i ∈ s.1.loaded
  songs : ∀ (i : Nat) name, d.filenames[i]? = some name →
    ∃ song, s.1.store.databaseInfo.songs[i]? = some song ∧
      SongTally d s.1.store.files (i ∈ s.1.loaded) (plays s.2 i) (skips s.2 i) name song

variable {d : FreshDatabase} {config : Config} {s : Store} {loaded : List Nat}
  {t es : List (Nat × Int)} {i : Nat}

theorem SongTally.path {files : Files} {l : Prop} {p k : Int} {name : List Char} {song : SongInfo}
    (h : SongTally d files l p k name song) :
    buildFullfilename song .basenameStat = d.path name := by
  simp [buildFullfilename, FreshDatabase.path, FreshDatabase.song, loadFile, h.basename,
    h.filename]

theorem loadFresh_eq (files : Files) (name : List Char) :
    loadMetaData files (d.song name) = (readStat (files (d.path name))).map fun f =>
      { d.song name with stat := (d.song name).stat.merge f } :=
  loadMetaData_eq files (d.song name)

theorem plays_append (t es : List (Nat × Int)) (i : Nat) :
    plays (t ++ es) i = plays t i + plays es i := List.countP_append

theorem skips_append (t es : List (Nat × Int)) (i : Nat) :
    skips (t ++ es) i = skips t i + skips es i := List.countP_append

theorem statInv_start (d : FreshDatabase) : StatInv d (d.start, []) where
  length := by simp [FreshDatabase.start, loadDbFilenames]
  inRange := by simp [FreshDatabase.start, loadDbFilenames]
  unsaved := fun _ => ⟨rfl, rfl⟩
  allLoaded := nofun
  songs := by
    intro i name hname
    have hsong : (d.filenames.map (loadFile d.dbPaths))[i]? = some (d.song name) := by
      rw [List.getElem?_map, hname]
      rfl
    refine ⟨d.song name, hsong, ⟨rfl, rfl, ?_, ?_, ?_, ?_⟩⟩
    · simp [FreshDatabase.start, loadDbFilenames]
    · exact fun _ => ⟨rfl, rfl⟩
    · exact fun _ _ => rfl
    · simp [FreshDatabase.start, loadDbFilenames]

theorem StatInv.tallied {s : StatState × List (Nat × Int)} (h : StatInv d s) : Tallied d s := by
  refine ⟨fun hno => (h.unsaved hno).1, ?_, ?_⟩
  · intro i hi
    have hname : d.filenames[i]? = some _ := List.getElem?_eq_getElem (h.inRange i hi)
    obtain ⟨song, hsong, htally⟩ := h.songs i _ hname
    obtain ⟨f, hf, hplay, hskip⟩ := htally.counts hi
    refine ⟨_, song, _, hname, hsong, by rw [loadFresh_eq, hf]; rfl, ?_, ?_⟩
    · simpa [StatInfo.merge, FreshDatabase.song, loadFile] using hplay
    · simpa [StatInfo.merge, FreshDatabase.song, loadFile] using hskip
  · intro hloaded i name hname
    obtain ⟨song, hsong, htally⟩ := h.songs i name hname
    refine ⟨song, hsong, fun hchanged => ?_⟩
    obtain ⟨hlt, -⟩ := List.getElem?_eq_some_iff.mp hname
    obtain ⟨f, hf, hstat⟩ := htally.saved (h.allLoaded hloaded i hlt) hchanged
    exact ⟨_, by rw [loadFresh_eq, hf]; rfl, hstat.symm⟩

/-! ## What a step can do -/

theorem plays_feedback (stat : StatInfo) (i : Nat) (direction : Int) :
    (stat.feedback direction).playCount = stat.playCount + plays [(i, direction)] i ∧
      (stat.feedback direction).skipCount = stat.skipCount + skips [(i, direction)] i := by
  unfold StatInfo.feedback
  by_cases hdir : direction < 0
  · have hno : ¬ 0 ≤ direction := by omega
    simp [plays, skips, hdir, hno]
  · have hyes : 0 ≤ direction := by omega
    simp [plays, skips, hdir, hyes]

/-- What one step can do. Feedback and ratings are alike: the statistics of a song change, marked,
with the plays and skips that the step reports, and the song is saved. -/
inductive StatMove (config : Config) (s : Store) (loaded : List Nat) :
    StatState → List (Nat × Int) → Prop
  | load {i : Nat} {song song' : SongInfo} :
      i ∉ loaded → s.databaseInfo.songs[i]? = some song → loadMetaData s.files song = some song' →
      StatMove config s loaded ⟨s.setSong i song', i :: loaded⟩ []
  | reweigh {i : Nat} {song : SongInfo} {db : DatabaseInfo} {stat : StatInfo}
      {es : List (Nat × Int)} :
      s.databaseInfo.songs[i]? = some song → s.databaseInfo.Reweighed config db song.stat stat →
      stat.changed = true → stat.playCount = song.stat.playCount + plays es i →
      stat.skipCount = song.stat.skipCount + skips es i →
      (∀ j, j ≠ i → plays es j = 0 ∧ skips es j = 0) →
      StatMove config s loaded ⟨saveSong config
        (({ s with databaseInfo := db }).setSong i { song with stat }) i, loaded⟩ es
  | none : StatMove config s loaded ⟨s, loaded⟩ []
  | startSongPicker :
      (∀ i < s.databaseInfo.songs.length, i ∈ loaded) →
      StatMove config s loaded
        ⟨{ s with databaseInfo := s.databaseInfo.startSongPicker config }, loaded⟩ []
  | pickSong {db : DatabaseInfo} :
      s.databaseInfo.statsLoaded = true → Picked s.databaseInfo db →
      StatMove config s loaded ⟨{ s with databaseInfo := db }, loaded⟩ []
  | saveSong (i : Nat) : StatMove config s loaded ⟨saveSong config s i, loaded⟩ []

theorem statStep_move {st' : StatState} {l : StatStep}
    (h : statStep config ⟨s, loaded⟩ l = some (st', es)) : StatMove config s loaded st' es := by
  cases l with
  | loadMetaData i =>
      simp only [statStep] at h
      split at h
      · cases h
      · next hi =>
          obtain ⟨song, hsong, h⟩ := Option.bind_eq_some_iff.mp h
          obtain ⟨song', hload, h⟩ := Option.bind_eq_some_iff.mp h
          cases h
          exact .load hi hsong hload
  | feedback i direction =>
      obtain ⟨s', hs', h⟩ := Option.map_eq_some_iff.mp h
      cases h
      obtain ⟨song, db, hsong, hdb, rfl⟩ := feedback_inv hs'
      obtain ⟨hplay, hskip⟩ := plays_feedback song.stat i direction
      apply StatMove.reweigh hsong hdb (feedback_changed _ _) hplay hskip
      intro j hj
      simp [plays, skips, Ne.symm hj]
  | songRatingAdjust target relative amount =>
      obtain ⟨s', hs', h⟩ := Option.map_eq_some_iff.mp h
      cases h
      cases target with
      | none =>
          cases hs'
          exact .none
      | some i =>
          obtain ⟨song, db, hsong, hdb, rfl⟩ := songRatingAdjust_inv hs'
          apply StatMove.reweigh hsong hdb (adjust_changed _ _ _)
          · exact (Int.add_zero _).symm
          · exact (Int.add_zero _).symm
          · exact fun _ _ => ⟨rfl, rfl⟩
  | startSongPicker =>
      simp only [statStep] at h
      split at h
      · next hall =>
          cases h
          exact .startSongPicker hall
      · cases h
  | pickSong draws =>
      simp only [statStep] at h
      split at h
      · next hloaded =>
          obtain ⟨r, hr, h⟩ := Option.map_eq_some_iff.mp h
          cases h
          exact .pickSong hloaded (pickSong_picked hr)
      · cases h
  | saveSong i =>
      cases h
      exact .saveSong i

/-! ## One song -/

section
variable {files files' : Files} {l l' : Prop} {p k : Int} {name : List Char} {song song' : SongInfo}

/-- The statistics change in memory, and the change is marked. -/
theorem SongTally.setStat {stat : StatInfo} {p' k' : Int} (h : SongTally d files l p k name song)
    (hchanged : stat.changed = true) (hplay : stat.playCount = song.stat.playCount + p')
    (hskip : stat.skipCount = song.stat.skipCount + k') :
    SongTally d files l (p + p') (k + k') name { song with stat } := by
  refine ⟨h.basename, h.filename, ?_, ?_, ?_, ?_⟩
  · intro hin
    obtain ⟨f, hf, hp, hk⟩ := h.counts hin
    refine ⟨f, hf, ?_, ?_⟩
    · show stat.playCount = _
      rw [hplay, hp, Int.add_assoc]
    · show stat.skipCount = _
      rw [hskip, hk, Int.add_assoc]
  · intro hout
    obtain ⟨hp, hk⟩ := h.early hout
    show stat.playCount = _ ∧ stat.skipCount = _
    rw [hplay, hp, hskip, hk]
    exact ⟨rfl, rfl⟩
  · intro _ hno
    grind
  · intro _ hno
    grind

/-- The statistics are written to the song's file, from which a fresh song reads them back. -/
theorem SongTally.save (h : SongTally d files l p k name song) (hin : l)
    (hfile : files' (d.path name) = some (statText song.stat)) :
    SongTally d files' l p k name { song with stat := { song.stat with changed := false } } := by
  refine ⟨h.basename, h.filename, h.counts, h.early, fun hout => absurd hin hout, fun _ _ => ?_⟩
  refine ⟨song.stat.toFile, ?_, ?_⟩
  · rw [hfile]
    exact readStat_statText song.stat
  · simp [StatInfo.merge, StatInfo.toFile, FreshDatabase.song, loadFile]

/-- Another song's file is written. -/
theorem SongTally.other (h : SongTally d files l p k name song)
    (hfile : files' (d.path name) = files (d.path name)) :
    SongTally d files' l p k name song := by
  refine ⟨h.basename, h.filename, h.counts, h.early, h.untouched, ?_⟩
  rw [hfile]
  exact h.saved

/-- The song is loaded, from the file that there was at the start. -/
theorem SongTally.load (h : SongTally d d.files l p k name song) (hout : ¬ l) (hin : l')
    (hload : loadMetaData d.files song = some song') : SongTally d d.files l' p k name song' := by
  rw [loadMetaData_eq, h.path] at hload
  obtain ⟨f, hf, rfl⟩ := Option.map_eq_some_iff.mp hload
  obtain ⟨hp, hk⟩ := h.early hout
  refine ⟨h.basename, h.filename, fun _ => ⟨f, hf, ?_, ?_⟩, fun hout' => absurd hin hout',
    fun hout' => absurd hin hout', fun _ hchanged => ⟨f, hf, ?_⟩⟩
  · show song.stat.playCount + f.plays = _
    rw [hp, Int.add_comm]
  · show song.stat.skipCount + f.skips = _
    rw [hk, Int.add_comm]
  · -- nothing had happened to the song
    rw [← h.untouched hout hchanged]

end

/-! ## One step -/

theorem StatInv.setStat {db : DatabaseInfo} {song : SongInfo} {stat : StatInfo}
    (h : StatInv d (⟨s, loaded⟩, t)) (hsong : s.databaseInfo.songs[i]? = some song)
    (hdb : s.databaseInfo.Reweighed config db song.stat stat) (hchanged : stat.changed = true)
    (hplay : stat.playCount = song.stat.playCount + plays es i)
    (hskip : stat.skipCount = song.stat.skipCount + skips es i)
    (hothers : ∀ j, j ≠ i → plays es j = 0 ∧ skips es j = 0) :
    StatInv d (⟨({ s with databaseInfo := db }).setSong i { song with stat }, loaded⟩,
      t ++ es) := by
  obtain ⟨hsongs, hloaded, -⟩ := hdb
  refine ⟨?_, h.inRange, ?_, ?_, ?_⟩
  · rw [setSong_length]
    show db.songs.length = _
    rw [hsongs]
    exact h.length
  · intro hno
    exact h.unsaved (hloaded ▸ hno)
  · intro hyes
    exact h.allLoaded (hloaded ▸ hyes)
  · intro j name hname
    have hold : ∃ old, db.songs[j]? = some old ∧
        SongTally d s.files (j ∈ loaded) (plays t j) (skips t j) name old := by
      rw [hsongs]
      exact h.songs j name hname
    rw [← hsongs] at hsong
    apply setSong_exists (s := { s with databaseInfo := db }) hsong hold
    · rintro rfl htally
      rw [plays_append, skips_append, Nat.cast_add, Nat.cast_add]
      exact htally.setStat hchanged hplay hskip
    · intro hj old htally
      obtain ⟨hp, hk⟩ := hothers j hj
      rw [plays_append, skips_append, hp, hk]
      exact htally

/-- No other song is written to the file of song `i`. -/
theorem StatInv.path_ne {song : SongInfo} {j : Nat} {name : List Char}
    (h : StatInv d (⟨s, loaded⟩, t)) (hsong : s.databaseInfo.songs[i]? = some song)
    (hname : d.filenames[j]? = some name) (hj : j ≠ i) :
    d.path name ≠ buildFullfilename song .basenameStat := by
  obtain ⟨hi, -⟩ := List.getElem?_eq_some_iff.mp hsong
  obtain ⟨hlt, -⟩ := List.getElem?_eq_some_iff.mp hname
  have hname' : d.filenames[i]? = some _ := List.getElem?_eq_getElem (h.length ▸ hi)
  obtain ⟨song', hsong', htally⟩ := h.songs i _ hname'
  obtain rfl : song = song' := Option.some.inj (hsong.symm.trans hsong')
  rw [htally.path]
  intro heq
  rw [← d.path_injective heq] at hname'
  exact hj ((List.getElem?_inj hlt d.nodup).mp (hname.trans hname'.symm))

theorem StatInv.saveSong (h : StatInv d (⟨s, loaded⟩, t)) (config : Config) (i : Nat) :
    StatInv d (⟨saveSong config s i, loaded⟩, t) := by
  rcases saveSong_cases config s i with hsame | ⟨song, hsong, -, hloaded, hsave⟩
  · rw [hsame]
    exact h
  · rw [hsave]
    refine ⟨?_, h.inRange, ?_, h.allLoaded, ?_⟩
    · exact (setSong_length s i _).trans h.length
    · intro hno
      exact absurd (hloaded.symm.trans hno) (by simp)
    · intro j name hname
      obtain ⟨hlt, -⟩ := List.getElem?_eq_some_iff.mp hname
      have hin := h.allLoaded hloaded j hlt
      apply setSong_exists hsong (h.songs j name hname)
      · rintro rfl htally
        exact htally.save hin (if_pos htally.path.symm)
      · intro hj old htally
        exact htally.other (if_neg (h.path_ne hsong hname hj))

theorem StatInv.load {song song' : SongInfo} (h : StatInv d (⟨s, loaded⟩, t)) (hi : i ∉ loaded)
    (hsong : s.databaseInfo.songs[i]? = some song)
    (hload : loadMetaData s.files song = some song') :
    StatInv d (⟨s.setSong i song', i :: loaded⟩, t) := by
  have hlt : i < d.filenames.length := by
    obtain ⟨hlt, -⟩ := List.getElem?_eq_some_iff.mp hsong
    exact h.length ▸ hlt
  have hno : s.databaseInfo.statsLoaded = false := by
    rw [Bool.eq_false_iff]
    exact fun hyes => hi (h.allLoaded hyes i hlt)
  have hfiles : s.files = d.files := (h.unsaved hno).2
  refine ⟨by simpa using h.length, ?_, h.unsaved, ?_, ?_⟩
  · intro j hj
    rcases List.mem_cons.mp hj with rfl | hj
    · exact hlt
    · exact h.inRange j hj
  · intro hyes
    exact absurd (hno.symm.trans hyes) (by simp)
  · intro j name hname
    apply setSong_exists hsong (h.songs j name hname)
    · rintro rfl htally
      show SongTally d s.files _ _ _ _ _
      rw [hfiles] at hload htally ⊢
      exact htally.load hi List.mem_cons_self hload
    · intro hj old htally
      have hiff : j ∈ i :: loaded ↔ j ∈ loaded := by simp [hj]
      show SongTally d s.files (j ∈ i :: loaded) _ _ name old
      rw [hiff]
      exact htally

theorem StatInv.startSongPicker (h : StatInv d (⟨s, loaded⟩, t))
    (hall : ∀ i < s.databaseInfo.songs.length, i ∈ loaded) :
    StatInv d (⟨{ s with databaseInfo := s.databaseInfo.startSongPicker config }, loaded⟩, t) := by
  obtain ⟨hsongs, hloaded⟩ := startSongPicker_fields config s.databaseInfo
  refine ⟨?_, h.inRange, ?_, ?_, ?_⟩
  · show (s.databaseInfo.startSongPicker config).songs.length = _
    rw [hsongs]
    exact h.length
  · intro hno
    grind
  · intro _ j hj
    exact hall j (h.length ▸ hj)
  · intro j name hname
    show ∃ song, (s.databaseInfo.startSongPicker config).songs[j]? = some song ∧ _
    rw [hsongs]
    exact h.songs j name hname

theorem StatInv.pickSong {db : DatabaseInfo} (h : StatInv d (⟨s, loaded⟩, t))
    (hpicked : Picked s.databaseInfo db) :
    StatInv d (⟨{ s with databaseInfo := db }, loaded⟩, t) := by
  have hloaded : db.statsLoaded = s.databaseInfo.statsLoaded := by
    obtain ⟨songs, rfl⟩ := hpicked.others
    rfl
  refine ⟨hpicked.length.trans h.length, h.inRange, ?_, ?_, ?_⟩
  · intro hno
    exact h.unsaved (hloaded ▸ hno)
  · intro hyes
    exact h.allLoaded (hloaded ▸ hyes)
  · intro j name hname
    obtain ⟨a, ha, htally⟩ := h.songs j name hname
    obtain ⟨b, hb, hab⟩ := hpicked.songs j a ha
    refine ⟨b, hb, ?_⟩
    rcases hab.changed with rfl | hchanged
    · exact htally
    · refine ⟨hab.basename.trans htally.basename, hab.filename.trans htally.filename, ?_, ?_, ?_,
        ?_⟩
      · intro hin
        rw [hab.playCount, hab.skipCount]
        exact htally.counts hin
      · intro hout
        rw [hab.playCount, hab.skipCount]
        exact htally.early hout
      · grind
      · grind

theorem statInv_move {st' : StatState} (h : StatInv d (⟨s, loaded⟩, t))
    (hmove : StatMove config s loaded st' es) : StatInv d (st', t ++ es) := by
  cases hmove with
  | load hi hsong hload =>
      rw [List.append_nil]
      exact h.load hi hsong hload
  | reweigh hsong hdb hchanged hplay hskip hothers =>
      apply StatInv.saveSong
      exact h.setStat hsong hdb hchanged hplay hskip hothers
  | none =>
      rw [List.append_nil]
      exact h
  | startSongPicker hall =>
      rw [List.append_nil]
      exact h.startSongPicker hall
  | pickSong hloaded hpicked =>
      rw [List.append_nil]
      exact h.pickSong hpicked
  | saveSong i =>
      rw [List.append_nil]
      exact h.saveSong config i

theorem statInv_step {st st' : StatState × List (Nat × Int)} {l : StatStep} (h : StatInv d st)
    (hstep : observe (statStep config) st l = some st') : StatInv d st' := by
  obtain ⟨⟨s, loaded⟩, t⟩ := st
  obtain ⟨u, es, hu, rfl⟩ := observe_eq_some.mp hstep
  exact statInv_move h (statStep_move hu)

/-! ## Runs -/

/-- **No play or skip is lost or counted twice around the load**, in whatever order the loads, the
feedback, the ratings, the picks and the saves come. -/
theorem always_tallied (config : Config) (d : FreshDatabase) (ls : List StatStep) :
    Always (observe (statStep config)) (Tallied d) (d.start, []) ls := by
  have htallied : ∀ s, StatInv d s → Tallied d s := fun s h => h.tallied
  apply always_of_step htallied
  · intro s l s' h hs'
    exact statInv_step h hs'
  · exact statInv_start d

end Squash
