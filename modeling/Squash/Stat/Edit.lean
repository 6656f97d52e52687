import Squash.Stat.Aggregates
import Squash.Stat.Loading

/-!
# Statistics when a song's tags are edited

`do_edit_command` reads the `.stat` file again after the editor is left, into a song whose counters
are still in memory. `set_stat_data` is made for the first load: it adds the counts of the file to
those in memory and overwrites the repeat counter, and `clear_song_meta` has dropped the mark of an
unsaved change before that.

So an edit leaves the statistics alone only if the file has nothing to add, as `Harmless` says
(`always_undisturbed_iff_harmless`). Songs may share a file here.
-/

namespace Squash

open Transition

/-! ## Steps -/

/-- What `do_edit_command` does to the song when the editor is left; `load_meta_data` for
`TYPE_META` reads the tags only. -/
def doEditCommand (files : Files) (song : SongInfo) : Option SongInfo :=
  loadMetaData files (clearSongMeta song)

/-- The statistics that the song's file gives to a fresh song. -/
def onDisk (files : Files) (song : SongInfo) : Option StatInfo :=
  (loadMetaData files (loadFile song.basename song.filename)).map SongInfo.stat

/-- An edit: the song's statistics before it, after it, and on disk. -/
structure Edited where
  before : StatInfo
  after : StatInfo
  disk : Option StatInfo

inductive EditStep where
  | stat (l : StatStep)
  | editCommand (i : Nat)

def editStep (config : Config) (s : StatState) : EditStep → Option (StatState × List Edited)
  | .stat l => (statStep config s l).map fun r => (r.1, [])
  | .editCommand i =>
    if s.store.databaseInfo.statsLoaded then do
      let song ← s.store.databaseInfo.songs[i]?
      let song' ← doEditCommand s.store.files song
      return ({ s with store := s.store.setSong i song' },
        [⟨song.stat, song'.stat, onDisk s.store.files song⟩])
    else none

/-! ## The property -/

def StatInfo.counters (stat : StatInfo) : Int × Int × Int × Int :=
  (stat.playCount, stat.skipCount, stat.repeatCounter, stat.manualRating)

/-- The four counters are as before, and a change that was not saved still is to be, or is on
disk. -/
structure Undisturbed (e : Edited) : Prop where
  counters : e.after.counters = e.before.counters
  pending : e.before.changed = true →
    e.after.changed = true ∨ e.disk.map StatInfo.counters = some e.before.counters

/-- Every edit so far left the song's statistics alone, and the sums are a recount. -/
structure EditsKeep (config : Config) (a : StatState × List Edited) : Prop where
  edits : ∀ e ∈ a.2, Undisturbed e
  recount : a.1.store.databaseInfo.statsLoaded = true → Recount config a.1.store.databaseInfo

/-! ## The condition -/

/-- The file of a song with these statistics has no counts, no other repeat counter, no rating
unless there is one in memory, and all of them if they were changed. -/
structure Harmless (stat : StatInfo) (f : StatFile) : Prop where
  plays : f.plays = 0
  skips : f.skips = 0
  repeatCounter : ∀ n, f.repeatCounter = some n → n = stat.repeatCounter
  manualRating : stat.manualRating = -1 → f.manualRating = -1
  saved : stat.changed = true → stat.counters = (0, 0, f.repeatCounter.getD 0, f.manualRating)

/-- An edit is made of a song whose file is harmless. -/
def HarmlessEdit (a : StatState × List Edited) : EditStep → Prop
  | .stat _ => True
  | .editCommand i => ∀ song f, a.1.store.databaseInfo.songs[i]? = some song →
      readStat (a.1.store.files (buildFullfilename song .basenameStat)) = some f →
      Harmless song.stat f

variable {config : Config} {s : StatState} {t : List Edited} {i : Nat} {song song' : SongInfo}

theorem doEditCommand_eq (files : Files) (song : SongInfo) :
    doEditCommand files song =
      (readStat (files (buildFullfilename song .basenameStat))).map fun f =>
        { song with stat := { song.stat with changed := false }.merge f } :=
  loadMetaData_eq files (clearSongMeta song)

theorem onDisk_eq (files : Files) (song : SongInfo) :
    onDisk files song = (readStat (files (buildFullfilename song .basenameStat))).map fun f =>
      (⟨0, 0, 0, -1, false⟩ : StatInfo).merge f := by
  rw [onDisk, loadMetaData_eq, Option.map_map]
  rfl

theorem undisturbed_iff_harmless (stat : StatInfo) (f : StatFile) :
    Undisturbed ⟨stat, { stat with changed := false }.merge f,
      some ((⟨0, 0, 0, -1, false⟩ : StatInfo).merge f)⟩ ↔ Harmless stat f := by
  constructor
  · rintro ⟨hcounters, hpending⟩
    simp only [StatInfo.counters, StatInfo.merge, Prod.mk.injEq] at hcounters
    obtain ⟨hplays, hskips, hrepeat, hrating⟩ := hcounters
    refine ⟨by omega, by omega, ?_, ?_, ?_⟩
    · intro n hn
      rw [hn] at hrepeat
      exact hrepeat
    · intro hnone
      rw [if_pos hnone, hnone] at hrating
      exact hrating
    · intro hchanged
      rcases hpending hchanged with hstill | hsaved
      · exact absurd hstill (by simp [StatInfo.merge])
      · have hf : f.plays = 0 ∧ f.skips = 0 := by omega
        simpa [StatInfo.counters, StatInfo.merge, hf.1, hf.2] using hsaved.symm
  · rintro ⟨hplays, hskips, hrepeat, hrating, hsaved⟩
    refine ⟨?_, fun hchanged => .inr ?_⟩
    · simp only [StatInfo.counters, StatInfo.merge, Prod.mk.injEq]
      refine ⟨by omega, by omega, ?_, ?_⟩
      · cases hf : f.repeatCounter with
        | none => rfl
        | some n => exact hrepeat n hf
      · split
        · next hnone => rw [hrating hnone, hnone]
        · rfl
    · rw [hsaved hchanged]
      simp [StatInfo.counters, StatInfo.merge, hplays, hskips]

/-- Of the songs that are saved, those that were never played nor skipped can be edited. -/
theorem harmless_toFile_iff (stat : StatInfo) :
    Harmless stat stat.toFile ↔ stat.playCount = 0 ∧ stat.skipCount = 0 := by
  constructor
  · intro h
    exact ⟨h.plays, h.skips⟩
  · rintro ⟨hplays, hskips⟩
    refine ⟨hplays, hskips, ?_, fun h => h, fun _ => ?_⟩
    · intro n hn
      exact (Option.some.inj hn).symm
    · simp [StatInfo.counters, StatInfo.toFile, hplays, hskips]

/-! ## The invariant -/

/-- Once the statistics are loaded, no song is left to load and the sums are a recount. -/
structure Summed (config : Config) (s : StatState) : Prop where
  loaded : s.store.databaseInfo.statsLoaded = true →
    ∀ i < s.store.databaseInfo.songs.length, i ∈ s.loaded
  recount : s.store.databaseInfo.statsLoaded = true → Recount config s.store.databaseInfo

/-- A song's weight changes, and the sums with it. -/
theorem Summed.reweighed {db : DatabaseInfo} {stat : StatInfo} (h : Summed config s)
    (hsong : s.store.databaseInfo.songs[i]? = some song)
    (hdb : s.store.databaseInfo.Reweighed config db song.stat stat) :
    Summed config { s with
      store := saveSong config
        (({ s.store with databaseInfo := db }).setSong i { song with stat }) i } := by
  obtain ⟨hlength, hloaded⟩ := hdb.saved (i := i)
  refine ⟨fun hyes j hj => ?_, fun hyes => ?_⟩
  · exact h.loaded (hloaded ▸ hyes) j (hlength ▸ hj)
  · exact recount_reweighed (h.recount (hloaded ▸ hyes)) hsong hdb

theorem summed_move {store : Store} {loaded : List Nat} {s' : StatState} {es : List (Nat × Int)}
    (h : Summed config ⟨store, loaded⟩) (hmove : StatMove config store loaded s' es) :
    Summed config s' := by
  cases hmove with
  | load hi hsong hload =>
      obtain ⟨hlt, -⟩ := List.getElem?_eq_some_iff.mp hsong
      -- the statistics are not loaded yet, for this song is not
      exact ⟨fun hyes => absurd (h.loaded hyes _ hlt) hi,
        fun hyes => absurd (h.loaded hyes _ hlt) hi⟩
  | reweigh hsong hdb => exact h.reweighed hsong hdb
  | none => exact h
  | startSongPicker hall =>
      refine ⟨fun _ j hj => hall j ?_, fun _ => recount_startSongPicker config _⟩
      rwa [(startSongPicker_fields config store.databaseInfo).1] at hj
  | pickSong hloaded hpicked =>
      exact ⟨fun _ j hj => h.loaded hloaded j (hpicked.length ▸ hj),
        fun _ => recount_picked (h.recount hloaded) hpicked⟩
  | saveSong i =>
      refine ⟨fun hyes j hj => ?_, fun hyes => ?_⟩
      · rw [saveSong_statsLoaded] at hyes
        rw [saveSong_length] at hj
        exact h.loaded hyes j hj
      · rw [saveSong_statsLoaded] at hyes
        exact recount_saveSong (h.recount hyes) i

/-- An edit that leaves the counters alone leaves the sums alone. -/
theorem Summed.setSong (h : Summed config s) (hsong : s.store.databaseInfo.songs[i]? = some song)
    (hcounters : song'.stat.counters = song.stat.counters) :
    Summed config { s with store := s.store.setSong i song' } := by
  simp only [StatInfo.counters, Prod.mk.injEq] at hcounters
  obtain ⟨hplays, hskips, -, hrating⟩ := hcounters
  refine ⟨fun hyes j hj => h.loaded hyes j ?_, fun hyes => ?_⟩
  · simpa using hj
  · have hrecount := recount_iff.mp (h.recount hyes)
    apply recount_iff.mpr
    show s.store.databaseInfo.sums = ((s.store.databaseInfo.songs.set i song').map _).sum
    rw [map_weight_set hsong (weight_congr hplays hskips hrating)]
    exact hrecount

structure EditInv (config : Config) (a : StatState × List Edited) : Prop where
  edits : ∀ e ∈ a.2, Undisturbed e
  summed : Summed config a.1

/-- What one edit does, from the file that it reads. -/
theorem editCommand_inv {a b : StatState × List Edited}
    (hb : observe (editStep config) a (.editCommand i) = some b) :
    ∃ song f, a.1.store.databaseInfo.songs[i]? = some song ∧
      readStat (a.1.store.files (buildFullfilename song .basenameStat)) = some f ∧
      b = ({ a.1 with
          store := a.1.store.setSong i
            { song with stat := { song.stat with changed := false }.merge f } },
        a.2 ++ [⟨song.stat, { song.stat with changed := false }.merge f,
          some ((⟨0, 0, 0, -1, false⟩ : StatInfo).merge f)⟩]) := by
  obtain ⟨s', es, hs', rfl⟩ := observe_eq_some.mp hb
  simp only [editStep] at hs'
  split at hs'
  · obtain ⟨song, hsong, hs'⟩ := Option.bind_eq_some_iff.mp hs'
    obtain ⟨song', hsong', hs'⟩ := Option.bind_eq_some_iff.mp hs'
    cases hs'
    rw [doEditCommand_eq] at hsong'
    obtain ⟨f, hf, rfl⟩ := Option.map_eq_some_iff.mp hsong'
    refine ⟨song, f, hsong, hf, ?_⟩
    rw [onDisk_eq, hf]
    rfl
  · cases hs'

theorem editInv_start (config : Config) (dbPaths : BasenameType → List Char)
    (filenames : List (List Char)) (files : Files) :
    EditInv config (loadDbFilenames dbPaths filenames files, []) := by
  have hno : (loadDbFilenames dbPaths filenames files).store.databaseInfo.statsLoaded = false := rfl
  refine ⟨fun e he => absurd he List.not_mem_nil, fun hyes => ?_, fun hyes => ?_⟩
  · grind
  · grind

theorem EditInv.edit {f : StatFile} (h : EditInv config (s, t))
    (hsong : s.store.databaseInfo.songs[i]? = some song) (hf : Harmless song.stat f) :
    EditInv config ({ s with
        store := s.store.setSong i
          { song with stat := { song.stat with changed := false }.merge f } },
      t ++ [⟨song.stat, { song.stat with changed := false }.merge f,
        some ((⟨0, 0, 0, -1, false⟩ : StatInfo).merge f)⟩]) := by
  have hundisturbed := (undisturbed_iff_harmless song.stat f).mpr hf
  refine ⟨fun e he => ?_, h.summed.setSong hsong hundisturbed.counters⟩
  rcases List.mem_append.mp he with hold | hnew
  · exact h.edits e hold
  · rw [List.mem_singleton.mp hnew]
    exact hundisturbed

theorem editInv_step {a b : StatState × List Edited} {l : EditStep} (h : EditInv config a)
    (hl : HarmlessEdit a l) (hb : observe (editStep config) a l = some b) :
    EditInv config b := by
  cases l with
  | stat l =>
      obtain ⟨s', es, hs', rfl⟩ := observe_eq_some.mp hb
      obtain ⟨⟨s'', es'⟩, hstep, hs'⟩ := Option.map_eq_some_iff.mp hs'
      cases hs'
      rw [List.append_nil]
      exact ⟨h.edits, summed_move h.summed (statStep_move hstep)⟩
  | editCommand i =>
      obtain ⟨song, f, hsong, hf, rfl⟩ := editCommand_inv hb
      exact EditInv.edit h hsong (hl song f hsong hf)

theorem harmlessEdit_of_keep {a b : StatState × List Edited} {l : EditStep}
    (hb : observe (editStep config) a l = some b) (hkeep : EditsKeep config b) :
    HarmlessEdit a l := by
  cases l with
  | stat l => trivial
  | editCommand i =>
      obtain ⟨song, f, hsong, hf, rfl⟩ := editCommand_inv hb
      intro song' f' hsong' hf'
      obtain rfl : song = song' := Option.some.inj (hsong.symm.trans hsong')
      obtain rfl : f = f' := Option.some.inj (hf.symm.trans hf')
      exact (undisturbed_iff_harmless song.stat f).mp
        (hkeep.edits _ (List.mem_append_right _ List.mem_cons_self))

/-! ## The result -/

/-- **The edits of a run leave the statistics alone exactly if each of them finds a harmless
file.** -/
theorem always_undisturbed_iff_harmless (config : Config) (dbPaths : BasenameType → List Char)
    (filenames : List (List Char)) (files : Files) (steps : List EditStep) :
    Always (observe (editStep config)) (EditsKeep config)
        (loadDbFilenames dbPaths filenames files, []) steps ↔
      Guarded (observe (editStep config)) HarmlessEdit
        (loadDbFilenames dbPaths filenames files, []) steps := by
  have hkeep : ∀ a, EditInv config a → EditsKeep config a :=
    fun a h => ⟨h.edits, h.summed.recount⟩
  apply always_iff_guarded hkeep
  · intro a l b h hl hb
    exact editInv_step h hl hb
  · intro a l b h hl hb hb'
    exact hl (harmlessEdit_of_keep hb hb')
  · exact editInv_start config dbPaths filenames files

/-- One song, loaded, played once, and its tags edited: the play is counted twice. -/
theorem not_undisturbed_edit_after_play :
    ¬ ∀ (config : Config) (dbPaths : BasenameType → List Char) (filenames : List (List Char))
      (files : Files) (steps : List EditStep),
      Always (observe (editStep config)) (EditsKeep config)
        (loadDbFilenames dbPaths filenames files, []) steps := by
  intro h
  have hrun : ((run (observe (editStep ⟨false, 0⟩))
      (loadDbFilenames (fun _ => "/music".toList) ["song".toList] fun _ => none, [])
      [.stat (.loadMetaData 0), .stat .startSongPicker, .stat (.feedback 0 1), .editCommand 0]).map
      fun a => a.2.map fun e => (e.before.playCount, e.after.playCount)) = some [(1, 2)] := by
    decide +kernel
  obtain ⟨a, ha, hcounts⟩ := Option.map_eq_some_iff.mp hrun
  obtain ⟨e, he, hcount⟩ := List.mem_map.mp (hcounts ▸ List.mem_cons_self)
  have hsame := ((h _ _ _ _ _).at_end ha).edits e he
  simp only [Prod.mk.injEq] at hcount
  have hplays := congrArg Prod.fst hsame.counters
  exact absurd (hcount.2.symm.trans (hplays.trans hcount.1)) (by decide)

end Squash
