import Mathlib.Algebra.Group.Prod
import Mathlib.Algebra.Ring.Rat
import Mathlib.Algebra.Ring.Int.Defs
import Mathlib.Tactic.Abel
import Squash.Foundations.RunningSum
import Squash.Foundations.Transition
import Squash.Playlist.SongQueue
import Squash.Stat.Effects

/-!
# The running sums are always a recount

`database_info` keeps six sums over all songs. `Recount` says that they are what a recount would
give. A run of `start_song_picker` without interruption establishes it, and every operation that
changes a song's statistics keeps it, because it takes away the song's old weight and adds the new
one (`recount_reweighed`).

The session below takes the operations in any order; what else the user and the other threads do to
the queues and the display is left open (`elsewhere`).
-/

namespace Squash

open RunningSum Transition

/-! ## The property -/

/-- The sums are those of the songs' ratings and counts, and of their squares. -/
structure Recount (config : Config) (db : DatabaseInfo) : Prop where
  sum : db.sum = (db.songs.map fun song => getRating config song.stat).sum
  sqrSum : db.sqrSum =
    (db.songs.map fun song => getRating config song.stat * getRating config song.stat).sum
  playSum : db.playSum = (db.songs.map fun song => song.stat.playCount).sum
  playSqrSum : db.playSqrSum =
    (db.songs.map fun song => song.stat.playCount * song.stat.playCount).sum
  skipSum : db.skipSum = (db.songs.map fun song => song.stat.skipCount).sum
  skipSqrSum : db.skipSqrSum =
    (db.songs.map fun song => song.stat.skipCount * song.stat.skipCount).sum

def SongInfo.weight (config : Config) (song : SongInfo) : Sums := song.stat.weight config

variable {config : Config} {s s' : Store} {i n : Nat}

theorem sum_weight (config : Config) (songs : List SongInfo) :
    (songs.map (SongInfo.weight config)).sum =
      ((songs.map fun song => getRating config song.stat).sum,
        (songs.map fun song => getRating config song.stat * getRating config song.stat).sum,
        (songs.map fun song => song.stat.playCount).sum,
        (songs.map fun song => song.stat.playCount * song.stat.playCount).sum,
        (songs.map fun song => song.stat.skipCount).sum,
        (songs.map fun song => song.stat.skipCount * song.stat.skipCount).sum) := by
  induction songs with
  | nil => rfl
  | cons song songs ih =>
      rw [List.map_cons, List.sum_cons, ih]
      simp only [List.map_cons, List.sum_cons, SongInfo.weight, StatInfo.weight, Prod.mk_add_mk]

/-- All six at once. -/
theorem recount_iff {db : DatabaseInfo} :
    Recount config db ↔ db.sums = (db.songs.map (SongInfo.weight config)).sum := by
  rw [sum_weight]
  simp only [DatabaseInfo.sums, Prod.mk.injEq]
  constructor
  · rintro ⟨h₁, h₂, h₃, h₄, h₅, h₆⟩
    exact ⟨h₁, h₂, h₃, h₄, h₅, h₆⟩
  · rintro ⟨h₁, h₂, h₃, h₄, h₅, h₆⟩
    exact ⟨h₁, h₂, h₃, h₄, h₅, h₆⟩

/-! ## Sums that are short of a recount

While `start_song_picker` is at work only some of the songs are summed, and the sums may be off. -/

/-- The sums are those of the first `n` songs, up to `drift`. -/
def Accounted (config : Config) (s : Store) (n : Nat) (drift : Sums) : Prop :=
  s.databaseInfo.sums = prefixSum (SongInfo.weight config) s.databaseInfo.songs n + drift

theorem accounted_length_iff {drift : Sums} :
    Accounted config s s.databaseInfo.songs.length drift →
      (Recount config s.databaseInfo ↔ drift = 0) := by
  intro h
  rw [recount_iff, h, prefixSum_length]
  exact add_eq_left

theorem recount_iff_accounted :
    Recount config s.databaseInfo ↔ Accounted config s s.databaseInfo.songs.length 0 := by
  rw [recount_iff, Accounted, prefixSum_length, add_zero]

/-- The song that changes is summed already: the sums stay right. -/
theorem Accounted.reweighed_of_lt {drift : Sums} {db : DatabaseInfo} {song : SongInfo}
    {stat : StatInfo} (h : Accounted config s n drift) (hsong : s.databaseInfo.songs[i]? = some song)
    (hdb : s.databaseInfo.Reweighed config db song.stat stat) (hi : i < n) :
    Accounted config (({ s with databaseInfo := db }).setSong i { song with stat }) n drift := by
  show db.sums = prefixSum _ (db.songs.set i _) n + drift
  rw [hdb.songs, prefixSum_set_of_lt hsong hi, hdb.sums, h]
  show _ - song.stat.weight config + stat.weight config =
    _ - song.stat.weight config + stat.weight config + drift
  abel

/-- The song that changes is not summed yet: the difference of its weights is too much. -/
theorem Accounted.reweighed_of_le {drift : Sums} {db : DatabaseInfo} {song : SongInfo}
    {stat : StatInfo} (h : Accounted config s n drift)
    (hdb : s.databaseInfo.Reweighed config db song.stat stat) (hi : n ≤ i) :
    Accounted config (({ s with databaseInfo := db }).setSong i { song with stat }) n
      (drift + (stat.weight config - song.stat.weight config)) := by
  show db.sums = prefixSum _ (db.songs.set i _) n + _
  rw [hdb.songs, prefixSum_set_of_le hi, hdb.sums, h]
  abel

/-- Songs with the same weights. -/
theorem Accounted.congr {drift : Sums} (h : Accounted config s n drift)
    (hsums : s'.databaseInfo.sums = s.databaseInfo.sums)
    (hweight : s'.databaseInfo.songs.map (SongInfo.weight config) =
      s.databaseInfo.songs.map (SongInfo.weight config)) :
    Accounted config s' n drift := by
  rw [Accounted, hsums, h, prefixSum, prefixSum, List.map_take, List.map_take, hweight]

theorem map_weight_set {songs : List SongInfo} {song song' : SongInfo} (h : songs[i]? = some song)
    (hweight : song'.weight config = song.weight config) :
    (songs.set i song').map (SongInfo.weight config) = songs.map (SongInfo.weight config) := by
  obtain ⟨hlt, rfl⟩ := List.getElem?_eq_some_iff.mp h
  rw [List.map_set, hweight, ← List.getElem_map (SongInfo.weight config)]
  · exact List.set_getElem_self _
  · simpa using hlt

theorem Accounted.saveSong {drift : Sums} (h : Accounted config s n drift) (i : Nat) :
    Accounted config (saveSong config s i) n drift := by
  rcases saveSong_cases config s i with hsame | ⟨song, hsong, -, -, hsave⟩
  · rw [hsame]
    exact h
  · rw [hsave]
    exact h.congr rfl (map_weight_set hsong (weight_congr rfl rfl rfl))

/-- One song more is summed. -/
theorem Accounted.addSong {drift : Sums} {song : SongInfo} (h : Accounted config s n drift)
    (hsong : s.databaseInfo.songs[n]? = some song) :
    Accounted config { s with databaseInfo := s.databaseInfo.addSong config song.stat } (n + 1)
      drift := by
  show s.databaseInfo.sums + song.stat.weight config =
    prefixSum _ s.databaseInfo.songs (n + 1) + drift
  rw [prefixSum_succ hsong, h]
  show _ + song.stat.weight config = _ + song.stat.weight config + _
  abel

/-! ## The operations keep a recount -/

/-- **Every operation that reweighs a song keeps the recount.** -/
theorem recount_reweighed {db : DatabaseInfo} {song : SongInfo} {stat : StatInfo}
    (h : Recount config s.databaseInfo) (hsong : s.databaseInfo.songs[i]? = some song)
    (hdb : s.databaseInfo.Reweighed config db song.stat stat) :
    Recount config (saveSong config
      (({ s with databaseInfo := db }).setSong i { song with stat }) i).databaseInfo := by
  obtain ⟨hlt, -⟩ := List.getElem?_eq_some_iff.mp hsong
  have hacc := ((recount_iff_accounted.mp h).reweighed_of_lt hsong hdb hlt).saveSong i
  rw [recount_iff_accounted, hdb.saved.1]
  exact hacc

theorem recount_feedback {direction : Int} (h : Recount config s.databaseInfo)
    (hs : feedback config s i direction = some s') : Recount config s'.databaseInfo := by
  obtain ⟨song, db, hsong, hdb, rfl⟩ := feedback_inv hs
  exact recount_reweighed h hsong hdb

theorem recount_songRatingAdjust {target : Option Nat} {relative : Bool} {amount : Int}
    (h : Recount config s.databaseInfo)
    (hs : songRatingAdjust config s target relative amount = some s') :
    Recount config s'.databaseInfo := by
  cases target with
  | none =>
      cases hs
      exact h
  | some i =>
      obtain ⟨song, db, hsong, hdb, rfl⟩ := songRatingAdjust_inv hs
      exact recount_reweighed h hsong hdb

theorem recount_saveSong (h : Recount config s.databaseInfo) (i : Nat) :
    Recount config (saveSong config s i).databaseInfo := by
  have hacc := (recount_iff_accounted.mp h).saveSong i
  rw [← saveSong_length config s i] at hacc
  exact recount_iff_accounted.mpr hacc

theorem recount_picked {db db' : DatabaseInfo} (h : Recount config db) (hp : Picked db db') :
    Recount config db' := by
  have hweight : db'.songs.map (SongInfo.weight config) = db.songs.map (SongInfo.weight config) := by
    apply List.ext_getElem?
    intro j
    rw [List.getElem?_map, List.getElem?_map]
    cases ha : db.songs[j]? with
    | none =>
        have hlen := List.getElem?_eq_none_iff.mp ha
        rw [List.getElem?_eq_none (hp.length ▸ hlen)]
    | some a =>
        obtain ⟨b, hb, hab⟩ := hp.songs j a ha
        rw [hb]
        exact congrArg some (weight_congr hab.playCount hab.skipCount hab.manualRating)
  rw [recount_iff] at h ⊢
  obtain ⟨songs, rfl⟩ := hp.others
  rw [hweight]
  exact h

theorem recount_startSongPicker (config : Config) (db : DatabaseInfo) :
    Recount config (db.startSongPicker config) := by
  have hfold : ∀ (songs : List SongInfo) (db : DatabaseInfo),
      (songs.foldl (fun db song => db.addSong config song.stat) db).sums =
        db.sums + (songs.map (SongInfo.weight config)).sum := by
    intro songs
    induction songs with
    | nil => simp
    | cons song songs ih =>
        intro db
        rw [List.foldl_cons, ih, List.map_cons, List.sum_cons, ← add_assoc]
        rfl
  rw [recount_iff, (startSongPicker_fields config db).1]
  show (db.songs.foldl (fun db song => db.addSong config song.stat) db.clearSums).sums = _
  rw [hfold]
  exact zero_add _

/-! ## The session -/

/-- What `do_song_rating_adjust` and `do_delete` are about: on the ncurses display the window that
has the focus, on the EMPEG the screen with the playing song (`nowPlaying`) or one without. -/
inductive Focus where
  | nowPlaying
  | playlist
  | pastlist
  | other
  deriving DecidableEq, Repr

structure SessionState where
  store : Store
  songQueue : SongQueue
  pastQueue : SongQueue
  /-- `player_info.song` -/
  playing : Option Nat
  focus : Focus

/-- The song that `do_song_rating_adjust` is going to rate. -/
def SessionState.songToRate (s : SessionState) : Option (Option Nat) :=
  match s.focus with
  | .nowPlaying => some s.playing
  | .playlist => s.songQueue.selectedSong
  | .pastlist => s.pastQueue.selectedSong
  | .other => some none

/-- `do_song_rating_adjust`. -/
def doSongRatingAdjust (config : Config) (s : SessionState) (relative : Bool) (amount : Int) :
    Option SessionState := do
  let song ← s.songToRate
  let store ← songRatingAdjust config s.store song relative amount
  return { s with store }

/-- Take the selected song out of the queue, with negative feedback. -/
def deleteSelected (config : Config) (s : SessionState) : Option SessionState := do
  let (songQueue, song) ← s.songQueue.removeSelected
  let store ← feedback config s.store song (-1)
  return { s with store, songQueue }

/-- `do_remove_playlist_entry`, on the EMPEG. -/
def doRemovePlaylistEntry (config : Config) (s : SessionState) : Option SessionState :=
  if s.songQueue.selected < s.songQueue.size then deleteSelected config s else some s

/-- `do_delete`, with the ncurses display. -/
def doDelete (config : Config) (s : SessionState) : Option SessionState :=
  match s.focus with
  | .playlist =>
    if s.songQueue.selected < s.songQueue.size ∧ s.songQueue.selected ≥ 0 then
      deleteSelected config s
    else some s
  | _ => some s

inductive SessionStep where
  | feedback (song : Nat) (direction : Int)
  | doSongRatingAdjust (relative : Bool) (amount : Int)
  | doDelete
  | doRemovePlaylistEntry
  | pickSong (draws : List Draw)
  | saveSong (song : Nat)
  | elsewhere (songQueue pastQueue : SongQueue) (playing : Option Nat) (focus : Focus)

def sessionStep (config : Config) (s : SessionState) : SessionStep → Option SessionState
  | .feedback song direction =>
    (Squash.feedback config s.store song direction).map fun store => { s with store }
  | .doSongRatingAdjust relative amount => Squash.doSongRatingAdjust config s relative amount
  | .doDelete => Squash.doDelete config s
  | .doRemovePlaylistEntry => Squash.doRemovePlaylistEntry config s
  | .pickSong draws =>
    (Squash.pickSong s.store.databaseInfo draws).map fun r =>
      { s with store := { s.store with databaseInfo := r.1 } }
  | .saveSong song => some { s with store := Squash.saveSong config s.store song }
  | .elsewhere songQueue pastQueue playing focus =>
    some { s with songQueue, pastQueue, playing, focus }

variable {a b : SessionState}

theorem recount_deleteSelected (h : Recount config a.store.databaseInfo)
    (hb : deleteSelected config a = some b) : Recount config b.store.databaseInfo := by
  obtain ⟨⟨songQueue, song⟩, -, hb⟩ := Option.bind_eq_some_iff.mp hb
  obtain ⟨store, hstore, hb⟩ := Option.bind_eq_some_iff.mp hb
  cases hb
  exact recount_feedback h hstore

/-- **One step keeps the recount.** -/
theorem recount_sessionStep {l : SessionStep} (h : Recount config a.store.databaseInfo)
    (hb : sessionStep config a l = some b) : Recount config b.store.databaseInfo := by
  cases l with
  | feedback song direction =>
      obtain ⟨store, hstore, rfl⟩ := Option.map_eq_some_iff.mp hb
      exact recount_feedback h hstore
  | doSongRatingAdjust relative amount =>
      obtain ⟨song, -, hb⟩ := Option.bind_eq_some_iff.mp hb
      obtain ⟨store, hstore, hb⟩ := Option.bind_eq_some_iff.mp hb
      cases hb
      exact recount_songRatingAdjust h hstore
  | doDelete =>
      simp only [sessionStep, Squash.doDelete] at hb
      split at hb
      · split at hb
        · exact recount_deleteSelected h hb
        · cases hb
          exact h
      · cases hb
        exact h
  | doRemovePlaylistEntry =>
      simp only [sessionStep, Squash.doRemovePlaylistEntry] at hb
      split at hb
      · exact recount_deleteSelected h hb
      · cases hb
        exact h
  | pickSong draws =>
      obtain ⟨⟨db, song⟩, hdb, rfl⟩ := Option.map_eq_some_iff.mp hb
      exact recount_picked h (pickSong_picked hdb)
  | saveSong song =>
      cases hb
      exact recount_saveSong h song
  | elsewhere songQueue pastQueue playing focus =>
      cases hb
      exact h

/-- **In every state after `start_song_picker` the sums are a recount.** -/
theorem always_recount (config : Config) (s : SessionState) (steps : List SessionStep) :
    Always (sessionStep config) (fun a => Recount config a.store.databaseInfo)
      { s with store :=
        { s.store with databaseInfo := s.store.databaseInfo.startSongPicker config } } steps := by
  apply always_of_step fun _ h => h
  · intro a l b h hb
    exact recount_sessionStep h hb
  · exact recount_startSongPicker config s.store.databaseInfo

end Squash
