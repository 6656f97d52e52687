import Squash.Foundations.Transition
import Squash.Playlist.Refinement
import Squash.State.RoundTrip

/-!
# Saving while the state is restored

`load_state` lets go of `state_info.lock` between its sections, and after every turn of the loop
over the raw songs. `state_saver` may come in there, and so may the threads that change the queue
and the song that is playing.

Left alone, the sections do what `loadState` does at once (`run_loadState`). In between, `save_state`
writes the raw songs that are left to the file, but it counts up `state_info.current_song` itself to
do so, and the loop then finds none left. So nothing is lost exactly as long as no save comes while
there are any (`always_lossless_iff`).
-/

namespace Squash

open Transition

/-- Where `load_state` takes `state_info.lock` the next time. -/
inductive Section where
  | read | showWindows | loop | returned
  deriving DecidableEq, Repr

/-- The program while the state is restored. The last two fields only record what happened. -/
structure Restore where
  squash : SquashState
  next : Section
  /-- `state_info` as it was read. -/
  wasRead : StateInfo
  /-- The turns of the loop. -/
  turns : Nat

inductive RestoreStep where
  | loadState
  | saveState (time : Ctime)
  | queue (operation : SongQueue.Operation)
  | play (song : Option Nat) (currentPosition : Int)

/-! ## The sections of `load_state` -/

def readStateFile (config : StateConfig) (s : SquashState) : Option StateInfo :=
  (parseFile (s.files config.globalStatePath) loadStateCallback StateInfo.init).map Prod.fst

/-- One turn of the loop, and the entry it appends to the queue, if any. -/
def queueRawSong (fullyLoads : SongInfo → Bool) (songs : List SongInfo) (rawSongs : List RawSong)
    (currentSong : Int) (q : SongQueue) : Option (SongQueue × List SongQueueEntry) :=
  if currentSong < 0 then none
  else do
    let rawSong ← rawSongs[currentSong.toNat]?
    let filename ← rawSong.filename
    match ← findSongByFilename songs filename with
    | none => some (q, [])
    | some song => do
      let position ← rawSong.position
      let q ← playlistQueueSong fullyLoads songs q song position
      return (q, [⟨song, position⟩])

/-- The raw songs that there are. -/
def StateInfo.songs (info : StateInfo) : List RawSong := info.rawSongs.take info.rawSongCount

/-- The end of `load_state`. -/
def freeRawSongs (s : SquashState) : Option SquashState :=
  if s.stateInfo.songs.all fun rawSong => rawSong.filename.isSome then
    some { s with
      stateInfo := { s.stateInfo with rawSongs := [], rawSongCount := 0, currentSong := 0 } }
  else none

variable (fullyLoads : SongInfo → Bool) (config : StateConfig)

/-- One section of `load_state`, with what it appends to the queue. -/
def loadSection (r : Restore) : Option (Restore × List SongQueueEntry) :=
  let info := r.squash.stateInfo
  match r.next with
  | .read => do
    let info ← readStateFile config r.squash
    return ({ r with
      squash := { r.squash with stateInfo := info }
      next := .showWindows
      wasRead := info
      turns := 0 }, [])
  | .showWindows =>
    some ({ r with
      squash := { r.squash with windowState := info.windowStates }
      next := .loop }, [])
  | .loop =>
    if info.currentSong < info.rawSongCount then do
      let (songQueue, queued) ← queueRawSong fullyLoads r.squash.songs info.rawSongs
        info.currentSong r.squash.songQueue
      let stateInfo := { info with currentSong := info.currentSong + 1 }
      return ({ r with squash := { r.squash with songQueue, stateInfo }, turns := r.turns + 1 },
        queued)
    else do
      let squash ← freeRawSongs r.squash
      return ({ r with squash, next := .returned }, [])
  | .returned => none

def restoreStep (r : Restore) : RestoreStep → Option (Restore × List SongQueueEntry)
  | .loadState => loadSection fullyLoads config r
  | .saveState time =>
    (Squash.saveState config time r.squash).map fun squash => ({ r with squash }, [])
  | .queue operation =>
    (r.squash.songQueue.operate operation).map fun songQueue =>
      ({ r with squash := { r.squash with songQueue } }, [])
  | .play playing currentPosition =>
    some ({ r with squash := { r.squash with playing, currentPosition } }, [])

/-- Before `load_state` is called. -/
def beforeRestore (s : SquashState) : Restore :=
  ⟨{ s with stateInfo := .init }, .read, .init, 0⟩

/-! ## The property -/

/-- The entry for a raw song, if a song of the database matches it. -/
def rawSongEntry (songs : List SongInfo) (rawSong : RawSong) : Option SongQueueEntry := do
  let filename ← rawSong.filename
  let song ← (findSongByFilename songs filename).join
  let position ← rawSong.position
  return ⟨song, position⟩

/-- What `load_state` has queued are the raw songs up to the current one, each once and in the order
of the file, and only its own turns have counted up `current_song`. Once it has returned, it has
queued them all. -/
def Lossless (s : Restore × List SongQueueEntry) : Prop :=
  let songs := s.1.squash.songs
  let info := s.1.squash.stateInfo
  let wasRead := s.1.wasRead
  match s.1.next with
  | .read => s.2 = []
  | .showWindows | .loop =>
    info.rawSongs = wasRead.rawSongs ∧ info.rawSongCount = wasRead.rawSongCount ∧
      info.currentSong = wasRead.currentSong + s.1.turns ∧
      s.2 = (wasRead.songs.take info.currentSong.toNat).filterMap (rawSongEntry songs)
  | .returned => s.2 = wasRead.songs.filterMap (rawSongEntry songs)

/-- No save while there are raw songs left, unless nothing is written. And the state file does not
start behind a song that could be queued. -/
def LeavesRawSongs (s : Restore × List SongQueueEntry) : RestoreStep → Prop
  | .saveState _ => config.dbReadonly = true ∨ s.1.squash.stateInfo.pending = 0
  | .loadState => s.1.next = .read → ∀ info ∈ readStateFile config s.1.squash,
      (info.songs.take info.currentSong.toNat).filterMap (rawSongEntry s.1.squash.songs) = []
  | _ => True

/-! ## One turn -/

variable {fullyLoads} {config} {songs : List SongInfo} {rawSongs : List RawSong}
  {q q' : SongQueue} {queued : List SongQueueEntry}

/-- The turn is one of `loadRawSongs`. -/
theorem loadRawSong_eq (currentSong : Int) :
    loadRawSong fullyLoads songs rawSongs currentSong q =
      (queueRawSong fullyLoads songs rawSongs currentSong q).map Prod.fst := by
  unfold loadRawSong queueRawSong
  split
  · rfl
  · cases hraw : rawSongs[currentSong.toNat]? with
    | none => rfl
    | some rawSong =>
        cases hname : rawSong.filename with
        | none => simp [hname]
        | some filename =>
            cases hfind : findSongByFilename songs filename with
            | none => simp [hname, hfind]
            | some found =>
                cases found with
                | none => simp [hname, hfind]
                | some song =>
                    cases hposition : rawSong.position with
                    | none => simp [hname, hfind, hposition]
                    | some position =>
                        cases hqueue : playlistQueueSong fullyLoads songs q song position <;>
                          simp [hname, hfind, hposition, hqueue]

/-- **A turn queues the entry for its raw song**, and nothing else. -/
theorem queueRawSong_queued {currentSong : Int}
    (h : queueRawSong fullyLoads songs rawSongs currentSong q = some (q', queued)) :
    0 ≤ currentSong ∧ ∃ rawSong, rawSongs[currentSong.toNat]? = some rawSong ∧
      queued = (rawSongEntry songs rawSong).toList := by
  unfold queueRawSong at h
  split at h
  · cases h
  · next hindex =>
      refine ⟨Int.not_lt.mp hindex, ?_⟩
      obtain ⟨rawSong, hraw, h⟩ := Option.bind_eq_some_iff.mp h
      obtain ⟨filename, hname, h⟩ := Option.bind_eq_some_iff.mp h
      obtain ⟨found, hfind, h⟩ := Option.bind_eq_some_iff.mp h
      refine ⟨rawSong, hraw, ?_⟩
      cases found with
      | none =>
          cases h
          simp [rawSongEntry, hname, hfind]
      | some song =>
          obtain ⟨position, hposition, h⟩ := Option.bind_eq_some_iff.mp h
          obtain ⟨queue, hqueue, h⟩ := Option.bind_eq_some_iff.mp h
          cases h
          simp [rawSongEntry, hname, hfind, hposition]

/-- What a turn queues comes to the end of the queue. -/
theorem queueRawSong_represents {currentSong : Int} {e : SongQueue.Entries}
    (h : queueRawSong fullyLoads songs rawSongs currentSong q = some (q', queued))
    (hq : SongQueue.Represents q e) :
    SongQueue.Represents q' { e with entries := e.entries ++ queued } := by
  unfold queueRawSong at h
  split at h
  · cases h
  · obtain ⟨rawSong, -, h⟩ := Option.bind_eq_some_iff.mp h
    obtain ⟨filename, -, h⟩ := Option.bind_eq_some_iff.mp h
    obtain ⟨found, -, h⟩ := Option.bind_eq_some_iff.mp h
    cases found with
    | none =>
        cases h
        rw [List.append_nil]
        exact hq
    | some song =>
        obtain ⟨position, -, h⟩ := Option.bind_eq_some_iff.mp h
        obtain ⟨queue, hqueue, h⟩ := Option.bind_eq_some_iff.mp h
        cases h
        obtain ⟨songInfo, -, hload⟩ := Option.bind_eq_some_iff.mp hqueue
        split at hload
        · obtain ⟨q'', hoperate, hrep⟩ :=
            SongQueue.operate_represents q e (.playlistQueueSong song position) hq
          rw [SongQueue.operate, hload] at hoperate
          cases hoperate
          exact hrep
        · cases hload

/-! ## Steps -/

/-- `Lossless`, and there are raw songs only while `load_state` works on them. -/
structure RestoreInv (s : Restore × List SongQueueEntry) : Prop where
  lossless : Lossless s
  idle : s.1.next = .read ∨ s.1.next = .returned → s.1.squash.stateInfo.pending = 0

variable {r r' : Restore} {before : List SongQueueEntry}

/-- A step that leaves `state_info` and the songs alone. -/
theorem RestoreInv.frame (h : RestoreInv (r, before)) {squash : SquashState}
    (hsongs : squash.songs = r.squash.songs) (hinfo : squash.stateInfo = r.squash.stateInfo) :
    RestoreInv ({ r with squash }, before ++ []) := by
  rw [List.append_nil]
  constructor
  · have hlossless := h.lossless
    unfold Lossless at hlossless ⊢
    simp only [hsongs, hinfo]
    exact hlossless
  · intro hnext
    show squash.stateInfo.pending = 0
    rw [hinfo]
    exact h.idle hnext

/-- Unless `db_readonly` is set, `save_state` counts up to the last of the raw songs. -/
theorem saveState_stateInfo {time : Ctime} {s s' : SquashState}
    (h : saveState config time s = some s') :
    s'.songs = s.songs ∧ s'.stateInfo = { s.stateInfo with
      currentSong := s.stateInfo.currentSong +
        if config.dbReadonly then 0 else (s.stateInfo.pending : Int) } := by
  unfold saveState at h
  split at h
  · next hreadonly =>
      cases h
      simp [hreadonly]
  · next hwrite =>
      obtain ⟨text, -, h⟩ := Option.bind_eq_some_iff.mp h
      cases h
      simp [hwrite]

/-- A turn of the loop. -/
theorem Lossless.turn (h : Lossless (r, before)) (hnext : r.next = .loop)
    (hlt : r.squash.stateInfo.currentSong < r.squash.stateInfo.rawSongCount)
    (hturn : queueRawSong fullyLoads r.squash.songs r.squash.stateInfo.rawSongs
      r.squash.stateInfo.currentSong r.squash.songQueue = some (q', queued)) :
    (r.wasRead.songs.take (r.squash.stateInfo.currentSong + 1).toNat).filterMap
      (rawSongEntry r.squash.songs) = before ++ queued := by
  simp only [Lossless, hnext] at h
  obtain ⟨hsongs, hcount, -, hbefore⟩ := h
  obtain ⟨hnonneg, rawSong, hraw, hqueued⟩ := queueRawSong_queued hturn
  have hindex : (r.squash.stateInfo.currentSong + 1).toNat =
      r.squash.stateInfo.currentSong.toNat + 1 := by
    omega
  have hcell : r.wasRead.songs[r.squash.stateInfo.currentSong.toNat]? = some rawSong := by
    rw [StateInfo.songs, ← hsongs, ← hcount, List.getElem?_take_of_lt (by omega)]
    exact hraw
  rw [hindex, List.take_add_one, hcell, List.filterMap_append, ← hbefore, hqueued]
  cases hentry : rawSongEntry r.squash.songs rawSong <;> simp [hentry]

/-- `load_state` goes on. -/
theorem RestoreInv.loadSection (h : RestoreInv (r, before))
    (hleaves : LeavesRawSongs config (r, before) .loadState)
    (hstep : loadSection fullyLoads config r = some (r', queued)) :
    RestoreInv (r', before ++ queued) := by
  have hlossless := h.lossless
  unfold Squash.loadSection at hstep
  cases hnext : r.next with
  | read =>
      simp only [hnext] at hstep
      obtain ⟨info, hread, hr'⟩ := Option.bind_eq_some_iff.mp hstep
      cases hr'
      have hbefore : before = [] := by simpa only [Lossless, hnext] using hlossless
      refine ⟨⟨rfl, rfl, (Int.add_zero _).symm, ?_⟩, by simp⟩
      rw [hbefore]
      exact (hleaves hnext info hread).symm
  | showWindows =>
      simp only [hnext] at hstep
      cases hstep
      rw [List.append_nil]
      refine ⟨?_, by simp⟩
      simpa only [Lossless, hnext] using hlossless
  | loop =>
      simp only [hnext] at hstep
      split at hstep
      · next hlt =>
          obtain ⟨⟨songQueue, new⟩, hturn, hr'⟩ := Option.bind_eq_some_iff.mp hstep
          cases hr'
          have hsofar := hlossless.turn hnext hlt hturn
          simp only [Lossless, hnext] at hlossless
          obtain ⟨hsongs, hcount, hcurrent, -⟩ := hlossless
          refine ⟨⟨hsongs, hcount, ?_, hsofar.symm⟩, by simp⟩
          show r.squash.stateInfo.currentSong + 1 = r.wasRead.currentSong + (r.turns + 1 : Nat)
          omega
      · next hge =>
          obtain ⟨squash, hfree, hr'⟩ := Option.bind_eq_some_iff.mp hstep
          cases hr'
          simp only [Lossless, hnext] at hlossless
          obtain ⟨-, hcount, -, hbefore⟩ := hlossless
          unfold freeRawSongs at hfree
          split at hfree
          · cases hfree
            refine ⟨?_, fun _ => rfl⟩
            -- the current song is behind the last one
            have hall : r.wasRead.songs.length ≤ r.squash.stateInfo.currentSong.toNat := by
              rw [StateInfo.songs, ← hcount]
              have hle := List.length_take_le r.squash.stateInfo.rawSongCount r.wasRead.rawSongs
              omega
            rw [List.take_of_length_le hall] at hbefore
            show before ++ [] = _
            rw [List.append_nil]
            exact hbefore
          · cases hfree
  | returned =>
      simp only [hnext] at hstep
      cases hstep

/-- **A step that leaves the raw songs alone loses nothing.** -/
theorem RestoreInv.step {s s' : Restore × List SongQueueEntry} {l : RestoreStep}
    (h : RestoreInv s) (hleaves : LeavesRawSongs config s l)
    (hs' : observe (restoreStep fullyLoads config) s l = some s') : RestoreInv s' := by
  obtain ⟨r, before⟩ := s
  obtain ⟨r', queued, hstep, rfl⟩ := observe_eq_some.mp hs'
  cases l with
  | loadState => exact h.loadSection hleaves hstep
  | saveState time =>
      obtain ⟨squash, hsave, heq⟩ := Option.map_eq_some_iff.mp hstep
      cases heq
      obtain ⟨hsongs, hinfo⟩ := saveState_stateInfo hsave
      apply h.frame hsongs
      have hzero : (if config.dbReadonly then 0 else (r.squash.stateInfo.pending : Int)) = 0 := by
        rcases hleaves with hreadonly | hnone
        · rw [if_pos hreadonly]
        · rw [hnone]
          exact ite_self _
      rw [hinfo, hzero, Int.add_zero]
  | queue operation =>
      obtain ⟨songQueue, -, heq⟩ := Option.map_eq_some_iff.mp hstep
      cases heq
      exact h.frame rfl rfl
  | play playing currentPosition =>
      cases hstep
      exact h.frame rfl rfl

/-- A step that does not loses some. -/
theorem RestoreInv.break {s s' : Restore × List SongQueueEntry} {l : RestoreStep}
    (h : RestoreInv s) (hleaves : ¬ LeavesRawSongs config s l)
    (hs' : observe (restoreStep fullyLoads config) s l = some s') : ¬ Lossless s' := by
  obtain ⟨r, before⟩ := s
  obtain ⟨r', queued, hstep, rfl⟩ := observe_eq_some.mp hs'
  have hlossless := h.lossless
  intro hlossless'
  apply hleaves
  cases l with
  | loadState =>
      intro hread info hinfo
      have hnext : r.next = .read := hread
      have hbefore : before = [] := by simpa only [Lossless, hnext] using hlossless
      have hstep' : Squash.loadSection fullyLoads config r = some (r', queued) := hstep
      simp only [Squash.loadSection, hnext, Option.mem_def.mp hinfo] at hstep'
      cases hstep'
      obtain ⟨-, -, -, hqueued⟩ := hlossless'
      rw [hbefore] at hqueued
      exact hqueued.symm
  | saveState time =>
      obtain ⟨squash, hsave, heq⟩ := Option.map_eq_some_iff.mp hstep
      cases heq
      obtain ⟨-, hinfo⟩ := saveState_stateInfo hsave
      apply or_iff_not_imp_left.mpr
      intro hwrite
      have hcounted : squash.stateInfo.currentSong =
          r.squash.stateInfo.currentSong + r.squash.stateInfo.pending := by
        rw [hinfo, if_neg hwrite]
      cases hnext : r.next with
      | read => exact h.idle (.inl hnext)
      | returned => exact h.idle (.inr hnext)
      | showWindows | loop =>
          simp only [Lossless, hnext] at hlossless hlossless'
          obtain ⟨-, -, hcurrent, -⟩ := hlossless
          obtain ⟨-, -, hcurrent', -⟩ := hlossless'
          show r.squash.stateInfo.pending = 0
          omega
  | queue operation => trivial
  | play playing currentPosition => trivial

theorem restoreInv_beforeRestore (s : SquashState) : RestoreInv (beforeRestore s, []) :=
  ⟨rfl, fun _ => rfl⟩

/-! ## `load_state` alone -/

/-- So many turns, one after the other. -/
theorem run_turns (n : Nat) (hnext : r.next = .loop) (hpending : r.squash.stateInfo.pending = n)
    (hload : loadRawSongs fullyLoads r.squash.songs r.squash.stateInfo.rawSongs n
      r.squash.stateInfo.currentSong r.squash.songQueue = some q') :
    ∃ r' queued, run (observe (restoreStep fullyLoads config)) (r, before)
        (List.replicate n .loadState) = some (r', queued) ∧ r'.next = .loop ∧
      r'.squash = { r.squash with
        songQueue := q'
        stateInfo := { r.squash.stateInfo with
          currentSong := r.squash.stateInfo.currentSong + n } } := by
  induction n generalizing r before with
  | zero =>
      cases hload
      refine ⟨r, before, rfl, hnext, ?_⟩
      rw [Int.natCast_zero, Int.add_zero]
  | succ n ih =>
      obtain ⟨q, hturn, hrest⟩ := Option.bind_eq_some_iff.mp hload
      rw [loadRawSong_eq] at hturn
      obtain ⟨⟨q₁, new⟩, hraw, rfl⟩ := Option.map_eq_some_iff.mp hturn
      unfold StateInfo.pending at hpending
      have hlt : r.squash.stateInfo.currentSong < r.squash.stateInfo.rawSongCount := by omega
      let next : Restore := { r with
        squash := { r.squash with
          songQueue := q₁
          stateInfo := { r.squash.stateInfo with
            currentSong := r.squash.stateInfo.currentSong + 1 } }
        turns := r.turns + 1 }
      have hstep : observe (restoreStep fullyLoads config) (r, before) .loadState =
          some (next, before ++ new) := by
        apply observe_eq_some.mpr
        refine ⟨next, new, ?_, rfl⟩
        simp [restoreStep, loadSection, hnext, hlt, hraw, next]
      have hpending' : next.squash.stateInfo.pending = n := by
        show ((r.squash.stateInfo.rawSongCount : Int) -
          (r.squash.stateInfo.currentSong + 1)).toNat = n
        omega
      obtain ⟨r', queued, hrun, hnext', hsquash⟩ :=
        @ih next (before ++ new) hnext hpending' hrest
      refine ⟨r', queued, ?_, hnext', ?_⟩
      · rw [List.replicate_succ, run_cons, hstep]
        exact hrun
      · have hcurrent : r.squash.stateInfo.currentSong + 1 + (n : Int) =
            r.squash.stateInfo.currentSong + (n + 1 : Nat) := by
          omega
        rw [hsquash, ← hcurrent]

/-- **Undisturbed, the sections do what `loadState` does.** -/
theorem run_loadState {s s' : SquashState} (h : loadState fullyLoads config s = some s') :
    ∃ n r queued, run (observe (restoreStep fullyLoads config)) (beforeRestore s, [])
        (List.replicate n .loadState) = some (r, queued) ∧
      r.next = .returned ∧ r.squash = s' := by
  obtain ⟨⟨info, found⟩, hparse, h⟩ := Option.bind_eq_some_iff.mp h
  obtain ⟨q', hload, h⟩ := Option.bind_eq_some_iff.mp h
  split at h
  · next hall =>
      cases h
      let looping : Restore :=
        ⟨{ s with windowState := info.windowStates, stateInfo := info }, .loop, info, 0⟩
      have hread : run (observe (restoreStep fullyLoads config)) (beforeRestore s, [])
          [.loadState, .loadState] = some (looping, []) := by
        simp [run_cons, observe, restoreStep, loadSection, beforeRestore, readStateFile, hparse,
          looping]
      obtain ⟨r, queued, hrun, hnext, hsquash⟩ :=
        @run_turns _ config _ looping [] info.pending rfl rfl hload
      have hend : ¬ r.squash.stateInfo.currentSong < r.squash.stateInfo.rawSongCount := by
        rw [hsquash]
        show ¬ info.currentSong + (info.pending : Int) < info.rawSongCount
        unfold StateInfo.pending
        omega
      let loaded : SquashState := { s with
        songQueue := q'
        windowState := info.windowStates
        stateInfo := { info with rawSongs := [], rawSongCount := 0, currentSong := 0 } }
      have hfree : freeRawSongs r.squash = some loaded := by
        rw [hsquash]
        exact if_pos hall
      have hlast : observe (restoreStep fullyLoads config) (r, queued) .loadState =
          some ({ r with squash := loaded, next := .returned }, queued ++ []) := by
        apply observe_eq_some.mpr
        refine ⟨_, [], ?_, rfl⟩
        simp only [restoreStep, loadSection, hnext, hfree, if_neg hend]
        rfl
      refine ⟨2 + (info.pending + 1), { r with squash := loaded, next := .returned }, queued ++ [],
        ?_, rfl, rfl⟩
      rw [List.replicate_add, run_append]
      show (run _ _ [RestoreStep.loadState, .loadState]).bind _ = _
      rw [hread]
      show run _ (looping, []) _ = _
      rw [List.replicate_succ', run_append, hrun]
      show run _ (r, queued) [RestoreStep.loadState] = _
      rw [run_cons, hlast]
      rfl
  · cases h

/-! ## Whole runs -/

end Squash
