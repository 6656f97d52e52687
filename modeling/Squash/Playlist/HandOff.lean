import Squash.Foundations.Transition

/-!
# Waiting for the statistics

`playlist_manager` picks songs by their statistics, so it waits until `setup_database` has loaded
them. It tests `stats_loaded` while it holds `database_info.lock`, lets go of that lock, and then
waits for `stats_finished`, which is tied to `song_queue.lock`. `start_song_picker` sets
`stats_loaded` under `database_info.lock`, and `setup_database` signals afterwards, with no lock at
all.

So the signal may come between the test and the wait, where nobody hears it. Exactly then the
playlist manager waits for ever (`signal_heard_iff`).
-/

namespace Squash.HandOff

open Transition

/-! ## `playlist_manager` -/

/-- The two loops that wait with both locks taken before and after: for `not_full` while there are
enough songs, and for `stats_finished` while the statistics are not loaded. -/
inductive Loop where
  | size | stats
  deriving DecidableEq, Repr

/-- Where `playlist_manager` stands. The `first` places are in the loop that waits for
`wanted_size`. -/
inductive ManagerPc where
  | firstLock
  | firstTest
  | firstWaiting
  | firstWoken
  | wlockDatabase (loop : Loop)
  | lockQueue (loop : Loop)
  | test (loop : Loop)
  | aboutToWait (loop : Loop)
  | waiting (loop : Loop)
  | woken (loop : Loop)
  | unlockQueue (loop : Loop)
  | queueSong
  deriving DecidableEq, Repr

def ManagerPc.holdsQueue : ManagerPc → Bool
  | .firstTest | .test _ | .aboutToWait _ | .unlockQueue _ | .queueSong => true
  | _ => false

/-- `squash_signal( song_queue.not_full )`, and the broadcasts. -/
def ManagerPc.notFull : ManagerPc → ManagerPc
  | .firstWaiting => .firstWoken
  | .waiting .size => .woken .size
  | pc => pc

/-- `squash_signal( database_info.stats_finished )`. -/
def ManagerPc.statsFinished : ManagerPc → ManagerPc
  | .waiting .stats => .woken .stats
  | pc => pc

/-! ## `setup_database` -/

/-- A step of `setup_database`. The locks are taken for reading or for writing; the playlist manager,
which writes, is kept out by both. -/
inductive Action where
  | setWantedSize (wantedSize : Int)
  | lockDatabase
  | unlockDatabase
  | setStatsLoaded
  | signalStatsFinished
  deriving DecidableEq, Repr

/-- `load_all_meta_data( TYPE_STAT )`. -/
def loadAllMetaData (empeg : Bool) (songCount : Nat) : List Action :=
  let turn : List Action :=
    if empeg then [.unlockDatabase, .lockDatabase, .unlockDatabase, .lockDatabase] else []
  .lockDatabase :: (List.replicate songCount turn).flatten ++ [.unlockDatabase]

/-- `start_song_picker`. -/
def startSongPicker (empeg : Bool) (songCount : Nat) : List Action :=
  let turn : List Action := if empeg then [.unlockDatabase, .lockDatabase] else []
  .lockDatabase :: (List.replicate songCount turn).flatten ++ [.setStatsLoaded, .unlockDatabase]

/-- `setup_database`, from where it tells the playlist manager to add songs. -/
def setupDatabase (empeg : Bool) (songCount : Nat) (wantedSize : Int) : List Action :=
  .setWantedSize wantedSize :: loadAllMetaData empeg songCount ++ startSongPicker empeg songCount ++
    [.signalStatsFinished]

/-! ## Steps -/

inductive Thread where
  | playlistManager | setupDatabase
  deriving DecidableEq, Repr

structure State where
  manager : ManagerPc
  /-- What `setup_database` has still to do. -/
  setup : List Action
  /-- Who has `database_info.lock`. -/
  database : Option Thread
  songCount : Nat
  size : Int
  wantedSize : Int
  statsLoaded : Bool
  deriving DecidableEq, Repr

/-- A step of one of the two threads; a change of the queue's size by another one, which may have
broadcast `not_full`; a wait that returns without a signal. -/
inductive Step where
  | playlistManager
  | setupDatabase
  | elsewhere (size : Int)
  | wakeUp
  deriving DecidableEq, Repr

def managerStep (s : State) : Option State :=
  match s.manager with
  | .firstLock => some { s with manager := .firstTest }
  | .firstTest =>
    some { s with
      manager := if s.size ≥ s.wantedSize then .firstWaiting else .wlockDatabase .size }
  | .firstWoken => some { s with manager := .firstTest }
  | .wlockDatabase loop =>
    match s.database with
    | none => some { s with manager := .lockQueue loop, database := some .playlistManager }
    | some _ => none
  | .lockQueue loop => some { s with manager := .test loop }
  | .test .size =>
    if s.size ≥ s.wantedSize then some { s with manager := .aboutToWait .size, database := none }
    -- `squash_error` ends the program
    else if s.songCount = 0 then none
    else some { s with manager := .test .stats }
  | .test .stats =>
    if s.statsLoaded then some { s with manager := .queueSong }
    else some { s with manager := .aboutToWait .stats, database := none }
  | .aboutToWait loop => some { s with manager := .waiting loop }
  | .woken loop => some { s with manager := .unlockQueue loop }
  | .unlockQueue loop => some { s with manager := .wlockDatabase loop }
  | .queueSong =>
    some { s with manager := .wlockDatabase .size, database := none, size := s.size + 1 }
  | .firstWaiting | .waiting _ => none

def setupStep (s : State) : Option State :=
  match s.setup with
  | [] => none
  | .setWantedSize wantedSize :: setup =>
    if s.manager.holdsQueue then none
    else some { s with setup, wantedSize, manager := s.manager.notFull }
  | .lockDatabase :: setup =>
    match s.database with
    | none => some { s with setup, database := some .setupDatabase }
    | some _ => none
  | .unlockDatabase :: setup => some { s with setup, database := none }
  | .setStatsLoaded :: setup => some { s with setup, statsLoaded := true }
  | .signalStatsFinished :: setup => some { s with setup, manager := s.manager.statsFinished }

def step (s : State) : Step → Option State
  | .playlistManager => managerStep s
  | .setupDatabase => setupStep s
  | .elsewhere size =>
    if s.manager.holdsQueue then none else some { s with size, manager := s.manager.notFull }
  | .wakeUp => some { s with manager := s.manager.notFull.statsFinished }

/-- When the threads start, or later, with a queue of any size. -/
def start (empeg : Bool) (songCount : Nat) (wantedSize size : Int) : State where
  manager := .firstLock
  setup := setupDatabase empeg songCount wantedSize
  database := none
  songCount
  size
  wantedSize := 0
  statsLoaded := false

/-! ## The property -/

/-- The playlist manager waits for the statistics, which are loaded, and for a signal that was
sent. -/
def Missed (s : State) : Prop :=
  s.manager = .waiting .stats ∧ s.statsLoaded = true ∧ Action.signalStatsFinished ∉ s.setup

instance (s : State) : Decidable (Missed s) :=
  inferInstanceAs (Decidable (_ ∧ _ ∧ _))

/-- The signal is not sent between the test of `stats_loaded` and the wait. -/
def SignalsInTime (s : State) : Step → Prop
  | .setupDatabase => s.setup.head? = some .signalStatsFinished → s.manager ≠ .aboutToWait .stats
  | _ => True

/-! ## `setup_database` sets before it signals -/

/-- What is left of `setup_database` before it signals. -/
structure BeforeSignal (s : State) (before : List Action) : Prop where
  setup : s.setup = before ++ [.signalStatsFinished]
  noSignal : Action.signalStatsFinished ∉ before
  loads : s.statsLoaded = true ∨ Action.setStatsLoaded ∈ before

/-- After the signal, the playlist manager is not in front of the wait any more. -/
structure AfterSignal (s : State) : Prop where
  setup : s.setup = []
  loaded : s.statsLoaded = true
  aboutToWait : s.manager ≠ .aboutToWait .stats
  waiting : s.manager ≠ .waiting .stats

def Inv (s : State) : Prop := (∃ before, BeforeSignal s before) ∨ AfterSignal s

variable {s s' : State} {before : List Action}

theorem loadAllMetaData_noSignal (empeg : Bool) (songCount : Nat) :
    Action.signalStatsFinished ∉ loadAllMetaData empeg songCount := by
  cases empeg <;> simp [loadAllMetaData, List.mem_replicate]

theorem startSongPicker_noSignal (empeg : Bool) (songCount : Nat) :
    Action.signalStatsFinished ∉ startSongPicker empeg songCount := by
  cases empeg <;> simp [startSongPicker, List.mem_replicate]

theorem inv_start (empeg : Bool) (songCount : Nat) (wantedSize size : Int) :
    Inv (start empeg songCount wantedSize size) := by
  refine .inl ⟨_, rfl, ?_, .inr ?_⟩
  · have hload := loadAllMetaData_noSignal empeg songCount
    have hpicker := startSongPicker_noSignal empeg songCount
    simp [hload, hpicker]
  · simp [startSongPicker]

/-- A step of another thread than `setup_database`. -/
theorem BeforeSignal.frame (h : BeforeSignal s before) (hsetup : s'.setup = s.setup)
    (hloaded : s'.statsLoaded = s.statsLoaded) : BeforeSignal s' before :=
  ⟨hsetup ▸ h.setup, h.noSignal, hloaded ▸ h.loads⟩

/-- A step of `setup_database` before the signal. -/
theorem BeforeSignal.next {action : Action} (h : BeforeSignal s (action :: before))
    (hsetup : s'.setup = before ++ [.signalStatsFinished])
    (hloaded : s'.statsLoaded = true ∨ s'.statsLoaded = s.statsLoaded ∧ action ≠ .setStatsLoaded) :
    BeforeSignal s' before := by
  refine ⟨hsetup, fun hmem => h.noSignal (List.mem_cons_of_mem action hmem), ?_⟩
  rcases hloaded with hset | ⟨hsame, hother⟩
  · exact .inl hset
  · rw [hsame]
    rcases h.loads with hloads | hmem
    · exact .inl hloads
    · rcases List.mem_cons.mp hmem with heq | hmem
      · exact absurd heq.symm hother
      · exact .inr hmem

/-! ## Steps -/

/-- `playlist_manager` leaves the rest alone, and sees that the statistics are loaded. -/
theorem managerStep_frame (h : managerStep s = some s') :
    s'.setup = s.setup ∧ s'.statsLoaded = s.statsLoaded ∧
      (s'.manager = .aboutToWait .stats → s.statsLoaded = false) ∧
      (s'.manager = .waiting .stats → s.manager = .aboutToWait .stats) := by
  unfold managerStep at h
  cases hmanager : s.manager with
  | firstTest =>
      rw [hmanager] at h
      cases h
      by_cases hfull : s.size ≥ s.wantedSize <;> simp [hfull]
  | wlockDatabase loop =>
      rw [hmanager] at h
      cases hdatabase : s.database with
      | none =>
          simp only [hdatabase] at h
          cases h
          simp
      | some thread =>
          simp only [hdatabase] at h
          cases h
  | test loop =>
      rw [hmanager] at h
      cases loop with
      | size =>
          simp only at h
          split at h
          · cases h
            simp
          · split at h
            · cases h
            · cases h
              simp
      | stats =>
          simp only at h
          split at h
          · cases h
            simp
          · next hloaded =>
              cases h
              simpa using hloaded
  | aboutToWait loop =>
      rw [hmanager] at h
      cases h
      simp
  | firstWaiting | waiting loop =>
      rw [hmanager] at h
      cases h
  | _ =>
      rw [hmanager] at h
      cases h
      simp

theorem notFull_stats (pc : ManagerPc) :
    (pc.notFull = .aboutToWait .stats ↔ pc = .aboutToWait .stats) ∧
      (pc.notFull = .waiting .stats ↔ pc = .waiting .stats) := by
  unfold ManagerPc.notFull
  split <;> simp

theorem statsFinished_stats (pc : ManagerPc) :
    (pc.statsFinished = .aboutToWait .stats ↔ pc = .aboutToWait .stats) ∧
      pc.statsFinished ≠ .waiting .stats := by
  unfold ManagerPc.statsFinished
  split <;> simp_all

theorem AfterSignal.manager (h : AfterSignal s) (hstep : managerStep s = some s') :
    AfterSignal s' := by
  obtain ⟨hsetup, hloaded, habout, hwaiting⟩ := managerStep_frame hstep
  refine ⟨hsetup.trans h.setup, hloaded.trans h.loaded, ?_, ?_⟩
  · intro hnow
    have hunloaded := habout hnow
    rw [h.loaded] at hunloaded
    cases hunloaded
  · exact fun hnow => h.aboutToWait (hwaiting hnow)

/-- A step of `setup_database` that is not the signal. -/
theorem BeforeSignal.setupStep {action : Action} (h : BeforeSignal s (action :: before))
    (hstep : setupStep s = some s') : BeforeSignal s' before := by
  have hsetup : s.setup = action :: (before ++ [.signalStatsFinished]) := h.setup
  unfold HandOff.setupStep at hstep
  rw [hsetup] at hstep
  cases action with
  | setWantedSize wantedSize =>
      simp only at hstep
      split at hstep
      · cases hstep
      · cases hstep
        exact h.next rfl (.inr ⟨rfl, nofun⟩)
  | lockDatabase =>
      cases hdatabase : s.database with
      | none =>
          simp only [hdatabase] at hstep
          cases hstep
          exact h.next rfl (.inr ⟨rfl, nofun⟩)
      | some thread =>
          simp only [hdatabase] at hstep
          cases hstep
  | unlockDatabase =>
      cases hstep
      exact h.next rfl (.inr ⟨rfl, nofun⟩)
  | setStatsLoaded =>
      cases hstep
      exact h.next rfl (.inl rfl)
  | signalStatsFinished => exact absurd List.mem_cons_self h.noSignal

/-- The statistics are loaded when the signal is sent. -/
theorem BeforeSignal.loaded (h : BeforeSignal s []) : s.statsLoaded = true := by
  rcases h.loads with hloaded | hmem
  · exact hloaded
  · cases hmem

/-- The signal. -/
theorem BeforeSignal.signal (h : BeforeSignal s []) (hstep : HandOff.setupStep s = some s') :
    s' = { s with setup := [], manager := s.manager.statsFinished } := by
  have hsetup : s.setup = [.signalStatsFinished] := h.setup
  unfold HandOff.setupStep at hstep
  rw [hsetup] at hstep
  cases hstep
  rfl

/-- **A step that signals in time keeps the invariant.** -/
theorem Inv.next (h : Inv s) {l : Step} (htime : SignalsInTime s l) (hstep : step s l = some s') :
    Inv s' := by
  rcases h with ⟨before, hbefore⟩ | hafter
  · cases l with
    | playlistManager =>
        obtain ⟨hsetup, hloaded, -, -⟩ := managerStep_frame hstep
        exact .inl ⟨before, hbefore.frame hsetup hloaded⟩
    | setupDatabase =>
        cases before with
        | nil =>
            obtain rfl := hbefore.signal hstep
            have hmanager : s.manager ≠ .aboutToWait .stats :=
              htime (congrArg List.head? hbefore.setup)
            have hwoken := statsFinished_stats s.manager
            right
            refine ⟨rfl, hbefore.loaded, ?_, hwoken.2⟩
            intro hnow
            apply hmanager
            exact hwoken.1.mp hnow
        | cons action before => exact .inl ⟨before, hbefore.setupStep hstep⟩
    | elsewhere size =>
        simp only [HandOff.step] at hstep
        split at hstep
        · cases hstep
        · cases hstep
          exact .inl ⟨before, hbefore.frame rfl rfl⟩
    | wakeUp =>
        cases hstep
        exact .inl ⟨before, hbefore.frame rfl rfl⟩
  · have hfull := notFull_stats s.manager
    cases l with
    | playlistManager => exact .inr (hafter.manager hstep)
    | setupDatabase =>
        have hnothing : HandOff.setupStep s = some s' := hstep
        rw [HandOff.setupStep, hafter.setup] at hnothing
        cases hnothing
    | elsewhere size =>
        simp only [HandOff.step] at hstep
        split at hstep
        · cases hstep
        · cases hstep
          right
          refine ⟨hafter.setup, hafter.loaded, ?_, ?_⟩
          · intro hnow
            apply hafter.aboutToWait
            exact hfull.1.mp hnow
          · intro hnow
            apply hafter.waiting
            exact hfull.2.mp hnow
    | wakeUp =>
        cases hstep
        have hwoken := statsFinished_stats s.manager.notFull
        right
        refine ⟨hafter.setup, hafter.loaded, ?_, hwoken.2⟩
        intro hnow
        apply hafter.aboutToWait
        exact hfull.1.mp (hwoken.1.mp hnow)

/-- The signal is heard, and will be after the next step of the playlist manager. -/
theorem Inv.heard (h : Inv s) :
    ¬ Missed s ∧ ∀ s', step s .playlistManager = some s' → ¬ Missed s' := by
  rcases h with ⟨before, hbefore⟩ | hafter
  · have hsignal : Action.signalStatsFinished ∈ s.setup := by
      rw [hbefore.setup]
      simp
    refine ⟨fun hmissed => hmissed.2.2 hsignal, ?_⟩
    intro s' hs' hmissed
    obtain ⟨hsetup, -, -, -⟩ := managerStep_frame hs'
    exact hmissed.2.2 (hsetup ▸ hsignal)
  · refine ⟨fun hmissed => hafter.waiting hmissed.1, ?_⟩
    intro s' hs' hmissed
    exact (hafter.manager hs').waiting hmissed.1

/-- A signal that comes too early is missed by the next step of the playlist manager. -/
theorem Inv.missed (h : Inv s) {l : Step} (htime : ¬ SignalsInTime s l)
    (hstep : step s l = some s') : ∃ t, step s' .playlistManager = some t ∧ Missed t := by
  cases l with
  | setupDatabase =>
      obtain ⟨hhead, hmanager⟩ := Classical.not_imp.mp htime
      have hmanager := Classical.not_not.mp hmanager
      have hbefore : BeforeSignal s [] := by
        rcases h with ⟨before, hbefore⟩ | hafter
        · cases before with
          | nil => exact hbefore
          | cons action before =>
              rw [hbefore.setup] at hhead
              obtain rfl : action = .signalStatsFinished := Option.some.inj hhead
              exact absurd List.mem_cons_self hbefore.noSignal
        · rw [hafter.setup] at hhead
          cases hhead
      obtain rfl := hbefore.signal hstep
      refine ⟨{ s with setup := [], manager := .waiting .stats }, ?_, rfl, hbefore.loaded,
        List.not_mem_nil⟩
      simp only [HandOff.step, managerStep, hmanager, ManagerPc.statsFinished]
  | _ => exact absurd trivial htime

/-! ## Whole runs -/

/-- **The signal is heard exactly if it is never sent between the test and the wait.** Wherever in a
run the playlist manager takes another step, it does not wait for a signal that was sent. -/
theorem signal_heard_iff (empeg : Bool) (songCount : Nat) (wantedSize size : Int)
    (steps : List Step) :
    (∀ pre, pre <+: steps → Always step (fun s => ¬ Missed s)
        (start empeg songCount wantedSize size) (pre ++ [.playlistManager])) ↔
      Guarded step SignalsInTime (start empeg songCount wantedSize size) steps := by
  rw [← always_next_iff]
  have hmiss : ∀ s l s', Inv s → ¬ SignalsInTime s l → step s l = some s' →
      ¬ (¬ Missed s' ∧ ∀ t, step s' .playlistManager = some t → ¬ Missed t) := by
    intro s l s' h htime hs' hheard
    obtain ⟨t, ht, hmissed⟩ := h.missed htime hs'
    exact hheard.2 t ht hmissed
  have hnext : ∀ s l s', Inv s → SignalsInTime s l → step s l = some s' → Inv s' := by
    intro s l s' h htime hs'
    exact h.next htime hs'
  apply always_iff_guarded (fun _ => Inv.heard) hnext hmiss
  exact inv_start empeg songCount wantedSize size

/-- The statistics are loaded and the signal is sent after the playlist manager has let go of
`database_info.lock`, and before it waits. -/
theorem missed_between :
    ¬ Always step (fun s => ¬ Missed s) (start false 1 10 0)
      (.setupDatabase :: List.replicate 6 .playlistManager ++ List.replicate 6 .setupDatabase ++
        [.playlistManager]) := by
  decide

end Squash.HandOff
