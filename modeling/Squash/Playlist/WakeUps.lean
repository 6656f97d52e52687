import Squash.Foundations.Transition

/-!
# Who wakes up whom at the song queue

The playlist manager sleeps while the queue is full, on `song_queue.not_full`, and the player while
it is empty, on `song_queue.not_empty`. They wake each other up, and there are others who do: a
thread that deletes a song, `load_state`, which fills the queue with the songs of the last session,
and `setup_database`, which sets `wanted_size` afterwards. Some of them broadcast while they hold
`song_queue.lock`, and some after they have given it away, so that a thread may be asleep although
what it waits for is the case.

A step of the model is what a thread does while it holds `song_queue.lock`, or a broadcast after
that. The other locks only keep threads out. A wait may return at any time.

Whoever sleeps without a reason is about to be woken up (`always_sound`). So the two can never sleep
for good: from wherever a run has come to, the player gets a song (`always_feeds`).
-/

namespace Squash.WakeUps

open Transition

/-! ## The threads -/

/-- Where `playlist_manager` stands. `first` is its loop that waits for `wanted_size` to be set;
`stats` is where it goes on once it has waited for the statistics, and `announce` is between the
unlocking after a song was queued and the broadcast. -/
inductive ManagerPc where
  | first
  | firstAsleep
  | loop
  | loopAsleep
  | statsAsleep
  | stats
  | announce
  deriving DecidableEq, Repr

/-- Where `player` stands: with a song, in `STATE_BEFORE_SONG`, or in its wait there. -/
inductive PlayerPc where
  | playing
  | wantsSong
  | asleep
  deriving DecidableEq, Repr

/-- Where `setup_database` stands: in the loop of `load_state`, between the unlocking there and the
broadcast, or behind it with `wanted_size` set. -/
inductive SetupPc where
  | loading
  | announce
  | done
  deriving DecidableEq, Repr

structure State where
  /-- `song_queue.size` -/
  size : Int
  /-- `song_queue.wanted_size` -/
  wantedSize : Int
  manager : ManagerPc
  player : PlayerPc
  setup : SetupPc
  /-- `state_info.current_song`, how many songs of the last session were looked up -/
  currentSong : Nat
  /-- How many threads have left `do_delete` or `do_remove_playlist_entry` up to the broadcast. -/
  deleters : Nat
  deriving DecidableEq, Repr

/-- As the threads are started. -/
def start : State where
  size := 0
  wantedSize := 0
  manager := .first
  player := .wantsSong
  setup := .loading
  currentSong := 0
  deleters := 0

/-- `squash_broadcast( song_queue.not_full )`, and the signal. -/
def ManagerPc.notFull : ManagerPc → ManagerPc
  | .firstAsleep => .first
  | .loopAsleep => .loop
  | pc => pc

/-- `squash_broadcast( song_queue.not_empty )`. -/
def PlayerPc.notEmpty : PlayerPc → PlayerPc
  | .asleep => .wantsSong
  | pc => pc

/-! ## Steps -/

/-- What can happen: a step of `playlist_manager`, which may find the statistics loaded, and the
signal for these; a step of `player`, and the end of its song; the two halves of deleting, where a
song is selected or not; the two halves of a turn of `load_state`, which finds the song or not, and
what comes after it; and that a wait returns without a reason. -/
inductive Label where
  | playlistManager (statsLoaded : Bool)
  | statsFinished
  | player
  | songEnds
  | delete (selected : Bool)
  | deleted
  | loadSong (found : Bool)
  | loadedSong
  | setWantedSize
  | wakeManager
  | wakePlayer
  deriving DecidableEq, Repr

/-- The playlist manager wants to queue a song, and waits for the statistics to choose one. -/
def queueSong (s : State) (statsLoaded : Bool) : State :=
  if statsLoaded then { s with manager := .announce, size := s.size + 1 }
  else { s with manager := .statsAsleep }

/-- One step. `playlistSize` is the size in the configuration. -/
def step (playlistSize : Int) (s : State) : Label → Option State
  | .playlistManager statsLoaded =>
    match s.manager with
    | .first =>
      some { s with manager := if s.size ≥ s.wantedSize then .firstAsleep else .loop }
    | .loop =>
      if s.size ≥ s.wantedSize then some { s with manager := .loopAsleep }
      else some (queueSong s statsLoaded)
    -- the size is not looked at again
    | .stats => some (queueSong s statsLoaded)
    | .announce => some { s with manager := .loop, player := s.player.notEmpty }
    | .firstAsleep | .loopAsleep | .statsAsleep => none
  | .statsFinished =>
    match s.manager with
    | .statsAsleep => some { s with manager := .stats }
    | _ => some s
  | .player =>
    match s.player with
    | .wantsSong =>
      if s.size ≤ 0 then some { s with player := .asleep }
      else some { s with player := .playing, size := s.size - 1, manager := s.manager.notFull }
    | .playing | .asleep => none
  | .songEnds =>
    match s.player with
    | .playing => some { s with player := .wantsSong }
    | .wantsSong | .asleep => none
  | .delete selected =>
    some { s with
      size := if selected ∧ 0 < s.size then s.size - 1 else s.size
      deleters := s.deleters + 1 }
  | .deleted =>
    if s.deleters = 0 then none
    else some { s with deleters := s.deleters - 1, manager := s.manager.notFull }
  | .loadSong found =>
    match s.setup with
    | .loading =>
      some { s with
        size := if found then s.size + 1 else s.size
        currentSong := s.currentSong + 1
        setup := .announce }
    | .announce | .done => none
  | .loadedSong =>
    match s.setup with
    | .announce => some { s with setup := .loading, player := s.player.notEmpty }
    | .loading | .done => none
  | .setWantedSize =>
    match s.setup with
    | .loading =>
      some { s with setup := .done, wantedSize := playlistSize, manager := s.manager.notFull }
    | .announce | .done => none
  | .wakeManager =>
    match s.manager with
    | .statsAsleep => some { s with manager := .stats }
    | _ => some { s with manager := s.manager.notFull }
  | .wakePlayer => some { s with player := s.player.notEmpty }

/-! ## The property -/

/-- The playlist manager sleeps on `not_full`. -/
def ManagerPc.Sleeps (pc : ManagerPc) : Prop := pc = .firstAsleep ∨ pc = .loopAsleep

structure Sound (s : State) : Prop where
  /-- If the playlist manager sleeps although there is room, somebody is about to tell it. -/
  notFull : s.manager.Sleeps → s.size < s.wantedSize → 0 < s.deleters
  /-- If the player sleeps although there is a song, somebody is about to tell it. -/
  notEmpty : s.player = .asleep → 0 < s.size → s.manager = .announce ∨ s.setup = .announce
  /-- The queue has no more songs than are wanted, or came from the last session. -/
  size : 0 ≤ s.size ∧ s.size ≤ max s.wantedSize s.currentSong

/-- A wait does not return without a reason. -/
def Label.Woken : Label → Prop
  | .wakeManager | .wakePlayer => False
  | _ => True

/-- The threads can go on so that the player gets a song. The playlist manager may have to be told
that the statistics are loaded. -/
def Feeds (playlistSize : Int) (s : State) : Prop :=
  ∃ ls s', (∀ l ∈ ls, l.Woken) ∧ run (step playlistSize) s ls = some s' ∧ s'.player = .playing

/-! ## What every step keeps -/

structure Inv (playlistSize : Int) (s : State) : Prop where
  sound : Sound s
  /-- Until `wanted_size` is set the playlist manager does nothing. -/
  unset : s.setup ≠ .done → s.wantedSize = 0 ∧ (s.manager = .first ∨ s.manager = .firstAsleep)
  set : s.setup = .done → s.wantedSize = playlistSize
  /-- There is still room after the wait for the statistics. -/
  room : s.manager = .statsAsleep ∨ s.manager = .stats → s.size < s.wantedSize

theorem inv_start (playlistSize : Int) : Inv playlistSize start where
  sound := ⟨by simp [start], by simp [start], by decide⟩
  unset := fun _ => ⟨rfl, .inl rfl⟩
  set := nofun
  room := by decide

section Wakes

variable {manager : ManagerPc}

@[simp] theorem not_sleeps_notFull : ¬ manager.notFull.Sleeps := by
  cases manager <;> simp [ManagerPc.notFull, ManagerPc.Sleeps]

@[simp] theorem notEmpty_ne_asleep (player : PlayerPc) : player.notEmpty ≠ .asleep := by
  cases player <;> simp [PlayerPc.notEmpty]

theorem notFull_first (h : manager = .first ∨ manager = .firstAsleep) :
    manager.notFull = .first := by
  rcases h with rfl | rfl <;> rfl

@[simp] theorem notFull_eq_announce : manager.notFull = .announce ↔ manager = .announce := by
  cases manager <;> simp [ManagerPc.notFull]

@[simp] theorem notFull_eq_stats : manager.notFull = .stats ↔ manager = .stats := by
  cases manager <;> simp [ManagerPc.notFull]

@[simp] theorem notFull_eq_statsAsleep : manager.notFull = .statsAsleep ↔ manager = .statsAsleep := by
  cases manager <;> simp [ManagerPc.notFull]

end Wakes

section Step

variable {playlistSize : Int} {s s' : State}

theorem Inv.done (hs : Inv playlistSize s) (hfirst : s.manager ≠ .first)
    (hasleep : s.manager ≠ .firstAsleep) : s.setup = .done := by
  by_contra hsetup
  rcases (hs.unset hsetup).2 with h | h
  · exact hfirst h
  · exact hasleep h

/-- Waking up the playlist manager is never wrong. -/
theorem Inv.notFull (hs : Inv playlistSize s) :
    Inv playlistSize { s with manager := s.manager.notFull } where
  sound := ⟨fun h => absurd h not_sleeps_notFull, by simpa using hs.sound.notEmpty, hs.sound.size⟩
  unset := fun hsetup => ⟨(hs.unset hsetup).1, .inl (notFull_first (hs.unset hsetup).2)⟩
  set := hs.set
  room := by simpa using hs.room

/-- Waking up the player is never wrong. -/
theorem Inv.notEmpty (hs : Inv playlistSize s) :
    Inv playlistSize { s with player := s.player.notEmpty } where
  sound := ⟨hs.sound.notFull, fun h => absurd h (notEmpty_ne_asleep _), hs.sound.size⟩
  unset := hs.unset
  set := hs.set
  room := hs.room

/-- The playlist manager goes on from a place where it owes nobody a broadcast. -/
theorem Inv.goTo {pc : ManagerPc} (hs : Inv playlistSize s) (howes : s.manager ≠ .announce)
    (hsleeps : pc.Sleeps → s.wantedSize ≤ s.size)
    (hunset : s.setup ≠ .done → pc = .first ∨ pc = .firstAsleep)
    (hroom : pc = .statsAsleep ∨ pc = .stats → s.size < s.wantedSize) :
    Inv playlistSize { s with manager := pc } where
  sound := by
    refine ⟨?_, ?_, hs.sound.size⟩
    · intro h hlt
      exact absurd hlt (Int.not_lt.mpr (hsleeps h))
    · intro hasleep hsize
      exact .inr ((hs.sound.notEmpty hasleep hsize).resolve_left howes)
  unset := fun hsetup => ⟨(hs.unset hsetup).1, hunset hsetup⟩
  set := hs.set
  room := hroom

theorem Inv.queueSong {statsLoaded : Bool} (hs : Inv playlistSize s) (hdone : s.setup = .done)
    (howes : s.manager ≠ .announce) (hroom : s.size < s.wantedSize) :
    Inv playlistSize (queueSong s statsLoaded) := by
  have hbound := hs.sound.size
  cases statsLoaded with
  | true =>
      refine ⟨⟨by simp [WakeUps.queueSong, ManagerPc.Sleeps], fun _ _ => .inl rfl, ?_⟩,
        fun h => absurd hdone h, hs.set, by simp [WakeUps.queueSong]⟩
      show 0 ≤ s.size + 1 ∧ s.size + 1 ≤ max s.wantedSize s.currentSong
      omega
  | false =>
      exact hs.goTo howes (by simp [ManagerPc.Sleeps]) (fun h => absurd hdone h) fun _ => hroom

theorem inv_playlistManager {statsLoaded : Bool} (hs : Inv playlistSize s)
    (h : step playlistSize s (.playlistManager statsLoaded) = some s') : Inv playlistSize s' := by
  have hbound := hs.sound.size
  cases hpc : s.manager <;> simp only [step, hpc, Option.some.injEq, reduceCtorEq] at h
  case first =>
    subst h
    split
    · next hfull => exact hs.goTo (by simp [hpc]) (fun _ => hfull) (fun _ => .inr rfl) (by simp)
    · next hroom =>
        refine hs.goTo (by simp [hpc]) (by simp [ManagerPc.Sleeps]) ?_ (by simp)
        -- as long as `wanted_size` is 0 there is no room
        intro hsetup
        have hwanted := (hs.unset hsetup).1
        omega
  case loop =>
    have hdone := hs.done (by simp [hpc]) (by simp [hpc])
    split at h
    · next hfull =>
        cases h
        exact hs.goTo (by simp [hpc]) (fun _ => hfull) (fun h => absurd hdone h) (by simp)
    · next hroom =>
        cases h
        exact hs.queueSong hdone (by simp [hpc]) (by omega)
  case stats =>
    subst h
    exact hs.queueSong (hs.done (by simp [hpc]) (by simp [hpc])) (by simp [hpc])
      (hs.room (.inr hpc))
  case announce =>
    subst h
    have hdone := hs.done (by simp [hpc]) (by simp [hpc])
    exact ⟨⟨by simp [ManagerPc.Sleeps], fun h => absurd h (notEmpty_ne_asleep _), hbound⟩,
      fun h => absurd hdone h, hs.set, by simp⟩

/-- A song is taken out of the queue, and somebody is told of it or is going to be. -/
theorem Inv.takeOut {player : PlayerPc} {manager : ManagerPc} {deleters : Nat}
    (hs : Inv playlistSize s) (hsize : 0 < s.size)
    (hmanager : manager = s.manager ∧ 0 < deleters ∨ manager = s.manager.notFull)
    (hplayer : player = .asleep → s.player = .asleep) :
    Inv playlistSize { s with size := s.size - 1, player, manager, deleters } := by
  have hbound := hs.sound.size
  refine ⟨⟨?_, ?_, ?_⟩, ?_, hs.set, ?_⟩
  · intro h _
    rcases hmanager with ⟨-, hdeleters⟩ | rfl
    · exact hdeleters
    · exact absurd h not_sleeps_notFull
  · intro hasleep _
    have hannounce := hs.sound.notEmpty (hplayer hasleep) hsize
    rcases hmanager with ⟨rfl, -⟩ | rfl
    · exact hannounce
    · simpa using hannounce
  · show 0 ≤ s.size - 1 ∧ s.size - 1 ≤ max s.wantedSize s.currentSong
    omega
  · intro hsetup
    obtain ⟨hwanted, hfirst⟩ := hs.unset hsetup
    refine ⟨hwanted, ?_⟩
    rcases hmanager with ⟨rfl, -⟩ | rfl
    · exact hfirst
    · exact .inl (notFull_first hfirst)
  · intro hstats
    have hroom : s.size < s.wantedSize := by
      apply hs.room
      rcases hmanager with ⟨rfl, -⟩ | rfl
      · exact hstats
      · simpa using hstats
    show s.size - 1 < s.wantedSize
    omega

theorem inv_loadSong {found : Bool} (hs : Inv playlistSize s)
    (h : step playlistSize s (.loadSong found) = some s') : Inv playlistSize s' := by
  cases hsetup : s.setup <;> simp only [step, hsetup, Option.some.injEq, reduceCtorEq] at h
  subst h
  obtain ⟨hwanted, hfirst⟩ := hs.unset (by simp [hsetup])
  have hbound := hs.sound.size
  refine ⟨⟨?_, fun _ _ => .inr rfl, ?_⟩, fun _ => ⟨hwanted, hfirst⟩, nofun, ?_⟩
  · intro _ hlt
    simp only [hwanted] at hlt
    split at hlt <;> omega
  · show 0 ≤ (if found then s.size + 1 else s.size) ∧
      (if found then s.size + 1 else s.size) ≤ max s.wantedSize ((s.currentSong + 1 : Nat) : Int)
    split <;> omega
  · intro hstats
    rcases hfirst with hpc | hpc <;> simp [hpc] at hstats

/-- The playlist manager goes on after its wait for the statistics. -/
theorem inv_stats (hs : Inv playlistSize s) (hpc : s.manager = .statsAsleep) :
    Inv playlistSize { s with manager := .stats } :=
  hs.goTo (by simp [hpc]) (by simp [ManagerPc.Sleeps])
    (fun hsetup => absurd (hs.done (by simp [hpc]) (by simp [hpc])) hsetup) fun _ =>
    hs.room (.inl hpc)

/-- **Every step keeps the invariant.** -/
theorem inv_step {l : Label} (hs : Inv playlistSize s) (h : step playlistSize s l = some s') :
    Inv playlistSize s' := by
  cases l with
  | playlistManager statsLoaded => exact inv_playlistManager hs h
  | statsFinished =>
      simp only [step] at h
      split at h
      · next hpc =>
          cases h
          exact inv_stats hs hpc
      · cases h
        exact hs
  | player =>
      cases hpc : s.player <;> simp only [step, hpc, reduceCtorEq] at h
      split at h
      · next hempty =>
          cases h
          refine ⟨⟨hs.sound.notFull, ?_, hs.sound.size⟩, hs.unset, hs.set, hs.room⟩
          intro _ hsize
          exact absurd hsize (Int.not_lt.mpr hempty)
      · next hsize =>
          cases h
          exact hs.takeOut (Int.not_le.mp hsize) (.inr rfl) nofun
  | songEnds =>
      cases hpc : s.player <;> simp only [step, hpc, Option.some.injEq, reduceCtorEq] at h
      subst h
      exact ⟨⟨hs.sound.notFull, nofun, hs.sound.size⟩, hs.unset, hs.set, hs.room⟩
  | delete selected =>
      cases h
      by_cases hdelete : selected = true ∧ 0 < s.size
      · rw [if_pos hdelete]
        exact hs.takeOut hdelete.2 (.inl ⟨rfl, Nat.succ_pos _⟩) id
      · rw [if_neg hdelete]
        exact ⟨⟨fun _ _ => Nat.succ_pos _, hs.sound.notEmpty, hs.sound.size⟩, hs.unset, hs.set,
          hs.room⟩
  | deleted =>
      simp only [step] at h
      split at h
      · cases h
      · cases h
        have hwoken := hs.notFull
        exact ⟨⟨fun h => absurd h not_sleeps_notFull, hwoken.sound.notEmpty, hs.sound.size⟩,
          hwoken.unset, hs.set, hwoken.room⟩
  | loadSong found => exact inv_loadSong hs h
  | loadedSong =>
      cases hsetup : s.setup <;> simp only [step, hsetup, Option.some.injEq, reduceCtorEq] at h
      subst h
      exact ⟨⟨hs.sound.notFull, fun h => absurd h (notEmpty_ne_asleep _), hs.sound.size⟩,
        fun _ => hs.unset (by simp [hsetup]), nofun, hs.room⟩
  | setWantedSize =>
      cases hsetup : s.setup <;> simp only [step, hsetup, Option.some.injEq, reduceCtorEq] at h
      subst h
      obtain ⟨hwanted, hfirst⟩ := hs.unset (by simp [hsetup])
      have hbound := hs.sound.size
      have hpc := notFull_first hfirst
      refine ⟨⟨fun h => absurd h not_sleeps_notFull, ?_, ?_⟩, fun h => absurd rfl h, fun _ => rfl,
        by simp [hpc]⟩
      · intro hasleep hsize
        rcases hs.sound.notEmpty hasleep hsize with h | h
        · rcases hfirst with hfirst | hfirst <;> simp [hfirst] at h
        · rw [hsetup] at h
          cases h
      · show 0 ≤ s.size ∧ s.size ≤ max playlistSize s.currentSong
        omega
  | wakeManager =>
      simp only [step] at h
      split at h
      · next hpc =>
          cases h
          exact inv_stats hs hpc
      · cases h
        exact hs.notFull
  | wakePlayer =>
      cases h
      exact hs.notEmpty

end Step

/-- **Nobody oversleeps.** In every run, a thread that sleeps although what it waits for is the case
is about to be woken up; and the playlist manager does not put more songs into the queue than are
wanted, although it does not look again after it has waited for the statistics. -/
theorem always_sound (playlistSize : Int) (ls : List Label) :
    Always (step playlistSize) Sound start ls :=
  always_of_step (fun _ hs => hs.sound) (fun _ _ _ hs h => inv_step hs h) (inv_start playlistSize)
    ls

/-! ## The player gets a song -/

section Feeds

variable {playlistSize : Int} {s s' : State} {l : Label}

theorem Feeds.of_step (h : step playlistSize s l = some s') (hl : l.Woken)
    (hs' : Feeds playlistSize s') : Feeds playlistSize s := by
  obtain ⟨ls, t, hwoken, hrun, ht⟩ := hs'
  refine ⟨l :: ls, t, ?_, ?_, ht⟩
  · intro m hm
    rcases List.mem_cons.mp hm with rfl | hm
    · exact hl
    · exact hwoken m hm
  · rw [run_cons, h]
    exact hrun

theorem feeds_playing (h : s.player = .playing) : Feeds playlistSize s :=
  ⟨[], s, nofun, rfl, h⟩

/-- There is a song, and the player is awake. -/
theorem feeds_wantsSong (hplayer : s.player = .wantsSong) (hsize : 0 < s.size) :
    Feeds playlistSize s := by
  have hstep : step playlistSize s .player =
      some { s with player := .playing, size := s.size - 1, manager := s.manager.notFull } := by
    simp only [step, hplayer, if_neg (Int.not_le.mpr hsize)]
  exact .of_step hstep trivial (feeds_playing rfl)

/-- There is a song, and the player is about to be woken up. -/
theorem feeds_announce (hmanager : s.manager = .announce) (hsize : 0 < s.size) :
    Feeds playlistSize s := by
  have hstep : step playlistSize s (.playlistManager true) =
      some { s with manager := .loop, player := s.player.notEmpty } := by
    simp only [step, hmanager]
  cases hplayer : s.player with
  | playing => exact feeds_playing hplayer
  | wantsSong | asleep =>
      refine .of_step hstep trivial (feeds_wantsSong ?_ hsize)
      rw [hplayer]
      rfl

/-- The playlist manager queues a song. -/
theorem feeds_queueSong (hmanager : s.manager = .loop ∨ s.manager = .stats) (hnonneg : 0 ≤ s.size)
    (hroom : s.size < s.wantedSize) : Feeds playlistSize s := by
  have hstep : step playlistSize s (.playlistManager true) =
      some { s with manager := .announce, size := s.size + 1 } := by
    rcases hmanager with hpc | hpc
    · simp [step, hpc, queueSong, hroom]
    · simp [step, hpc, queueSong]
  exact .of_step hstep trivial (feeds_announce rfl (Int.lt_add_one_of_le hnonneg))

/-- There is room, so the playlist manager can be brought to queue a song. -/
theorem Inv.feeds_room (hs : Inv playlistSize s) (hroom : s.size < s.wantedSize) :
    Feeds playlistSize s := by
  have hnonneg := hs.sound.size.1
  have hloop : ∀ {t : State}, t.manager = .loop → t.size = s.size → t.wantedSize = s.wantedSize →
      Feeds playlistSize t := by
    intro t hpc hsize hwanted
    exact feeds_queueSong (.inl hpc) (hsize ▸ hnonneg) (by rw [hsize, hwanted]; exact hroom)
  have hfirst : ∀ {t : State}, t.manager = .first → t.size = s.size →
      t.wantedSize = s.wantedSize → Feeds playlistSize t := by
    intro t hpc hsize hwanted
    have hstep : step playlistSize t (.playlistManager true) =
        some { t with manager := .loop } := by
      simp [step, hpc, hsize, hwanted, hroom]
    exact .of_step hstep trivial (hloop rfl hsize hwanted)
  -- if the playlist manager sleeps, a thread that has deleted a song wakes it up
  have hdeleted : s.manager.Sleeps → step playlistSize s .deleted =
      some { s with deleters := s.deleters - 1, manager := s.manager.notFull } := by
    intro hsleeps
    simp only [step, if_neg (Nat.pos_iff_ne_zero.mp (hs.sound.notFull hsleeps hroom))]
  cases hpc : s.manager with
  | first => exact hfirst hpc rfl rfl
  | firstAsleep =>
      refine .of_step (hdeleted (.inl hpc)) trivial (hfirst ?_ rfl rfl)
      rw [hpc]
      rfl
  | loop => exact hloop hpc rfl rfl
  | loopAsleep =>
      refine .of_step (hdeleted (.inr hpc)) trivial (hloop ?_ rfl rfl)
      rw [hpc]
      rfl
  | statsAsleep =>
      have hstep : step playlistSize s .statsFinished = some { s with manager := .stats } := by
        simp only [step, hpc]
      exact .of_step hstep trivial (feeds_queueSong (.inr rfl) hnonneg hroom)
  | stats => exact feeds_queueSong (.inr hpc) hnonneg hroom
  | announce =>
      have hstep : step playlistSize s (.playlistManager true) =
          some { s with manager := .loop, player := s.player.notEmpty } := by
        simp only [step, hpc]
      exact .of_step hstep trivial (hloop rfl rfl rfl)

theorem Inv.feeds_done (hs : Inv playlistSize s) (hplaylist : 0 < playlistSize)
    (hdone : s.setup = .done) : Feeds playlistSize s := by
  have hwanted := hs.set hdone
  by_cases hroom : s.size < s.wantedSize
  · exact hs.feeds_room hroom
  · have hsize : 0 < s.size := by omega
    cases hplayer : s.player with
    | playing => exact feeds_playing hplayer
    | wantsSong => exact feeds_wantsSong hplayer hsize
    | asleep =>
        rcases hs.sound.notEmpty hplayer hsize with h | h
        · exact feeds_announce h hsize
        · rw [hdone] at h
          cases h

/-- `setup_database` goes on until it has set `wanted_size`. -/
theorem Inv.feeds (hs : Inv playlistSize s) (hplaylist : 0 < playlistSize) :
    Feeds playlistSize s := by
  have hloading : ∀ {t : State}, Inv playlistSize t → t.setup = .loading →
      Feeds playlistSize t := by
    intro t ht hsetup
    have hstep : step playlistSize t .setWantedSize =
        some { t with
          setup := .done, wantedSize := playlistSize, manager := t.manager.notFull } := by
      simp only [step, hsetup]
    exact .of_step hstep trivial ((inv_step ht hstep).feeds_done hplaylist rfl)
  cases hsetup : s.setup with
  | done => exact hs.feeds_done hplaylist hsetup
  | loading => exact hloading hs hsetup
  | announce =>
      have hstep : step playlistSize s .loadedSong =
          some { s with setup := .loading, player := s.player.notEmpty } := by
        simp only [step, hsetup]
      exact .of_step hstep trivial (hloading (inv_step hs hstep) rfl)

end Feeds

/-- **The player can always get a song**, if any are wanted at all. Wherever a run has come to, the
threads can go on so that the player has a song. No wait has to return without a reason for that. -/
theorem always_feeds (playlistSize : Int) (ls : List Label) :
    Always (step playlistSize) (fun s => 0 < playlistSize → Feeds playlistSize s) start ls :=
  always_of_step (fun _ hs hplaylist => hs.feeds hplaylist) (fun _ _ _ hs h => inv_step hs h)
    (inv_start playlistSize) ls

end Squash.WakeUps
