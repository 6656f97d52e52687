import Squash.Locks.Threads
import Squash.Player.Model

/-!
# Locks are given back

What `player` does with the locks in one turn of its outer loop, and `load_all_meta_data` in each of
its turns, as far as it depends on what they find: commands, songs and frames, and songs that are
loaded already.

Both have a turn that leaves by `continue` at the wrong moment. The player comes back to the top of
its loop with three locks when it meets a song of unknown type; `load_all_meta_data` has given the
database back once too often when it skips a song. `balanced_iff` says that nothing else is wrong.

The turns are those of `Squash.Locks.Threads`, where nothing is said about what a path depends on: a
step here is what the player's thread does from the top of its loop to the top (`playerStep_goes`),
and a load of the statistics is a path through the other (`path_loadAllMetaData`).
-/

namespace Squash.Locks

open Locking Transition

/-! ## Turns of the player -/

/-- What the player goes by: its `play_state`, `player_info.state`, and whether `cur_song` is set. -/
structure PlayerVars where
  playState : Player.PlayState
  state : PlayerState
  hasSong : Bool
  deriving DecidableEq, Repr

/-- What the player finds in a turn: the commands; how often it waits for a song, the type of the
song, and whether its file and the sound device can be opened; `pcm_size` of the first frame, if
there is one. -/
structure Turn where
  commands : List PlayerCommand
  waits : Nat
  song : SongType
  opens : Bool
  soundOpens : Bool
  frame : Option Int
  deriving DecidableEq, Repr

/-- `spectrum_reset`. -/
def spectrumResetOps : List (Op Lock) :=
  [squashLock .spectrumRing, squashLock .spectrumInfo, squashUnlock .spectrumInfo,
    squashUnlock .spectrumRing]

/-- One command. The program ends where it follows a null pointer. -/
def command (build : Build) (v : PlayerVars) :
    PlayerCommand → Option (List (Op Lock) × PlayerVars)
  | .skip =>
    if v.hasSong then
      some (squashLog build,
        { v with playState := if v.playState = .inSong then .afterSong else v.playState })
    else none
  | .stop =>
    some (squashLog build ++ if v.playState = .inSong then spectrumResetOps else [],
      { v with state := .stop })
  | .pause => some (squashLog build, { v with state := .pause })
  | .play => some (squashLog build, { v with state := .play })
  | .noop => some (squashLog build, v)

def commands (build : Build) :
    PlayerVars → List PlayerCommand → Option (List (Op Lock) × PlayerVars)
  | v, [] => some ([], v)
  | v, c :: cs => do
    let (ops, v) ← command build v c
    let (more, v) ← commands build v cs
    return (ops ++ more, v)

/-- Process any commands. -/
def processCommands (build : Build) (v : PlayerVars) (cs : List PlayerCommand) :
    Option (List (Op Lock) × PlayerVars) :=
  if cs = [] then some ([], v)
  else do
    let (ops, v) ← commands build v cs
    return ([squashUnlock .playerCommand, squashWlock .databaseInfo, squashLock .playerInfo,
      squashLock .playerCommand, squashLock .frameBuffer] ++ ops ++
      [squashUnlock .playerInfo, squashUnlock .frameBuffer, squashWunlock .databaseInfo], v)

/-- "only pause if we were going to be playing and we shouldn't" -/
def PlayerVars.pauses (v : PlayerVars) : Bool :=
  v.state = .bigStop || (v.playState = .inSong && v.state ≠ .play)

/-- Wait once for a song to be added. -/
def waitForSong : List (Op Lock) :=
  [squashUnlock .frameBuffer, squashUnlock .playerInfo, squashRunlock .databaseInfo] ++
    squashWait .songQueue ++
    [squashUnlock .songQueue, squashRlock .databaseInfo, squashLock .songQueue,
      squashLock .playerInfo, squashLock .frameBuffer]

/-- `STATE_BEFORE_SONG`. An error is the end of the thread. -/
def beforeSong (build : Build) (v : PlayerVars) (turn : Turn) :
    Option (List (Op Lock) × PlayerVars) :=
  let ops := [squashRlock .databaseInfo, squashLock .songQueue, squashLock .playerInfo,
      squashLock .frameBuffer] ++ (List.replicate turn.waits waitForSong).flatten ++
    squashLog build ++ [squashUnlock .songQueue]
  let v := { v with hasSong := true }
  if turn.song = .unknown then some (ops, v)
  else if turn.opens && turn.soundOpens then
    some (ops ++ [squashUnlock .frameBuffer, squashRunlock .databaseInfo,
      squashUnlock .playerInfo] ++ spectrumResetOps, { v with playState := .inSong })
  else none

/-- `STATE_IN_SONG`. -/
def inSong (v : PlayerVars) (turn : Turn) : List (Op Lock) × PlayerVars :=
  match turn.frame with
  | none =>
    ([squashLock .frameBuffer] ++ squashWait .frameBuffer ++ [squashUnlock .frameBuffer], v)
  | some pcmSize =>
    let ops := [squashLock .frameBuffer, squashUnlock .frameBuffer]
    if pcmSize = 0 ∨ pcmSize ≤ -2 then
      (ops ++ [squashWlock .databaseInfo, squashWunlock .databaseInfo],
        { v with playState := .afterSong })
    else if pcmSize = -1 then (ops, v)
    else
      (ops ++ [squashLock .spectrumRing, squashUnlock .spectrumRing, squashLock .playerInfo,
        squashUnlock .playerInfo], v)

/-- `STATE_AFTER_SONG`. -/
def afterSong (v : PlayerVars) : List (Op Lock) × PlayerVars :=
  ([squashRlock .databaseInfo, squashLock .pastQueue, squashUnlock .pastQueue,
    squashRunlock .databaseInfo, squashLock .playerInfo, squashUnlock .playerInfo],
    { v with playState := .beforeSong })

/-- Actually play stuff. -/
def playStuff (build : Build) (v : PlayerVars) (turn : Turn) :
    Option (List (Op Lock) × PlayerVars) :=
  match v.playState with
  | .beforeSong => beforeSong build v turn
  | .inSong => some (inSong v turn)
  | .afterSong => some (afterSong v)

/-- One turn of the outer loop, if it comes back to the top. -/
def playerTurn (build : Build) (v : PlayerVars) (turn : Turn) :
    Option (List (Op Lock) × PlayerVars) := do
  let (ops, v) ← processCommands build v turn.commands
  let ops := squashLock .playerCommand :: ops
  if v.pauses then
    return (ops ++ squashWait .playerCommand ++ [squashUnlock .playerCommand], v)
  else
    let (more, v) ← playStuff build v turn
    return (ops ++ squashUnlock .playerCommand :: more, v)

/-! ## The outer loop -/

/-- The player at the top of its loop. -/
structure PlayerTop where
  vars : PlayerVars
  held : Held Lock
  deriving DecidableEq, Repr

def playerStep (build : Build) (s : PlayerTop) (turn : Turn) : Option PlayerTop := do
  let (ops, vars) ← playerTurn build s.vars turn
  let held ← effect ops s.held
  return ⟨vars, held⟩

def startPlayer : PlayerTop := ⟨⟨.beforeSong, .bigStop, false⟩, []⟩

/-- The player meets a song of unknown type. -/
def MeetsUnknown (build : Build) (s : PlayerTop) (turn : Turn) : Prop :=
  turn.song = .unknown ∧ ∃ ops v, processCommands build s.vars turn.commands = some (ops, v) ∧
    v.pauses = false ∧ v.playState = .beforeSong

/-! ## The locks behind a turn -/

variable {build : Build} {v v' : PlayerVars} {turn : Turn} {ops : List (Op Lock)}

theorem balanced_squashLog (build : Build) : Balanced (squashLog build) := by
  intro held
  unfold squashLog squashLock squashUnlock
  split
  · rw [effect_acquire, effect_release, effect_nil]
  · rfl

theorem balanced_spectrumResetOps : Balanced spectrumResetOps := by
  intro held
  unfold spectrumResetOps squashLock squashUnlock
  rw [effect_acquire, effect_acquire, effect_release, effect_release, effect_nil]

theorem balanced_command {c : PlayerCommand} (h : command build v c = some (ops, v')) :
    Balanced ops := by
  cases c with
  | skip =>
      simp only [command] at h
      split at h
      · cases h
        exact balanced_squashLog build
      · cases h
  | stop =>
      cases h
      apply (balanced_squashLog build).append
      split
      · exact balanced_spectrumResetOps
      · exact balanced_nil
  | pause | play | noop =>
      cases h
      exact balanced_squashLog build

theorem balanced_commands {cs : List PlayerCommand} (h : commands build v cs = some (ops, v')) :
    Balanced ops := by
  induction cs generalizing v ops with
  | nil =>
      cases h
      exact balanced_nil
  | cons c cs ih =>
      obtain ⟨⟨first, v₁⟩, hfirst, h⟩ := Option.bind_eq_some_iff.mp h
      obtain ⟨⟨more, v₂⟩, hmore, h⟩ := Option.bind_eq_some_iff.mp h
      cases h
      exact (balanced_command hfirst).append (ih hmore)

/-- The commands are processed with `player_command.lock` held. -/
theorem effect_processCommands {cs : List PlayerCommand}
    (h : processCommands build v cs = some (ops, v')) :
    effect ops [(.exclusive, .playerCommand)] = some [(.exclusive, .playerCommand)] := by
  unfold processCommands at h
  split at h
  · cases h
    rfl
  · obtain ⟨⟨body, v₁⟩, hbody, h⟩ := Option.bind_eq_some_iff.mp h
    cases h
    rw [effect_append, effect_append]
    show ((effect body _).bind _) = _
    rw [balanced_commands hbody]
    rfl

/-- What `STATE_BEFORE_SONG` holds while it waits for a song and looks at it. -/
theorem effect_waitForSong (n : Nat) :
    effect (List.replicate n waitForSong).flatten
        [(.exclusive, .frameBuffer), (.exclusive, .playerInfo), (.exclusive, .songQueue),
          (.shared, .databaseInfo)] =
      some [(.exclusive, .frameBuffer), (.exclusive, .playerInfo), (.exclusive, .songQueue),
        (.shared, .databaseInfo)] := by
  induction n with
  | zero => rfl
  | succ n ih =>
      rw [List.replicate_succ, List.flatten_cons, effect_append]
      exact ih

/-- In `STATE_BEFORE_SONG` nothing is given back for a song of unknown type but the queue. -/
theorem effect_beforeSong (h : beforeSong build v turn = some (ops, v')) :
    effect ops [] = some (if turn.song = .unknown then
      [(.exclusive, .frameBuffer), (.exclusive, .playerInfo), (.shared, .databaseInfo)]
    else []) := by
  have htake : effect ([squashRlock .databaseInfo, squashLock .songQueue, squashLock .playerInfo,
      squashLock .frameBuffer] ++ (List.replicate turn.waits waitForSong).flatten ++
      squashLog build ++ [squashUnlock .songQueue]) [] =
      some [(.exclusive, .frameBuffer), (.exclusive, .playerInfo), (.shared, .databaseInfo)] := by
    rw [effect_append, effect_append, effect_append]
    show (((effect (List.replicate turn.waits waitForSong).flatten _).bind _).bind _) = _
    rw [effect_waitForSong, Option.bind_some, balanced_squashLog build]
    rfl
  unfold beforeSong at h
  split at h
  · next hunknown =>
      cases h
      rw [if_pos hunknown]
      exact htake
  · next hknown =>
      split at h
      · cases h
        rw [if_neg hknown, effect_append, effect_append, htake]
        exact balanced_spectrumResetOps []
      · cases h

theorem effect_inSong (v : PlayerVars) (turn : Turn) : effect (inSong v turn).1 [] = some [] := by
  unfold inSong
  split
  · rfl
  · split
    · rfl
    · split <;> rfl

theorem effect_afterSong (v : PlayerVars) : effect (afterSong v).1 [] = some [] := rfl

/-- **The locks behind a turn.** A turn that comes back to the top gives back what it took, unless
it meets a song of unknown type. -/
theorem effect_playerTurn (h : playerTurn build v turn = some (ops, v')) :
    ∃ held, effect ops [] = some held ∧ (held = [] ↔ ¬ MeetsUnknown build ⟨v, []⟩ turn) := by
  obtain ⟨⟨before, v₁⟩, hbefore, h⟩ := Option.bind_eq_some_iff.mp h
  have heffect : effect (squashLock .playerCommand :: before) [] =
      some [(.exclusive, .playerCommand)] := effect_processCommands hbefore
  -- whether a song of unknown type is met shows behind the commands
  have hmeets : MeetsUnknown build ⟨v, []⟩ turn ↔
      turn.song = .unknown ∧ v₁.pauses = false ∧ v₁.playState = .beforeSong := by
    constructor
    · rintro ⟨hsong, ops', v₂, hbefore', hgoes, hstate⟩
      have hsame := Option.some.inj (hbefore.symm.trans hbefore')
      cases hsame
      exact ⟨hsong, hgoes, hstate⟩
    · rintro ⟨hsong, hgoes, hstate⟩
      exact ⟨hsong, before, v₁, hbefore, hgoes, hstate⟩
  simp only at h
  split at h
  · next hpauses =>
      cases h
      refine ⟨[], ?_, by simp [hmeets, hpauses]⟩
      rw [effect_append, effect_append, heffect]
      rfl
  · next hpauses =>
      obtain ⟨⟨more, v₂⟩, hmore, h⟩ := Option.bind_eq_some_iff.mp h
      cases h
      have hgoes : v₁.pauses = false := Bool.eq_false_of_not_eq_true hpauses
      have hturn : effect (squashLock .playerCommand :: before ++
          squashUnlock .playerCommand :: more) [] = effect more [] := by
        rw [effect_append, heffect, Option.bind_some]
        exact effect_release _ _ _ _
      rw [hturn]
      unfold playStuff at hmore
      cases hstate : v₁.playState with
      | beforeSong =>
          rw [hstate] at hmore
          refine ⟨_, effect_beforeSong hmore, ?_⟩
          by_cases hsong : turn.song = .unknown
          · simp [hmeets, hsong, hgoes, hstate]
          · simp [hmeets, hsong]
      | inSong =>
          rw [hstate] at hmore
          obtain ⟨rfl, -⟩ := Prod.mk.inj (Option.some.inj hmore.symm)
          exact ⟨[], effect_inSong v₁ turn, by simp [hmeets, hstate]⟩
      | afterSong =>
          rw [hstate] at hmore
          obtain ⟨rfl, -⟩ := Prod.mk.inj (Option.some.inj hmore.symm)
          exact ⟨[], effect_afterSong v₁, by simp [hmeets, hstate]⟩

/-- What a step of the player is. -/
theorem playerStep_eq_some {s s' : PlayerTop} (hs : s.held = [])
    (h : playerStep build s turn = some s') :
    s'.held = [] ↔ ¬ MeetsUnknown build s turn := by
  obtain ⟨vars, held⟩ := s
  obtain rfl : held = [] := hs
  obtain ⟨⟨ops, vars'⟩, hturn, h⟩ := Option.bind_eq_some_iff.mp h
  obtain ⟨held', heffect, h⟩ := Option.bind_eq_some_iff.mp h
  cases h
  obtain ⟨held'', heffect', hiff⟩ := effect_playerTurn hturn
  obtain rfl := Option.some.inj (heffect.symm.trans heffect')
  exact hiff

/-- **The player comes to the top of its loop without locks** exactly as long as it meets no song of
unknown type. -/
theorem always_noLocks_iff (build : Build) (turns : List Turn) :
    Always (playerStep build) (fun s => s.held = []) startPlayer turns ↔
      Guarded (playerStep build) (fun s turn => ¬ MeetsUnknown build s turn) startPlayer turns := by
  have hkeep : ∀ s turn s', s.held = [] → ¬ MeetsUnknown build s turn →
      playerStep build s turn = some s' → s'.held = [] := by
    intro s turn s' hs hknown hs'
    exact (playerStep_eq_some hs hs').mpr hknown
  have hbreak : ∀ s turn s', s.held = [] → ¬ ¬ MeetsUnknown build s turn →
      playerStep build s turn = some s' → s'.held ≠ [] := by
    intro s turn s' hs hunknown hs' hheld
    apply hunknown
    exact (playerStep_eq_some hs hs').mp hheld
  exact always_iff_guarded (fun _ hs => hs) hkeep hbreak rfl turns

/-! ## The turns as runs of the threads -/

theorem path_lockFree (build : Build) : Prog.Path (lockFree build) [] :=
  Prog.path_block (.cons .leave (.cons (.first .skip) .nil)) rfl

theorem path_squashLog (build : Build) : Prog.Path (lockFree build) (squashLog build) := by
  apply Prog.path_block (.cons (.again (Prog.path_ops _) .leave) (.cons (.first .skip) .nil))
  simp

theorem path_spectrumReset : Prog.Path spectrumReset spectrumResetOps :=
  Prog.path_block (.cons (.op _) (.cons (.reach _) (.cons (Prog.path_ops _) .nil))) rfl

theorem path_command {c : PlayerCommand} (h : command build v c = some (ops, v')) :
    Prog.Path (playerCommand build) ops := by
  -- the log is written, then one of the branches is taken
  have hcommand : ∀ more, Prog.Path (.oneOf [lockFree build,
      .block [lockFree build, spectrumReset], .skip]) more →
      Prog.Path (playerCommand build) (squashLog build ++ more) := by
    intro more hmore
    apply Prog.path_block (.cons (path_squashLog build) (.cons hmore .nil))
    simp
  cases c with
  | skip =>
      simp only [command] at h
      split at h
      · cases h
        rw [← List.append_nil (squashLog build)]
        exact hcommand [] (.first (path_lockFree build))
      · cases h
  | stop =>
      cases h
      apply hcommand
      split
      · apply Prog.Path.second
        apply Prog.Path.first
        exact Prog.path_block (.cons (path_lockFree build) (.cons path_spectrumReset .nil)) rfl
      · exact .second (.second .skip)
  | pause | play | noop =>
      cases h
      rw [← List.append_nil (squashLog build)]
      exact hcommand [] (.second (.second .skip))

theorem path_commands {cs : List PlayerCommand} (h : commands build v cs = some (ops, v')) :
    Prog.Path (.loop (playerCommand build)) ops := by
  induction cs generalizing v ops with
  | nil =>
      cases h
      exact .leave
  | cons c cs ih =>
      obtain ⟨⟨first, v₁⟩, hfirst, h⟩ := Option.bind_eq_some_iff.mp h
      obtain ⟨⟨more, v₂⟩, hmore, h⟩ := Option.bind_eq_some_iff.mp h
      cases h
      exact .again (path_command hfirst) (ih hmore)

theorem path_processCommands {cs : List PlayerCommand}
    (h : processCommands build v cs = some (ops, v')) :
    Prog.Path (.either (playerCommands build) .skip) ops := by
  unfold processCommands at h
  split at h
  · cases h
    exact .second .skip
  · obtain ⟨⟨body, v₁⟩, hbody, h⟩ := Option.bind_eq_some_iff.mp h
    cases h
    apply Prog.Path.first
    apply Prog.path_block
      (.cons (Prog.path_ops _) (.cons (path_commands hbody) (.cons (Prog.path_ops _) .nil)))
    simp

theorem path_beforeSong (h : beforeSong build v turn = some (ops, v')) :
    Prog.Path (playerBeforeSong build) ops := by
  have hwaits : Prog.Path (.loop (.block [
      .ops [squashUnlock .frameBuffer, squashUnlock .playerInfo, squashRunlock .databaseInfo],
      .wait .songQueue,
      .ops [squashUnlock .songQueue, squashRlock .databaseInfo, squashLock .songQueue,
        squashLock .playerInfo, squashLock .frameBuffer]]) : Code)
      (List.replicate turn.waits waitForSong).flatten := by
    apply Prog.path_loop
    intro ops hops
    obtain rfl := List.eq_of_mem_replicate hops
    exact Prog.path_block
      (.cons (Prog.path_ops _) (.cons (.wait _) (.cons (Prog.path_ops _) .nil))) rfl
  unfold beforeSong at h
  split at h
  · cases h
    apply Prog.path_block (.cons (Prog.path_ops _) (.cons hwaits (.cons (path_squashLog build)
      (.cons (.op _) (.cons (.first (.reach _)) .nil)))))
    simp
  · split at h
    · cases h
      have hopens : Prog.Path (.block [lockFree build,
          .ops [squashUnlock .frameBuffer, squashRunlock .databaseInfo], lockFree build,
          .op (squashUnlock .playerInfo), spectrumReset])
          ([squashUnlock .frameBuffer, squashRunlock .databaseInfo,
            squashUnlock .playerInfo] ++ spectrumResetOps) :=
        Prog.path_block (.cons (path_lockFree build) (.cons (Prog.path_ops _)
          (.cons (path_lockFree build) (.cons (.op _) (.cons path_spectrumReset .nil))))) rfl
      apply Prog.path_block (.cons (Prog.path_ops _) (.cons hwaits (.cons (path_squashLog build)
        (.cons (.op _) (.cons (.second hopens) .nil)))))
      simp
    · cases h

theorem path_inSong (build : Build) (v : PlayerVars) (turn : Turn) :
    Prog.Path (playerInSong build) (inSong v turn).1 := by
  unfold inSong
  split
  · apply Prog.path_block (.cons (.op _) (.cons (.second (Prog.path_block
      (.cons (.wait _) (.cons (.op _) .nil)) rfl)) .nil))
    rfl
  · -- a frame is taken, then one of the branches
    have hframe : ∀ more, Prog.Path (.oneOf [
        .block [.op (squashWlock .databaseInfo), lockFree build, .op (squashWunlock .databaseInfo)],
        .skip,
        .block [spectrumUpdate, .op (squashLock .playerInfo), .op (squashUnlock .playerInfo),
          lockFree build]]) more →
        Prog.Path (playerInSong build)
          ([squashLock .frameBuffer, squashUnlock .frameBuffer] ++ more) := by
      intro more hmore
      apply Prog.path_block (.cons (.op _) (.cons (.first (Prog.path_block
        (.cons (.op _) (.cons hmore .nil)) rfl)) .nil))
      simp
    split
    · apply hframe
      apply Prog.Path.first
      exact Prog.path_block (.cons (.op _) (.cons (path_lockFree build) (.cons (.op _) .nil))) rfl
    · split
      · exact hframe [] (.second (.first .skip))
      · apply hframe
        apply Prog.Path.second
        apply Prog.Path.second
        exact Prog.path_block (.cons (Prog.path_ops _) (.cons (.op _) (.cons (.op _)
          (.cons (path_lockFree build) .nil)))) rfl

theorem path_afterSong (build : Build) (v : PlayerVars) :
    Prog.Path (playerAfterSong build) (afterSong v).1 :=
  Prog.path_block (.cons (Prog.path_ops _) (.cons (path_lockFree build) (.cons (Prog.path_ops _)
    (.cons (path_lockFree build) (.cons (.op _) .nil))))) rfl

theorem path_playStuff (h : playStuff build v turn = some (ops, v')) :
    Prog.Path (.oneOf [playerBeforeSong build, playerInSong build, playerAfterSong build]) ops := by
  unfold playStuff at h
  split at h
  · exact .first (path_beforeSong h)
  · obtain ⟨rfl, -⟩ := Prod.mk.inj (Option.some.inj h.symm)
    exact .second (.first (path_inSong build v turn))
  · obtain ⟨rfl, -⟩ := Prod.mk.inj (Option.some.inj h.symm)
    exact .second (.second (path_afterSong build v))

/-- A turn is a path through the body of the outer loop. -/
theorem path_playerTurn (h : playerTurn build v turn = some (ops, v')) :
    ∃ body, player build = .forever body ∧ Prog.Path body ops := by
  refine ⟨_, rfl, ?_⟩
  obtain ⟨⟨before, v₁⟩, hbefore, h⟩ := Option.bind_eq_some_iff.mp h
  have hcommands := path_processCommands hbefore
  simp only at h
  split at h
  · cases h
    apply Prog.path_block (.cons (.op _) (.cons hcommands (.cons (.first (Prog.path_block
      (.cons (.wait _) (.cons (.op _) .nil)) rfl)) .nil)))
    simp [squashWait, squashUnlock, squashLock]
  · obtain ⟨⟨more, v₂⟩, hmore, h⟩ := Option.bind_eq_some_iff.mp h
    cases h
    apply Prog.path_block (.cons (.op _) (.cons hcommands (.cons (.second (Prog.path_block
      (.cons (.op _) (.cons (path_playStuff hmore) .nil)) rfl)) .nil)))
    simp

/-- **A turn is what the thread does** from the top of its loop to the top. -/
theorem playerStep_goes {s s' : PlayerTop} (h : playerStep build s turn = some s') :
    Thread.Goes ⟨[player build], s.held⟩ ⟨[player build], s'.held⟩ := by
  obtain ⟨⟨ops, vars⟩, hturn, h⟩ := Option.bind_eq_some_iff.mp h
  obtain ⟨held, heffect, h⟩ := Option.bind_eq_some_iff.mp h
  cases h
  obtain ⟨body, hplayer, hpath⟩ := path_playerTurn hturn
  rw [hplayer]
  exact hpath.goes_forever heffect []

/-! ## `load_all_meta_data` -/

/-- `enum meta_type_e`. -/
inductive MetaType where
  | typeMeta | typeStat
  deriving DecidableEq, Repr

/-- How the database is held between the turns. -/
def loadMode (build : Build) : Mode := if build.empeg then .shared else .exclusive

/-- One turn, for a song with this `meta_key_count`; every 500th turn writes to the log. -/
def loadTurn (build : Build) (which : MetaType) (i : Nat) (metaKeyCount : Int) : List (Op Lock) :=
  (if build.empeg then [squashRunlock .databaseInfo, squashWlock .databaseInfo] else []) ++
    if which = .typeMeta ∧ metaKeyCount ≠ -1 then [squashWunlock .databaseInfo]
    else
      (if i % 500 = 0 then squashLog build else []) ++
        if build.empeg then [squashWunlock .databaseInfo, squashRlock .databaseInfo] else []

/-- Up to the top of the loop after so many songs. -/
def loadTurns (build : Build) (which : MetaType) (metaKeyCounts : List Int) : List (Op Lock) :=
  squashLog build ++ [.acquire (loadMode build) .databaseInfo] ++
    (metaKeyCounts.mapIdx (loadTurn build which)).flatten

def loadAllMetaDataOps (build : Build) (which : MetaType) (metaKeyCounts : List Int) :
    List (Op Lock) :=
  loadTurns build which metaKeyCounts ++ [.release (loadMode build) .databaseInfo]

/-- The database is held in the same mode at the top of each turn, no lock is released that is not
held, and in the end none is. -/
def LoadBalanced (build : Build) (which : MetaType) (metaKeyCounts : List Int) : Prop :=
  (∀ n ≤ metaKeyCounts.length, effect (loadTurns build which (metaKeyCounts.take n)) [] =
      some [(loadMode build, .databaseInfo)]) ∧
    effect (loadAllMetaDataOps build which metaKeyCounts) [] = some []

/-! ## The lock behind a load -/

variable {which : MetaType} {metaKeyCount : Int} {metaKeyCounts : List Int}

/-- A turn that loads its song comes back with the database held as before. -/
theorem effect_loadTurn (h : which = .typeStat ∨ metaKeyCount = -1) (i : Nat) :
    effect (loadTurn build which i metaKeyCount) [(loadMode build, .databaseInfo)] =
      some [(loadMode build, .databaseInfo)] := by
  have hloads : ¬ (which = .typeMeta ∧ metaKeyCount ≠ -1) := by grind
  have hlog : Balanced (if i % 500 = 0 then squashLog build else []) := by
    split
    · exact balanced_squashLog build
    · exact balanced_nil
  unfold loadTurn loadMode
  rw [if_neg hloads, effect_append]
  split
  · show effect _ [_] = _
    rw [effect_append, hlog]
    rfl
  · show effect _ [_] = _
    rw [effect_append, hlog]
    rfl

/-- A turn that skips its song has given the database back. -/
theorem effect_loadTurn_skip (h : metaKeyCount ≠ -1) (i : Nat) :
    effect (loadTurn build .typeMeta i metaKeyCount) [(loadMode build, .databaseInfo)] =
      some [] := by
  have hskips : MetaType.typeMeta = .typeMeta ∧ metaKeyCount ≠ -1 := ⟨rfl, h⟩
  unfold loadTurn loadMode
  rw [if_pos hskips]
  split <;> rfl

/-- One more song is one more turn. -/
theorem effect_loadTurns_concat (build : Build) (which : MetaType) (metaKeyCounts : List Int)
    (metaKeyCount : Int) :
    effect (loadTurns build which (metaKeyCounts ++ [metaKeyCount])) [] =
      (effect (loadTurns build which metaKeyCounts) []).bind
        (effect (loadTurn build which metaKeyCounts.length metaKeyCount)) := by
  unfold loadTurns
  rw [List.mapIdx_concat, List.flatten_concat, ← List.append_assoc, effect_append]

theorem effect_loadTurns (h : which = .typeStat ∨ ∀ c ∈ metaKeyCounts, c = -1) :
    effect (loadTurns build which metaKeyCounts) [] = some [(loadMode build, .databaseInfo)] := by
  induction metaKeyCounts using List.reverseRecOn with
  | nil =>
      unfold loadTurns
      rw [effect_append, effect_append, balanced_squashLog build]
      rfl
  | append_singleton cs c ih =>
      have hinit : which = .typeStat ∨ ∀ c' ∈ cs, c' = -1 := by
        apply h.imp_right
        intro hall c' hc'
        exact hall c' (List.mem_append_left [c] hc')
      have hlast : which = .typeStat ∨ c = -1 := by
        apply h.imp_right
        intro hall
        exact hall c List.mem_concat_self
      rw [effect_loadTurns_concat, ih hinit, Option.bind_some]
      exact effect_loadTurn hlast _

/-- **The database is held as it should be** exactly where no song is skipped. -/
theorem loadBalanced_iff (build : Build) (which : MetaType) (metaKeyCounts : List Int) :
    LoadBalanced build which metaKeyCounts ↔
      which = .typeStat ∨ ∀ c ∈ metaKeyCounts, c = -1 := by
  constructor
  · rintro ⟨htop, -⟩
    cases which with
    | typeStat => exact .inl rfl
    | typeMeta =>
        right
        intro c hc
        by_contra hloaded
        obtain ⟨i, hi, rfl⟩ := List.getElem_of_mem hc
        -- the turn of the song would have to keep the lock
        have hbefore := htop i hi.le
        have hbehind := htop (i + 1) hi
        rw [List.take_succ_eq_append_getElem hi, effect_loadTurns_concat, hbefore,
          Option.bind_some, effect_loadTurn_skip hloaded] at hbehind
        cases hbehind
  · intro h
    constructor
    · intro n _
      apply effect_loadTurns
      apply h.imp_right
      intro hunloaded c hc
      exact hunloaded c (List.mem_of_mem_take hc)
    · unfold loadAllMetaDataOps
      rw [effect_append, effect_loadTurns h, Option.bind_some]
      exact effect_release _ _ _ _

/-- A load of the statistics is a path through the `loadAllMetaData` of the threads. -/
theorem path_loadAllMetaData (build : Build) (metaKeyCounts : List Int) :
    Prog.Path (loadAllMetaData build) (loadAllMetaDataOps build .typeStat metaKeyCounts) := by
  have hlog : ∀ i, Prog.Path (lockFree build) (if i % 500 = 0 then squashLog build else []) := by
    intro i
    split
    · exact path_squashLog build
    · exact path_lockFree build
  have hloop : ∀ body : Code, (∀ i c, Prog.Path body (loadTurn build .typeStat i c)) →
      Prog.Path (.loop body) (metaKeyCounts.mapIdx (loadTurn build .typeStat)).flatten := by
    intro body hbody
    apply Prog.path_loop
    intro ops hops
    obtain ⟨i, hi, rfl⟩ := List.mem_mapIdx.mp hops
    exact hbody i _
  unfold loadAllMetaData loadAllMetaDataOps loadTurns loadMode
  cases hempeg : build.empeg with
  | true =>
      have hturn : ∀ i c, Prog.Path (.block [
          .ops [squashRunlock .databaseInfo, squashWlock .databaseInfo], lockFree build,
          .ops [squashWunlock .databaseInfo, squashRlock .databaseInfo]])
          (loadTurn build .typeStat i c) := by
        intro i c
        apply Prog.path_block (.cons (Prog.path_ops _) (.cons (hlog i)
          (.cons (Prog.path_ops _) .nil)))
        simp [loadTurn, hempeg]
      apply Prog.path_block (.cons (path_squashLog build) (.cons (.op _) (.cons (hloop _ hturn)
        (.cons (path_lockFree build) (.cons (.op _) .nil)))))
      simp [squashRlock, squashRunlock]
  | false =>
      have hturn : ∀ i c, Prog.Path (lockFree build) (loadTurn build .typeStat i c) := by
        intro i c
        have hops : loadTurn build .typeStat i c = if i % 500 = 0 then squashLog build else [] := by
          simp [loadTurn, hempeg]
        rw [hops]
        exact hlog i
      apply Prog.path_block (.cons (path_squashLog build) (.cons (.op _) (.cons (hloop _ hturn)
        (.cons (path_lockFree build) (.cons (.op _) .nil)))))
      simp [squashWlock, squashWunlock]

/-! ## Both -/

/-- **Locks are given back**, by the player in every run and by every load of all metadata, exactly
where no song of unknown type is met, and no song is skipped. -/
theorem balanced_iff (build : Build) (turns : List Turn) (which : MetaType)
    (metaKeyCounts : List Int) :
    Always (playerStep build) (fun s => s.held = []) startPlayer turns ∧
        LoadBalanced build which metaKeyCounts ↔
      Guarded (playerStep build) (fun s turn => ¬ MeetsUnknown build s turn) startPlayer turns ∧
        (which = .typeStat ∨ ∀ c ∈ metaKeyCounts, c = -1) :=
  and_congr (always_noLocks_iff build turns) (loadBalanced_iff build which metaKeyCounts)

/-- The player is told to play, and finds a song of unknown type; and a load of all metadata finds a
song that has its own. -/
theorem not_balanced :
    ¬ Always (playerStep ⟨false, false, false, false⟩) (fun s => s.held = []) startPlayer
        [⟨[.play], 0, .unknown, false, false, none⟩] ∧
      ∀ build, ¬ LoadBalanced build .typeMeta [0] := by
  constructor
  · decide
  · intro build hload
    have hcount := (loadBalanced_iff build .typeMeta [0]).mp hload
    simp at hcount

end Squash.Locks
