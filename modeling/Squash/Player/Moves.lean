import Squash.Player.Model

/-!
# What a step of the player and the decoder can do

`Move s l s' es` lists the outcomes of a step, one constructor for each thing that can happen, with
everything that is known when it does; `step_move` is the inversion of `step`. Every invariant of
the two threads is proved by cases on a `Move`, so that `step` itself is taken apart only here.

The steps of the player that change neither the buffer nor the decoder and are seen by no event are
one constructor, `quiet`.
-/

namespace Squash.Player

variable {π : Type}

/-! ## The decoder's locked section -/

section Projections

variable (bd : Shared π)

@[simp] theorem park_buffer : (park bd).1 = bd.1 := rfl
@[simp] theorem park_decoderData : (park bd).2.decoderData = bd.2.decoderData := rfl
@[simp] theorem park_decoderFunction : (park bd).2.decoderFunction = bd.2.decoderFunction := rfl
@[simp] theorem park_closeFunction : (park bd).2.closeFunction = bd.2.closeFunction := rfl
@[simp] theorem park_newFrame : (park bd).2.newFrame = bd.2.newFrame := rfl
@[simp] theorem park_waiting : (park bd).2.waiting = mustWait bd := rfl

/-- Adopting the new file only clears `new_file` in the buffer. -/
@[simp] theorem adoptFile_buffer : (adoptFile bd).1 = { bd.1 with newFile := false } := by
  obtain ⟨b, d⟩ := bd
  unfold adoptFile
  split
  · rfl
  · next h =>
      simp only [Bool.not_eq_true] at h
      simp only [← h]

@[simp] theorem adoptFile_decoder : (adoptFile bd).2 =
    { bd.2 with
      decoderData := if bd.1.newFile then bd.1.decoderData else bd.2.decoderData
      decoderFunction := if bd.1.newFile then bd.1.decoderFunction else bd.2.decoderFunction
      closeFunction := if bd.1.newFile then bd.1.closeFunction else bd.2.closeFunction } := by
  unfold adoptFile
  split <;> rfl

end Projections

/-- A decoder between decode calls: both functions come from one file, and so does the frame in
hand. -/
structure Decoder.Ok (d : Decoder π) : Prop where
  functions : d.closeFunction = d.decoderFunction
  data : d.decoderFunction.isSome → d.decoderData.isSome
  inHand : ∀ h f, d.newFrame = some (h, f) → d.decoderFunction.isSome ∧ d.decoderData = some h

/-- Without a file the section only looks for a new one. -/
theorem decoderSection_idle {b : FrameBuffer π} {d : Decoder π} (hd : d.Ok)
    (hframe : d.newFrame = none) (hfun : d.decoderFunction = none) :
    decoderSection (b, d) = (park (adoptFile (b, d)), []) := by
  have hclose : d.closeFunction = none := hd.functions.trans hfun
  have heof : checkSongEof (b, d) = ((b, d), []) := by
    unfold checkSongEof
    split
    · simp [closeFile, hclose]
    · rfl
  simp [decoderSection, heof, storeFrame, hframe]

/-- With a frame in hand the section stores it. It closes the file if `song_eof` is set or the
frame ends the file; `song_eof` is clear afterwards in any case. -/
theorem decoderSection_frame {b : FrameBuffer π} {d : Decoder π} {h : Handle} {f : FrameData π}
    (hd : d.Ok) (hframe : d.newFrame = some (h, f)) :
    decoderSection (b, d) =
      (park (adoptFile
        ({ b with
            songEof := false
            frames := b.frames ++ [f]
            pcmSize := if f.Ends then b.pcmSize else b.pcmSize + f.pcmSize },
          { d with
            newFrame := none
            decoderFunction := if b.songEof ∨ f.Ends then none else d.decoderFunction
            closeFunction := if b.songEof ∨ f.Ends then none else d.closeFunction })),
        (if b.songEof ∨ f.Ends then [.closed .frameDecoder h] else []) ++
          if f.HasData then [.copied h] else []) := by
  obtain ⟨hopen, hdata⟩ := hd.inHand h f hframe
  obtain ⟨c, hc⟩ := Option.isSome_iff_exists.mp hopen
  have hclose : d.closeFunction = some c := hd.functions.trans hc
  by_cases heof : b.songEof = true
  · by_cases hends : f.Ends <;>
      simp [decoderSection, checkSongEof, heof, closeFile, hclose, storeFrame, hframe, hends, hdata]
  · have heof' : b.songEof = false := by simpa using heof
    by_cases hends : f.Ends <;>
      simp [decoderSection, checkSongEof, heof', closeFile, hclose, storeFrame, hframe, hends,
        hdata]

/-! ## The player's sections -/

section Player

@[simp] theorem flush_frames (b : FrameBuffer π) : b.flush.frames = [] := rfl
@[simp] theorem flush_pcmSize (b : FrameBuffer π) : b.flush.pcmSize = 0 := rfl
@[simp] theorem flush_songEof (b : FrameBuffer π) : b.flush.songEof = b.songEof := rfl
@[simp] theorem flush_newFile (b : FrameBuffer π) : b.flush.newFile = b.newFile := rfl
@[simp] theorem flush_decoderData (b : FrameBuffer π) : b.flush.decoderData = b.decoderData := rfl

variable {s : State π} {song : Song} {start : Int} {opens soundOpens : Bool}

theorem execCommand_skip :
    (execCommand s .skip).1 =
      { s with
        buffer := { s.buffer.flush with songEof := true }
        player := { s.player with
          playState := if s.player.playState = .inSong then .afterSong else s.player.playState
          pc := if s.player.curSong = none then .crashed else .draining } } := rfl

theorem execCommand_stop_inSong (hin : s.player.playState = .inSong) :
    (execCommand s .stop).1 =
      { s with
        buffer := s.buffer.flush
        player := { s.player with pc := .draining, state := .stop, currentPosition := 0 } } := by
  simp [execCommand, hin]

theorem execCommand_stop_idle (hin : s.player.playState ≠ .inSong) :
    (execCommand s .stop).1 =
      { s with
        buffer := s.buffer.flush
        player := { s.player with pc := .draining, state := .stop } } := by
  simp [execCommand, hin]

/-- The player as it starts on a song, with its loop left at `pc`. -/
def PlayerThread.started (p : PlayerThread π) (song : Song) (start : Int) (pc : PlayerPc π) :
    PlayerThread π :=
  { p with pc, curSong := some song, song := some song, currentPosition := start }

section Started

variable (p : PlayerThread π) (pc : PlayerPc π)

@[simp] theorem started_pc : (p.started song start pc).pc = pc := rfl
@[simp] theorem started_curSong : (p.started song start pc).curSong = some song := rfl
@[simp] theorem started_playState : (p.started song start pc).playState = p.playState := rfl

end Started

theorem startSong_unknown (htype : song.songType = .unknown) :
    (startSong s song start opens soundOpens).1 =
      { s with player := s.player.started song start (.halted true) } := by
  simp [startSong, htype, PlayerThread.started]

theorem startSong_fails (htype : song.songType ≠ .unknown) :
    (startSong s song start false soundOpens).1 =
      { s with
        buffer := { s.buffer with decoderData := none }
        player := s.player.started song start (.halted true) } := by
  simp [startSong, htype, PlayerThread.started]

theorem startSong_opens (htype : song.songType ≠ .unknown) :
    (startSong s song start true soundOpens).1 =
      { s with
        buffer := { s.buffer.flush with
          newFile := true
          decoderData := some s.nextHandle
          decoderFunction := some song.songType
          closeFunction := some song.songType }
        player :=
          { s.player.started song start (if soundOpens then .top else .halted false) with
            playState := if soundOpens then .inSong else s.player.playState }
        nextHandle := s.nextHandle + 1 } := by
  cases soundOpens <;> simp [startSong, htype, PlayerThread.started]

end Player

/-! ## The outcomes of a step -/

/-- The program counters that carry no obligation for the rest of the loop. -/
def PlayerPc.Plain : PlayerPc π → Prop
  | .top | .draining | .waitCommand | .dispatch | .waitSong => True
  | _ => False

/-- The player has neither halted nor crashed. -/
def PlayerPc.Running : PlayerPc π → Prop
  | .halted _ | .crashed => False
  | _ => True

/-- The player may look at commands. -/
def PlayerPc.AtCommands : PlayerPc π → Prop
  | .top | .draining => True
  | _ => False

/-- What the step `l` can do to `s`. -/
inductive Move (s : State π) : Step π → State π → List (Event π) → Prop
  | decode {f : FrameData π} {h : Handle} (hdata : s.decoder.decoderData = some h)
      (halive : s.player.pc.alive) (hidle : s.decoder.newFrame = none)
      (hopen : s.decoder.decoderFunction.isSome) :
      Move s (.decode f) { s with decoder := { s.decoder with newFrame := some (h, f) } }
        [.decoded h f]
  | sectionIdle (hlock : s.player.pc.holdsLock = false) (hframe : s.decoder.newFrame = none)
      (hfun : s.decoder.decoderFunction = none) :
      Move s .decoderSection
        { s with
          buffer := (park (adoptFile (s.buffer, s.decoder))).1
          decoder := (park (adoptFile (s.buffer, s.decoder))).2 } []
  | sectionFrame {h : Handle} {f : FrameData π} {bd : Shared π} {es : List (Event π)}
      (hlock : s.player.pc.holdsLock = false) (hframe : s.decoder.newFrame = some (h, f))
      (hsection : decoderSection (s.buffer, s.decoder) = (bd, es)) :
      Move s .decoderSection { s with buffer := bd.1, decoder := bd.2 } es
  | wake (hlock : s.player.pc.holdsLock = false) (hwait : s.decoder.waiting = true) :
      Move s .decoderWake
        { s with decoder := (park (s.buffer, s.decoder)).2 } []
  | skip (hpc : s.player.pc.AtCommands) :
      Move s (.command .skip) (execCommand s .skip).1
        [.skipped s.buffer.decoderData, .feedback s.player.curSong (-1)]
  | stopInSong (hpc : s.player.pc.AtCommands) (hin : s.player.playState = .inSong) :
      Move s (.command .stop) (execCommand s .stop).1
        (s.buffer.decoderData.toList.map (.sought · 0))
  | stopIdle (hpc : s.player.pc.AtCommands) (hin : s.player.playState ≠ .inSong) :
      Move s (.command .stop) (execCommand s .stop).1 []
  | quiet {l : Step π} {p : PlayerThread π} (hlabel : l ≠ .decoderSection)
      (hskip : l ≠ .command .skip) (hstop : l ≠ .command .stop)
      (hfrom : s.player.pc.Running)
      (hframe : ∀ f, s.player.pc = .gotFrame f → ¬ f.Ends) (hpc : p.pc.Plain)
      (hsong : p.curSong = s.player.curSong) (hplay : p.playState = s.player.playState) :
      Move s l { s with player := p } []
  | unknownType {song : Song} {start : Int} {opens soundOpens : Bool} (hlock : s.player.pc.Plain)
      (hplay : s.player.playState = .beforeSong) (htype : song.songType = .unknown) :
      Move s (.beforeSong song start opens soundOpens)
        (startSong s song start opens soundOpens).1 [.started song]
  | openFails {song : Song} {start : Int} {soundOpens : Bool} (hlock : s.player.pc.Plain)
      (hplay : s.player.playState = .beforeSong) (htype : song.songType ≠ .unknown) :
      Move s (.beforeSong song start false soundOpens)
        (startSong s song start false soundOpens).1 [.started song]
  | opens {song : Song} {start : Int} {soundOpens : Bool} (hlock : s.player.pc.Plain)
      (hplay : s.player.playState = .beforeSong) (htype : song.songType ≠ .unknown) :
      Move s (.beforeSong song start true soundOpens)
        (startSong s song start true soundOpens).1
        [.started song, .opened s.nextHandle, .sought s.nextHandle start]
  | noFrame (hpc : s.player.pc = .dispatch) (hplay : s.player.playState = .inSong)
      (hframes : s.buffer.frames = []) :
      Move s .inSong { s with player := { s.player with pc := .waitNewData } } []
  | take {f : FrameData π} {rest : List (FrameData π)} (hpc : s.player.pc = .dispatch)
      (hplay : s.player.playState = .inSong) (hframes : s.buffer.frames = f :: rest) :
      Move s .inSong
        { s with
          buffer := { s.buffer with frames := rest, pcmSize := s.buffer.pcmSize - f.pcmSize }
          player := { s.player with pc := .gotFrame f } } [.took f]
  | ends {f : FrameData π} (hpc : s.player.pc = .gotFrame f) (hends : f.Ends) :
      Move s .useFrame
        { s with player := { s.player with pc := .top, playState := .afterSong } }
        [.feedback s.player.curSong 1]
  | retire (hpc : s.player.pc = .dispatch) (hplay : s.player.playState = .afterSong) :
      Move s .afterSong
        { s with player := { s.player with pc := .top, playState := .beforeSong } }
        [.retired s.player.curSong]

theorem startSong_move {s : State π} {song : Song} {start : Int} {opens soundOpens : Bool}
    (hlock : s.player.pc.Plain) (hplay : s.player.playState = .beforeSong) :
    Move s (.beforeSong song start opens soundOpens) (startSong s song start opens soundOpens).1
      (startSong s song start opens soundOpens).2 := by
  by_cases htype : song.songType = .unknown
  · have hes : (startSong s song start opens soundOpens).2 = [.started song] := by
      simp [startSong, htype]
    rw [hes]
    exact .unknownType hlock hplay htype
  · cases opens with
    | false =>
        have hes : (startSong s song start false soundOpens).2 = [.started song] := by
          simp [startSong, htype]
        rw [hes]
        exact .openFails hlock hplay htype
    | true =>
        have hes : (startSong s song start true soundOpens).2 =
            [.started song, .opened s.nextHandle, .sought s.nextHandle start] := by
          simp [startSong, htype]
        rw [hes]
        exact .opens hlock hplay htype

theorem execCommand_move {s : State π} (hpc : s.player.pc.AtCommands) (c : PlayerCommand) :
    Move s (.command c) (execCommand s c).1 (execCommand s c).2 := by
  have hfrom : s.player.pc.Running := by
    cases hp : s.player.pc <;> first | trivial | (rw [hp] at hpc; exact hpc.elim)
  have hframe : ∀ f, s.player.pc = .gotFrame f → ¬ f.Ends := by
    intro f hf
    rw [hf] at hpc
    exact hpc.elim
  cases c with
  | skip => exact .skip hpc
  | stop =>
      by_cases hin : s.player.playState = .inSong
      · have hes : (execCommand s .stop).2 = s.buffer.decoderData.toList.map (.sought · 0) := by
          simp [execCommand, hin]
        rw [hes]
        exact .stopInSong hpc hin
      · have hes : (execCommand s .stop).2 = [] := by simp [execCommand, hin]
        rw [hes]
        exact .stopIdle hpc hin
  | pause => exact .quiet nofun nofun nofun hfrom hframe trivial rfl rfl
  | play => exact .quiet nofun nofun nofun hfrom hframe trivial rfl rfl
  | noop => exact .quiet nofun nofun nofun hfrom hframe trivial rfl rfl

/-- The inversion of `step`. -/
theorem step_move {s s' : State π} {l : Step π} {es : List (Event π)} (hd : s.decoder.Ok)
    (h : step s l = some (s', es)) : Move s l s' es := by
  cases l with
  | decode f =>
      simp only [step] at h
      split at h
      · cases h
      · next d hdata =>
          split at h
          · next hguard =>
              cases h
              exact .decode hdata hguard.1 hguard.2.2.1 hguard.2.2.2
          · cases h
  | decoderSection =>
      simp only [step] at h
      split at h
      · next hguard =>
          obtain ⟨hlock, -, hready⟩ := hguard
          cases hframe : s.decoder.newFrame with
          | none =>
              have hfun := hready hframe
              rw [decoderSection_idle hd hframe hfun] at h
              cases h
              exact .sectionIdle hlock hframe hfun
          | some hf =>
              cases h
              exact .sectionFrame hlock hframe rfl
      · cases h
  | decoderWake =>
      simp only [step] at h
      split at h
      · next hguard =>
          cases h
          exact .wake hguard.1 hguard.2
      · cases h
  | command c =>
      have hmove : s.player.pc.AtCommands → Move s (.command c) s' es := by
        intro hpc
        have hexec : execCommand s c = (s', es) := by
          cases hp : s.player.pc <;> simp_all [step, PlayerPc.AtCommands]
        simpa [hexec] using execCommand_move hpc c
      cases hpc : s.player.pc <;> simp only [step, hpc, reduceCtorEq] at h
      · exact hmove (by rw [hpc]; trivial)
      · exact hmove (by rw [hpc]; trivial)
  | endCommands =>
      cases hpc : s.player.pc <;> simp only [step, hpc, reduceCtorEq] at h
      · cases h
        refine .quiet nofun nofun nofun (by simp [hpc, PlayerPc.Running]) (by simp [hpc]) ?_ rfl rfl
        split <;> trivial
      · cases h
        refine .quiet nofun nofun nofun (by simp [hpc, PlayerPc.Running]) (by simp [hpc]) ?_ rfl rfl
        split <;> trivial
  | commandWake =>
      cases hpc : s.player.pc <;> simp only [step, hpc, reduceCtorEq] at h
      cases h
      exact .quiet nofun nofun nofun (by simp [hpc, PlayerPc.Running]) (by simp [hpc]) trivial rfl rfl
  | noSong =>
      cases hpc : s.player.pc <;> cases hplay : s.player.playState <;>
        simp only [step, hpc, hplay, reduceCtorEq] at h
      · cases h
        exact .quiet nofun nofun nofun (by simp [hpc, PlayerPc.Running]) (by simp [hpc]) trivial rfl
          hplay.symm
      · cases h
        exact .quiet nofun nofun nofun (by simp [hpc, PlayerPc.Running]) (by simp [hpc]) trivial rfl
          hplay.symm
  | beforeSong song start opens soundOpens =>
      have hmove : s.player.pc.Plain → s.player.playState = .beforeSong →
          startSong s song start opens soundOpens = (s', es) →
          Move s (.beforeSong song start opens soundOpens) s' es := by
        intro hpc hplay hstart
        have hm : Move s (.beforeSong song start opens soundOpens)
            (startSong s song start opens soundOpens).1
            (startSong s song start opens soundOpens).2 := startSong_move hpc hplay
        rwa [hstart] at hm
      cases hpc : s.player.pc <;> cases hplay : s.player.playState <;>
        simp only [step, hpc, hplay, reduceCtorEq, Option.some.injEq] at h
      · exact hmove (by rw [hpc]; trivial) hplay h
      · exact hmove (by rw [hpc]; trivial) hplay h
  | inSong =>
      cases hpc : s.player.pc <;> cases hplay : s.player.playState <;>
        simp only [step, hpc, hplay, reduceCtorEq] at h
      cases hframes : s.buffer.frames with
      | nil =>
          rw [takeFrame, hframes] at h
          cases h
          exact .noFrame hpc hplay hframes
      | cons f rest =>
          rw [takeFrame, hframes] at h
          cases h
          exact .take hpc hplay hframes
  | useFrame =>
      cases hpc : s.player.pc <;> simp only [step, hpc, reduceCtorEq] at h
      next f =>
        have hsame : ∀ g, PlayerPc.gotFrame f = .gotFrame g → g = f := by
          intro g hg
          cases hg
          rfl
        simp only [useFrame, Option.some.injEq] at h
        split at h
        · next hends =>
            cases h
            exact .ends hpc hends
        · next hends =>
            split at h <;>
            · cases h
              refine .quiet nofun nofun nofun (by simp [hpc, PlayerPc.Running]) ?_ trivial rfl rfl
              intro g hg
              rw [hpc] at hg
              rwa [hsame g hg]
  | dataWake =>
      cases hpc : s.player.pc <;> simp only [step, hpc, reduceCtorEq] at h
      cases h
      exact .quiet nofun nofun nofun (by simp [hpc, PlayerPc.Running]) (by simp [hpc]) trivial rfl rfl
  | afterSong =>
      cases hpc : s.player.pc <;> cases hplay : s.player.playState <;>
        simp only [step, hpc, hplay, reduceCtorEq] at h
      cases h
      exact .retire hpc hplay

end Squash.Player
