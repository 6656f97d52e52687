import Squash.Foundations.Transition
import Squash.Global

/-!
# The player and the frame decoder

`player` and `frame_decoder` are two loops that share `frame_buffer`. A step of the model is what
one of them does while it holds `frame_buffer.lock`, or the decoder's call to `decoder_function`,
which it makes without the lock. The player's drain pass holds the lock over all its commands; here
it is one step for each command, and the decoder's locked section has to wait meanwhile
(`PlayerPc.holdsLock`), so that only its unlocked decode call can fall in between.

What the model leaves to its environment, so that it may do anything: the commands found in the
queue, the song the queue hands over, whether a file or the sound device can be opened, and what a
decode call returns. A `squash_wait` may return at any time, as it may by a spurious wake-up; the
broadcasts are therefore not part of the state.

Each step also reports the events that the properties speak about.
-/

namespace Squash.Player

/-- `PLAYER_MAX_BUFFER_SIZE`. -/
def playerMaxBufferSize : Nat := 2048

/-- `PLAYER_MAX_BUFFER_PCM_SIZE`. -/
def playerMaxBufferPcmSize : Int := 1024 * 1024

/-- What a `decoder_data` pointer points to: the files opened so far are numbered. -/
abbrev Handle := Nat

/-- What the player reads through a `song_info_t *`. -/
structure Song where
  id : Nat
  songType : SongType
  playLength : Int
  deriving DecidableEq, Repr

/-- `frame_data_t`; `π` is what `pcm_data` points to. -/
structure FrameData (π : Type) where
  pcmData : Option π
  pcmSize : Int
  position : Int
  deriving DecidableEq, Repr

variable {π : Type}

/-- End of file (`pcm_size == 0`) or a fatal error (`pcm_size <= -2`). -/
def FrameData.Ends (f : FrameData π) : Prop := f.pcmSize = 0 ∨ f.pcmSize ≤ -2

instance (f : FrameData π) : Decidable f.Ends :=
  inferInstanceAs (Decidable (_ ∨ _))

/-- The decoder copies the frame's data out of the file's own buffer. -/
def FrameData.HasData (f : FrameData π) : Prop := f.pcmData.isSome ∧ f.pcmSize > 0

instance (f : FrameData π) : Decidable f.HasData :=
  inferInstanceAs (Decidable (_ ∧ _))

/-! ## State -/

/-- `frame_buffer_t`. `frames` are the entries below `size`; the function pointers are named by the
row of `song_functions` they come from. -/
structure FrameBuffer (π : Type) where
  frames : List (FrameData π)
  pcmSize : Int
  songEof : Bool
  newFile : Bool
  decoderData : Option Handle
  decoderFunction : Option SongType
  closeFunction : Option SongType
  deriving DecidableEq, Repr

/-- The local variables of `frame_decoder`. `newFrame` is the frame in hand while
`have_new_frame` is set, with the file that returned it; `waiting` is set inside
`squash_wait( frame_buffer.restart, .. )`. -/
structure Decoder (π : Type) where
  decoderData : Option Handle
  decoderFunction : Option SongType
  closeFunction : Option SongType
  newFrame : Option (Handle × FrameData π)
  waiting : Bool
  deriving DecidableEq, Repr

/-- `play_state` of `player`. -/
inductive PlayState where
  | beforeSong | inSong | afterSong
  deriving DecidableEq, Repr

/-- Where `player` stands: at the top of its loop, inside the drain pass, in one of its three
`squash_wait`s (`player_command.changed`, `song_queue.not_empty`, `frame_buffer.new_data`), before
`switch( play_state )`, or with a frame it has just taken. When it has `halted` it never goes on,
and keeps `frame_buffer.lock` or not; when it has `crashed`, by following a null pointer, the
process is gone. -/
inductive PlayerPc (π : Type) where
  | top
  | draining
  | waitCommand
  | dispatch
  | waitSong
  | gotFrame (curFrame : FrameData π)
  | waitNewData
  | halted (lockHeld : Bool)
  | crashed
  deriving DecidableEq, Repr

def PlayerPc.alive : PlayerPc π → Bool
  | .crashed => false
  | _ => true

/-- `frame_buffer.lock` cannot be had between two steps. -/
def PlayerPc.holdsLock : PlayerPc π → Bool
  | .draining => true
  | .halted lockHeld => lockHeld
  | .crashed => true
  | _ => false

/-- The local variables of `player`, and `player_info`, which only `player` writes. -/
structure PlayerThread (π : Type) where
  pc : PlayerPc π
  curSong : Option Song
  playState : PlayState
  song : Option Song
  currentPosition : Int
  state : PlayerState
  deriving DecidableEq, Repr

/-- Both threads and what they share; `nextHandle` numbers the files. -/
structure State (π : Type) where
  buffer : FrameBuffer π
  decoder : Decoder π
  player : PlayerThread π
  nextHandle : Handle
  deriving DecidableEq, Repr

/-- As `main` and the first lines of the two threads set things up. -/
def init : State π where
  buffer := ⟨[], 0, false, false, none, none, none⟩
  decoder := ⟨none, none, none, none, false⟩
  player := ⟨.top, none, .beforeSong, none, 0, .bigStop⟩
  nextHandle := 0

/-! ## Events and steps -/

inductive Thread where
  | player | frameDecoder
  deriving DecidableEq, Repr

/-- What a step is seen to do: calls of the decoder's functions on a file, copies out of a
`pcm_data` pointer that the file had returned, commands processed (with the current song's file),
and what the player does with songs and frames. -/
inductive Event (π : Type) where
  | started (song : Song)
  | opened (h : Handle)
  | sought (h : Handle) (seekTime : Int)
  | decoded (h : Handle) (f : FrameData π)
  | copied (h : Handle)
  | closed (thread : Thread) (h : Handle)
  | took (f : FrameData π)
  | skipped (h : Option Handle)
  | feedback (song : Option Song) (direction : Int)
  | retired (song : Option Song)
  deriving DecidableEq, Repr

/-- The labels. The decoder: its unlocked decode call returns `f`, its locked section, its wait
returns. The player: one command of the drain pass, the end of the pass with the pause test, and
then what `switch( play_state )` leads to; `commandWake` and `dataWake` end its waits. -/
inductive Step (π : Type) where
  | decode (f : FrameData π)
  | decoderSection
  | decoderWake
  | command (c : PlayerCommand)
  | endCommands
  | commandWake
  | noSong
  | beforeSong (song : Song) (startPosition : Int) (opens soundOpens : Bool)
  | inSong
  | useFrame
  | dataWake
  | afterSong
  deriving DecidableEq, Repr

/-! ## `frame_decoder` -/

/-- The part of the state that the decoder's locked section works on. -/
abbrev Shared (π : Type) := FrameBuffer π × Decoder π

/-- `if( close_function ) { close_function( decoder_data ); .. }`, the block that occurs twice. -/
def closeFile : Shared π → Shared π × List (Event π)
  | (b, d) =>
    match d.closeFunction with
    | none => ((b, d), [])
    | some _ =>
      (({ b with songEof := false },
        { d with closeFunction := none, decoderFunction := none }),
        d.decoderData.toList.map (.closed .frameDecoder))

/-- `if( frame_buffer.song_eof ) ..`. -/
def checkSongEof (bd : Shared π) : Shared π × List (Event π) :=
  if bd.1.songEof then closeFile bd else (bd, [])

/-- `if( have_new_frame ) ..`. -/
def storeFrame (bd : Shared π) : Shared π × List (Event π) :=
  match bd.2.newFrame with
  | none => (bd, [])
  | some (h, f) =>
    let bd : Shared π := (bd.1, { bd.2 with newFrame := none })
    let (bd, es) :=
      if f.Ends then closeFile bd
      else (({ bd.1 with pcmSize := bd.1.pcmSize + f.pcmSize }, bd.2), [])
    let copy := if f.HasData then [.copied h] else []
    (({ bd.1 with frames := bd.1.frames ++ [f] }, bd.2), es ++ copy)

/-- `if( frame_buffer.new_file ) ..`. -/
def adoptFile (bd : Shared π) : Shared π :=
  if bd.1.newFile then
    ({ bd.1 with newFile := false },
      { bd.2 with
        decoderData := bd.1.decoderData
        decoderFunction := bd.1.decoderFunction
        closeFunction := bd.1.closeFunction })
  else bd

/-- The condition of the loop around `squash_wait( frame_buffer.restart, .. )`. -/
def mustWait (bd : Shared π) : Bool :=
  !(decide (bd.1.frames.length < playerMaxBufferSize)
    && decide (bd.1.pcmSize < playerMaxBufferPcmSize)
    && (bd.2.decoderFunction.isSome || bd.1.newFile))

/-- Test the wait condition, and wait or go on. -/
def park (bd : Shared π) : Shared π := (bd.1, { bd.2 with waiting := mustWait bd })

/-- What the decoder does from `squash_lock( frame_buffer.lock )` on. -/
def decoderSection (bd : Shared π) : Shared π × List (Event π) :=
  let (bd, es₁) := checkSongEof bd
  let (bd, es₂) := storeFrame bd
  (park (adoptFile bd), es₁ ++ es₂)

/-! ## `player` -/

/-- Drop all buffered frames. -/
def FrameBuffer.flush (b : FrameBuffer π) : FrameBuffer π := { b with frames := [], pcmSize := 0 }

/-- One command of the drain pass. -/
def execCommand (s : State π) : PlayerCommand → State π × List (Event π)
  | .skip =>
    ({ s with
      buffer := { s.buffer.flush with songEof := true }
      player := { s.player with
        playState := if s.player.playState = .inSong then .afterSong else s.player.playState
        -- `feedback` follows the song pointer at once
        pc := if s.player.curSong = none then .crashed else .draining } },
      [.skipped s.buffer.decoderData, .feedback s.player.curSong (-1)])
  | .stop =>
    if s.player.playState = .inSong then
      ({ s with
        buffer := s.buffer.flush
        player := { s.player with pc := .draining, state := .stop, currentPosition := 0 } },
        s.buffer.decoderData.toList.map (.sought · 0))
    else
      ({ s with
        buffer := s.buffer.flush
        player := { s.player with pc := .draining, state := .stop } }, [])
  | .pause => ({ s with player := { s.player with pc := .draining, state := .pause } }, [])
  | .play => ({ s with player := { s.player with pc := .draining, state := .play } }, [])
  | .noop => ({ s with player := { s.player with pc := .draining } }, [])

/-- The test `only pause if we were going to be playing and we shouldn't`. -/
def pauses (p : PlayerThread π) : Prop :=
  p.state = .bigStop ∨ (p.playState = .inSong ∧ p.state ≠ .play)

instance (p : PlayerThread π) : Decidable (pauses p) :=
  inferInstanceAs (Decidable (_ ∨ _))

/-- `STATE_BEFORE_SONG` once there is a song. A song of unknown type goes back to the top of the
loop with `frame_buffer.lock` still held, where the player can only block for ever. -/
def startSong (s : State π) (song : Song) (startPosition : Int) (opens soundOpens : Bool) :
    State π × List (Event π) :=
  let p : PlayerThread π :=
    { s.player with
      curSong := some song, song := some song, currentPosition := startPosition }
  if song.songType = .unknown then
    ({ s with player := { p with pc := .halted true } }, [.started song])
  else if opens = false then
    ({ s with
      buffer := { s.buffer with decoderData := none }
      player := { p with pc := .halted true } }, [.started song])
  else
    let h := s.nextHandle
    ({ s with
      buffer := { s.buffer.flush with
        newFile := true
        decoderData := some h
        decoderFunction := some song.songType
        closeFunction := some song.songType }
      player :=
        if soundOpens then { p with pc := .top, playState := .inSong }
        else { p with pc := .halted false }
      nextHandle := h + 1 },
      [.started song, .opened h, .sought h startPosition])

/-- `STATE_IN_SONG`: take the first frame, or wait for one. -/
def takeFrame (s : State π) : State π × List (Event π) :=
  match s.buffer.frames with
  | [] => ({ s with player := { s.player with pc := .waitNewData } }, [])
  | f :: rest =>
    ({ s with
      buffer := { s.buffer with frames := rest, pcmSize := s.buffer.pcmSize - f.pcmSize }
      player := { s.player with pc := .gotFrame f } }, [.took f])

/-- `STATE_IN_SONG`: what the player does with the frame it took. -/
def useFrame (s : State π) (f : FrameData π) : State π × List (Event π) :=
  if f.Ends then
    ({ s with player := { s.player with pc := .top, playState := .afterSong } },
      [.feedback s.player.curSong 1])
  else if f.pcmSize = -1 then
    ({ s with player := { s.player with pc := .top } }, [])
  else
    ({ s with player := { s.player with pc := .top, currentPosition := f.position } }, [])

/-! ## The step -/

/-- One step of either thread, with the events it is seen by. -/
def step (s : State π) : Step π → Option (State π × List (Event π))
  | .decode f =>
    match s.decoder.decoderData with
    | none => none
    | some h =>
      if s.player.pc.alive ∧ s.decoder.waiting = false ∧ s.decoder.newFrame = none
          ∧ s.decoder.decoderFunction.isSome then
        some ({ s with decoder := { s.decoder with newFrame := some (h, f) } }, [.decoded h f])
      else none
  | .decoderSection =>
    if s.player.pc.holdsLock = false ∧ s.decoder.waiting = false
        ∧ (s.decoder.newFrame = none → s.decoder.decoderFunction = none) then
      let ((b, d), es) := decoderSection (s.buffer, s.decoder)
      some ({ s with buffer := b, decoder := d }, es)
    else none
  | .decoderWake =>
    if s.player.pc.holdsLock = false ∧ s.decoder.waiting = true then
      let (b, d) := park (s.buffer, s.decoder)
      some ({ s with buffer := b, decoder := d }, [])
    else none
  | .command c =>
    match s.player.pc with
    | .top | .draining => some (execCommand s c)
    | _ => none
  | .endCommands =>
    match s.player.pc with
    | .top | .draining =>
      let pc := if pauses s.player then .waitCommand else .dispatch
      some ({ s with player := { s.player with pc } }, [])
    | _ => none
  | .commandWake =>
    match s.player.pc with
    | .waitCommand => some ({ s with player := { s.player with pc := .top } }, [])
    | _ => none
  | .noSong =>
    match s.player.pc, s.player.playState with
    | .dispatch, .beforeSong | .waitSong, .beforeSong =>
      some ({ s with player := { s.player with pc := .waitSong } }, [])
    | _, _ => none
  | .beforeSong song startPosition opens soundOpens =>
    match s.player.pc, s.player.playState with
    | .dispatch, .beforeSong | .waitSong, .beforeSong =>
      some (startSong s song startPosition opens soundOpens)
    | _, _ => none
  | .inSong =>
    match s.player.pc, s.player.playState with
    | .dispatch, .inSong => some (takeFrame s)
    | _, _ => none
  | .useFrame =>
    match s.player.pc with
    | .gotFrame f => some (useFrame s f)
    | _ => none
  | .dataWake =>
    match s.player.pc with
    | .waitNewData => some ({ s with player := { s.player with pc := .top } }, [])
    | _ => none
  | .afterSong =>
    match s.player.pc, s.player.playState with
    | .dispatch, .afterSong =>
      some ({ s with player := { s.player with pc := .top, playState := .beforeSong } },
        [.retired s.player.curSong])
    | _, _ => none

end Squash.Player
