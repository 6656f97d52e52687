import Squash.Player.Moves

/-!
# What always holds of the two threads

`Wf` relates the private copies of the decoder to the fields of the frame buffer that the player
sets. It holds in every run, whatever the commands and the frames are (`wf_move`); the invariants of
the following modules add to it what they need.

A player that halted because a file could not be opened keeps `frame_buffer.lock` and leaves
`decoder_data` cleared; the fields about the pending and the adopted file leave it out.
-/

namespace Squash.Player

open Transition

variable {π : Type}

structure Wf (s : State π) : Prop where
  decoder : s.decoder.Ok
  bufferFunctions : s.buffer.closeFunction = s.buffer.decoderFunction
  decoderKnown : ∀ h, s.decoder.decoderData = some h → h < s.nextHandle
  bufferKnown : ∀ h, s.buffer.decoderData = some h → h < s.nextHandle
  /-- A pending file is open, and it is not the decoder's. -/
  pending : s.buffer.newFile = true → s.player.pc ≠ .halted true →
    s.buffer.decoderFunction.isSome ∧
      ∃ h, s.buffer.decoderData = some h ∧ ∀ g, s.decoder.decoderData = some g → g < h
  adopted : s.buffer.newFile = false → s.player.pc ≠ .halted true →
    s.decoder.decoderData = s.buffer.decoderData
  noSong : s.player.curSong = none → s.player.playState = .beforeSong
  inSong : s.player.playState = .inSong → s.buffer.decoderData.isSome
  /-- Frames are taken, and waited for, only inside a song. -/
  taking : s.player.pc = .waitNewData ∨ (∃ f, s.player.pc = .gotFrame f) →
    s.player.playState = .inSong
  halted : ∀ lockHeld, s.player.pc = .halted lockHeld → s.player.playState = .beforeSong

theorem wf_init : Wf (init : State π) where
  decoder := ⟨rfl, nofun, nofun⟩
  bufferFunctions := rfl
  decoderKnown := nofun
  bufferKnown := nofun
  pending := nofun
  adopted := fun _ _ => rfl
  noSong := fun _ => rfl
  inSong := nofun
  taking := by simp [init]
  halted := nofun

theorem PlayerPc.Plain.ne_halted {pc : PlayerPc π} (h : pc.Plain) (lockHeld : Bool) :
    pc ≠ .halted lockHeld := by
  rintro rfl
  exact h

theorem PlayerPc.Running.ne_halted {pc : PlayerPc π} (h : pc.Running) (lockHeld : Bool) :
    pc ≠ .halted lockHeld := by
  rintro rfl
  exact h

theorem PlayerPc.Running.plain {pc : PlayerPc π} (h : pc.Running)
    (htake : ¬ (pc = .waitNewData ∨ ∃ f, pc = .gotFrame f)) : pc.Plain := by
  cases pc with
  | waitNewData => exact htake (.inl rfl)
  | gotFrame f => exact htake (.inr ⟨f, rfl⟩)
  | halted | crashed => exact h
  | _ => trivial

theorem PlayerPc.Plain.not_taking {pc : PlayerPc π} (h : pc.Plain) :
    ¬ (pc = .waitNewData ∨ ∃ f, pc = .gotFrame f) := by
  rintro (rfl | ⟨f, rfl⟩) <;> exact h

theorem PlayerPc.AtCommands.plain {pc : PlayerPc π} (h : pc.AtCommands) : pc.Plain := by
  cases pc <;> trivial

theorem Wf.ne_halted {s : State π} (h : Wf s) (hin : s.player.playState = .inSong)
    (lockHeld : Bool) : s.player.pc ≠ .halted lockHeld := by
  intro hpc
  rw [h.halted lockHeld hpc] at hin
  cases hin

theorem PlayerPc.ne_halted_of_unlocked {pc : PlayerPc π} (h : pc.holdsLock = false) :
    pc ≠ .halted true := by
  rintro rfl
  cases h

/-- The decoder is between calls again after its section, with its own or the pending file. -/
theorem adoptFile_ok {b : FrameBuffer π} {d : Decoder π} (hd : d.Ok) (hframe : d.newFrame = none)
    (hb : b.closeFunction = b.decoderFunction)
    (hpending : b.newFile = true → b.decoderData.isSome) :
    (park (adoptFile (b, d))).2.Ok := by
  cases hnew : b.newFile with
  | true => exact ⟨by simp [hnew, hb], by simp [hnew, hpending hnew], by simp [hframe]⟩
  | false =>
      refine ⟨by simp [hnew, hd.functions], ?_, by simp [hframe]⟩
      simpa [hnew] using hd.data

/-- The section leaves the threads well formed, given that its work on the frame in hand does. -/
theorem wf_section {s : State π} {b : FrameBuffer π} {d : Decoder π} (hs : Wf s)
    (hlock : s.player.pc.holdsLock = false) (hd : d.Ok) (hframe : d.newFrame = none)
    (hdata : d.decoderData = s.decoder.decoderData)
    (hbdata : b.decoderData = s.buffer.decoderData)
    (hbfun : b.decoderFunction = s.buffer.decoderFunction)
    (hbclose : b.closeFunction = s.buffer.closeFunction)
    (hbnew : b.newFile = s.buffer.newFile) :
    Wf { s with buffer := (park (adoptFile (b, d))).1, decoder := (park (adoptFile (b, d))).2 } := by
  have hpc := PlayerPc.ne_halted_of_unlocked hlock
  have hb : b.closeFunction = b.decoderFunction := by rw [hbclose, hbfun, hs.bufferFunctions]
  refine ⟨?_, by simpa using hb, ?_, by simpa [hbdata] using hs.bufferKnown, by simp, ?_,
    hs.noSong, by simpa [hbdata] using hs.inSong, hs.taking, hs.halted⟩
  · apply adoptFile_ok hd hframe hb
    intro hnew
    obtain ⟨-, h, hh, -⟩ := hs.pending (hbnew ▸ hnew) hpc
    simp [hbdata, hh]
  · intro h hh
    cases hnew : b.newFile with
    | true => exact hs.bufferKnown h (by simpa [hnew, hbdata] using hh)
    | false => exact hs.decoderKnown h (by simpa [hnew, hdata] using hh)
  · intro _ _
    cases hnew : b.newFile with
    | true => simp [hnew]
    | false => simpa [hnew, hdata, hbdata] using hs.adopted (hbnew ▸ hnew) hpc

/-- Every step keeps the threads well formed. -/
theorem wf_move {s s' : State π} {l : Step π} {es : List (Event π)} (hs : Wf s)
    (h : Move s l s' es) : Wf s' := by
  cases h with
  | decode hdata halive hidle hopen =>
      refine ⟨⟨hs.decoder.functions, hs.decoder.data, ?_⟩, hs.bufferFunctions, hs.decoderKnown,
        hs.bufferKnown, hs.pending, hs.adopted, hs.noSong, hs.inSong, hs.taking, hs.halted⟩
      rintro g f hf
      cases hf
      exact ⟨hopen, hdata⟩
  | sectionIdle hlock hframe hfun =>
      exact wf_section hs hlock hs.decoder hframe rfl rfl rfl rfl rfl
  | sectionFrame hlock hframe hsection =>
      rw [decoderSection_frame hs.decoder hframe] at hsection
      cases hsection
      refine wf_section hs hlock ⟨?_, ?_, nofun⟩ rfl rfl rfl rfl rfl rfl
      · simp [hs.decoder.functions]
      · intro _
        exact hs.decoder.data (hs.decoder.inHand _ _ hframe).1
  | wake hlock hwait => exact { hs with decoder := ⟨hs.decoder.1, hs.decoder.2, hs.decoder.3⟩ }
  | skip hpc =>
      have hne := hpc.plain.ne_halted true
      rw [execCommand_skip]
      refine ⟨hs.decoder, hs.bufferFunctions, hs.decoderKnown, hs.bufferKnown,
        fun hnew _ => hs.pending hnew hne, fun hnew _ => hs.adopted hnew hne, ?_, ?_, ?_, ?_⟩
      · intro hsong
        simp [hs.noSong hsong]
      · intro hin
        apply hs.inSong
        by_contra hout
        simp [hout] at hin
      · intro htake
        simp only at htake
        split at htake <;> simp at htake
      · intro lockHeld hhalt
        simp only at hhalt
        split at hhalt <;> simp at hhalt
  | stopInSong hpc hin =>
      have hne := hpc.plain.ne_halted true
      rw [execCommand_stop_inSong hin]
      exact ⟨hs.decoder, hs.bufferFunctions, hs.decoderKnown, hs.bufferKnown,
        fun hnew _ => hs.pending hnew hne, fun hnew _ => hs.adopted hnew hne, hs.noSong, hs.inSong,
        by simp, nofun⟩
  | stopIdle hpc hin =>
      have hne := hpc.plain.ne_halted true
      rw [execCommand_stop_idle hin]
      exact ⟨hs.decoder, hs.bufferFunctions, hs.decoderKnown, hs.bufferKnown,
        fun hnew _ => hs.pending hnew hne, fun hnew _ => hs.adopted hnew hne, hs.noSong, hs.inSong,
        by simp, nofun⟩
  | quiet _ _ _ hfrom _ hpc hsong hplay =>
      exact ⟨hs.decoder, hs.bufferFunctions, hs.decoderKnown, hs.bufferKnown,
        fun hnew _ => hs.pending hnew (hfrom.ne_halted true),
        fun hnew _ => hs.adopted hnew (hfrom.ne_halted true),
        by simpa [hsong, hplay] using hs.noSong, by simpa [hplay] using hs.inSong,
        fun htake => (hpc.not_taking htake).elim, fun _ hhalt => (hpc.ne_halted _ hhalt).elim⟩
  | unknownType hlock hplay htype =>
      rw [startSong_unknown htype]
      exact ⟨hs.decoder, hs.bufferFunctions, hs.decoderKnown, hs.bufferKnown, by simp, by simp,
        by simp, hs.inSong, by simp, fun _ _ => hplay⟩
  | openFails hlock hplay htype =>
      rw [startSong_fails htype]
      exact ⟨hs.decoder, hs.bufferFunctions, hs.decoderKnown, by simp, by simp, by simp,
        by simp, by simp [hplay], by simp, fun _ _ => hplay⟩
  | @opens song start soundOpens hlock hplay htype =>
      rw [startSong_opens htype]
      refine ⟨hs.decoder, rfl, ?_, ?_, ?_, by simp, ?_, by simp, ?_, ?_⟩
      · intro h hh
        exact Nat.lt_succ_of_lt (hs.decoderKnown h hh)
      · rintro h hh
        cases hh
        exact Nat.lt_succ_self _
      · intro _ _
        exact ⟨rfl, _, rfl, hs.decoderKnown⟩
      · simp
      · intro htake
        cases soundOpens <;> simp at htake
      · intro lockHeld hhalt
        cases soundOpens with
        | true => cases hhalt
        | false => exact hplay
  | noFrame hpc hplay hframes =>
      exact ⟨hs.decoder, hs.bufferFunctions, hs.decoderKnown, hs.bufferKnown,
        fun hnew _ => hs.pending hnew (by simp [hpc]), fun hnew _ => hs.adopted hnew (by simp [hpc]),
        hs.noSong, hs.inSong, fun _ => hplay, nofun⟩
  | take hpc hplay hframes =>
      exact ⟨hs.decoder, hs.bufferFunctions, hs.decoderKnown, hs.bufferKnown,
        fun hnew _ => hs.pending hnew (by simp [hpc]), fun hnew _ => hs.adopted hnew (by simp [hpc]),
        hs.noSong, hs.inSong, fun _ => hplay, nofun⟩
  | ends hpc hends =>
      refine ⟨hs.decoder, hs.bufferFunctions, hs.decoderKnown, hs.bufferKnown,
        fun hnew _ => hs.pending hnew (by simp [hpc]), fun hnew _ => hs.adopted hnew (by simp [hpc]),
        ?_, by simp, by simp, nofun⟩
      -- the player took a frame, so it has a song
      intro hsong
      have hbefore := hs.noSong hsong
      rw [hs.taking (.inr ⟨_, hpc⟩)] at hbefore
      cases hbefore
  | retire hpc hplay =>
      exact ⟨hs.decoder, hs.bufferFunctions, hs.decoderKnown, hs.bufferKnown,
        fun hnew _ => hs.pending hnew (by simp [hpc]), fun hnew _ => hs.adopted hnew (by simp [hpc]),
        fun _ => rfl, by simp, by simp, nofun⟩

end Squash.Player
