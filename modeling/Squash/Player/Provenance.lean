import Squash.Player.Invariant

/-!
# Where the frames come from

`Play` follows one play of a song along the trace: the file opened for it, the frames its decoder
has produced since the last seek, and the frames the player has taken since. The frames taken have
to be a prefix of those produced.

The frame in the decoder's hand is what breaks this. It is stored after a new file was opened for
another song, or after a stop dropped all frames before it and sought to the start.
-/

namespace Squash.Player

open Transition

variable {π : Type}

/-! ## The property -/

structure Play (π : Type) where
  file : Option Handle
  produced : List (FrameData π)
  taken : List (FrameData π)

def Play.follow (p : Play π) : Event π → Play π
  | .opened h => ⟨some h, [], []⟩
  | .sought h _ => if p.file = some h then ⟨p.file, [], []⟩ else p
  | .decoded h f => if p.file = some h then { p with produced := p.produced ++ [f] } else p
  | .took f => { p with taken := p.taken ++ [f] }
  | _ => p

/-- The play that the trace ends with. -/
def play (t : List (Event π)) : Play π := t.foldl Play.follow ⟨none, [], []⟩

/-- The frames taken are the first ones that the song's own decoder produced, in order. -/
def Provenance (t : List (Event π)) : Prop := (play t).taken <+: (play t).produced

instance [DecidableEq π] (t : List (Event π)) : Decidable (Provenance t) :=
  inferInstanceAs (Decidable (_ <+: _))

/-- The steps that do not let a frame into a play that it does not belong to. -/
def KeepsFrames (s : State π × List (Event π)) : Step π → Prop
  | .decoderSection =>
    s.1.player.playState = .inSong → s.1.buffer.newFile = true → s.1.decoder.newFrame.isNone
  | .command .stop =>
    s.1.player.playState = .inSong →
      s.1.decoder.newFrame.isNone ∨ s.1.buffer.newFile = true
  | _ => True

instance (s : State π × List (Event π)) : (l : Step π) → Decidable (KeepsFrames s l)
  | .command .stop => inferInstanceAs (Decidable (_ → _ ∨ _))
  | .decoderSection => inferInstanceAs (Decidable (_ → _ → _))
  | .command .noop | .command .play | .command .pause | .command .skip => isTrue trivial
  | .decode _ | .decoderWake | .endCommands | .commandWake | .noSong | .beforeSong _ _ _ _
  | .inSong | .useFrame | .dataWake | .afterSong => isTrue trivial

theorem play_append (t es : List (Event π)) : play (t ++ es) = es.foldl Play.follow (play t) := by
  rw [play, play, List.foldl_append]

/-! ## The invariant -/

/-- The frame in hand, as a list. -/
def Decoder.inHandFrames (d : Decoder π) : List (FrameData π) := d.newFrame.toList.map Prod.snd

structure FrameInv (s : State π × List (Event π)) : Prop where
  wf : Wf s.1
  provenance : Provenance s.2
  file : s.1.player.playState = .inSong → (play s.2).file = s.1.buffer.decoderData
  /-- Nothing is known yet of a file that the decoder has not adopted. -/
  pending : s.1.player.playState = .inSong → s.1.buffer.newFile = true →
    (play s.2).produced = [] ∧ (play s.2).taken = [] ∧ s.1.buffer.frames = []
  /-- The frames produced are those taken, those in the buffer and the one in hand. -/
  adopted : s.1.player.playState = .inSong → s.1.buffer.newFile = false →
    (play s.2).produced =
      (play s.2).taken ++ s.1.buffer.frames ++ s.1.decoder.inHandFrames

theorem frameInv_init : FrameInv ((init, []) : State π × List (Event π)) where
  wf := wf_init
  provenance := List.prefix_refl _
  file := nofun
  pending := nofun
  adopted := nofun

/-- Outside a song only the frames taken so far matter. -/
theorem frameInv_outside {s : State π} {t : List (Event π)} (hwf : Wf s) (ht : Provenance t)
    (hout : s.player.playState ≠ .inSong) : FrameInv (s, t) :=
  ⟨hwf, ht, fun hin => absurd hin hout, fun hin => absurd hin hout, fun hin => absurd hin hout⟩

/-- A step that leaves the play and the frames alone. -/
theorem FrameInv.same {s : State π × List (Event π)} {s' : State π} {es : List (Event π)}
    (hs : FrameInv s) (hwf : Wf s') (hplay : play (s.2 ++ es) = play s.2)
    (hin : s'.player.playState = .inSong → s.1.player.playState = .inSong)
    (hbuffer : s'.buffer = s.1.buffer) (hframe : s'.decoder.newFrame = s.1.decoder.newFrame) :
    FrameInv (s', s.2 ++ es) := by
  refine ⟨hwf, ?_, ?_, ?_, ?_⟩
  · simpa [Provenance, hplay] using hs.provenance
  · intro h
    simpa [hplay, hbuffer] using hs.file (hin h)
  · intro h
    simpa [hplay, hbuffer] using hs.pending (hin h)
  · intro h
    simpa [hplay, hbuffer, Decoder.inHandFrames, hframe] using hs.adopted (hin h)

/-- The decoder's section moves the frame in hand, if any, to the end of the buffer. -/
theorem FrameInv.store {s : State π × List (Event π)} {b : FrameBuffer π} {d : Decoder π}
    {es : List (Event π)} (hs : FrameInv s)
    (hwf : Wf { s.1 with
      buffer := (park (adoptFile (b, d))).1, decoder := (park (adoptFile (b, d))).2 })
    (hplay : play (s.2 ++ es) = play s.2)
    (hG : s.1.player.playState = .inSong → s.1.buffer.newFile = true →
      s.1.decoder.inHandFrames = [])
    (hdata : b.decoderData = s.1.buffer.decoderData) (hframe : d.newFrame = none)
    (hframes : b.frames = s.1.buffer.frames ++ s.1.decoder.inHandFrames) :
    FrameInv ({ s.1 with
      buffer := (park (adoptFile (b, d))).1, decoder := (park (adoptFile (b, d))).2 },
      s.2 ++ es) := by
  refine ⟨hwf, by simpa [Provenance, hplay] using hs.provenance, ?_, ?_, ?_⟩
  · intro hin
    simpa [hplay, hdata] using hs.file hin
  · simp
  · intro hin _
    have hhand : (park (adoptFile (b, d))).2.inHandFrames = [] := by
      simp [Decoder.inHandFrames, hframe]
    simp only [hplay, park_buffer, adoptFile_buffer, hhand, List.append_nil, hframes]
    cases hnew : s.1.buffer.newFile with
    | true =>
        obtain ⟨hp, ht, hb⟩ := hs.pending hin hnew
        simp only [hp, ht, hb, hG hin hnew, List.append_nil]
    | false => rw [hs.adopted hin hnew, List.append_assoc]

theorem Provenance.decoded {t : List (Event π)} (ht : Provenance t) (h : Handle) (f : FrameData π) :
    Provenance (t ++ [.decoded h f]) := by
  rw [Provenance, play_append]
  simp only [List.foldl_cons, List.foldl_nil, Play.follow]
  split
  · exact ht.trans (List.prefix_append _ _)
  · exact ht

theorem FrameInv.decode {s : State π × List (Event π)} {h : Handle} {f : FrameData π}
    (hs : FrameInv s) (hdata : s.1.decoder.decoderData = some h)
    (hidle : s.1.decoder.newFrame = none)
    (hwf : Wf { s.1 with decoder := { s.1.decoder with newFrame := some (h, f) } }) :
    FrameInv ({ s.1 with decoder := { s.1.decoder with newFrame := some (h, f) } },
      s.2 ++ [.decoded h f]) := by
  have hplay : play (s.2 ++ [.decoded h f]) = (play s.2).follow (.decoded h f) := by
    rw [play_append, List.foldl_cons, List.foldl_nil]
  refine ⟨hwf, hs.provenance.decoded h f, ?_, ?_, ?_⟩
  · intro hin
    rw [hplay, Play.follow]
    split <;> exact hs.file hin
  · intro hin hnew
    -- the decoder is still at an earlier file
    obtain ⟨-, g, hg, hlater⟩ := hs.wf.pending hnew (hs.wf.ne_halted hin true)
    have hother : (play s.2).file ≠ some h := by
      rw [hs.file hin, hg]
      exact fun heq => absurd (hlater h hdata) (by cases heq; exact Nat.lt_irrefl _)
    rw [hplay, Play.follow, if_neg hother]
    exact hs.pending hin hnew
  · intro hin hnew
    have hsame : (play s.2).file = some h := by
      rw [hs.file hin, ← hs.wf.adopted hnew (hs.wf.ne_halted hin true), hdata]
    have hhand : s.1.decoder.inHandFrames = [] := by simp [Decoder.inHandFrames, hidle]
    have hprod := hs.adopted hin hnew
    rw [hhand, List.append_nil] at hprod
    rw [hplay, Play.follow, if_pos hsame]
    simp [hprod, Decoder.inHandFrames]

theorem frameInv_move {s : State π × List (Event π)} {s' : State π} {l : Step π}
    {es : List (Event π)} (hs : FrameInv s) (hG : KeepsFrames s l) (h : Move s.1 l s' es) :
    FrameInv (s', s.2 ++ es) := by
  have hwf := wf_move hs.wf h
  cases h with
  | decode hdata halive hidle hopen => exact hs.decode hdata hidle hwf
  | sectionIdle hlock hframe hfun =>
      have hhand : s.1.decoder.inHandFrames = [] := by simp [Decoder.inHandFrames, hframe]
      exact hs.store hwf (by simp) (fun _ _ => hhand) rfl hframe (by simp [hhand])
  | @sectionFrame h f bd es hlock hframe hsection =>
      rw [decoderSection_frame hs.wf.decoder hframe] at hsection
      cases hsection
      apply hs.store hwf _ _ rfl rfl (by simp [Decoder.inHandFrames, hframe])
      · rw [play_append]
        split <;> split <;> rfl
      · intro hin hnew
        have hnone := hG hin hnew
        rw [hframe] at hnone
        cases hnone
  | wake hlock hwait => exact hs.same hwf (by simp) id rfl rfl
  | skip hpc =>
      apply frameInv_outside hwf
      · rw [Provenance, play_append]
        exact hs.provenance
      · rw [execCommand_skip]
        by_cases hin : s.1.player.playState = .inSong <;> simp [hin]
  | stopInSong hpc hin =>
      obtain ⟨h, hh⟩ := Option.isSome_iff_exists.mp (hs.wf.inSong hin)
      have hplay : play (s.2 ++ s.1.buffer.decoderData.toList.map (.sought · 0)) =
          ⟨some h, [], []⟩ := by
        rw [play_append, hh]
        simp only [Option.toList_some, List.map_cons, List.map_nil, List.foldl_cons,
          List.foldl_nil, Play.follow, hs.file hin, hh, if_true]
      rw [execCommand_stop_inSong hin] at hwf ⊢
      refine ⟨hwf, by simp [Provenance, hplay], fun _ => by rw [hplay]; exact hh.symm,
        fun _ _ => by rw [hplay]; exact ⟨rfl, rfl, rfl⟩, fun _ hnew => ?_⟩
      -- nothing is in hand that was decoded before the seek
      have hnone : s.1.decoder.newFrame.isNone := by
        rcases hG hin with hnone | hnew'
        · exact hnone
        · rw [show s.1.buffer.newFile = false from hnew] at hnew'
          cases hnew'
      rw [hplay]
      simp [Decoder.inHandFrames, Option.isNone_iff_eq_none.mp hnone]
  | stopIdle hpc hout =>
      rw [execCommand_stop_idle hout] at hwf ⊢
      exact frameInv_outside hwf (by simpa using hs.provenance) hout
  | quiet _ _ _ _ _ _ _ hplay => exact hs.same hwf (by simp) (fun h => hplay ▸ h) rfl rfl
  | unknownType hlock hplay htype =>
      rw [startSong_unknown htype] at hwf ⊢
      apply frameInv_outside hwf _ (by simp [hplay])
      rw [Provenance, play_append]
      exact hs.provenance
  | openFails hlock hplay htype =>
      rw [startSong_fails htype] at hwf ⊢
      apply frameInv_outside hwf _ (by simp [hplay])
      rw [Provenance, play_append]
      exact hs.provenance
  | @opens song start soundOpens hlock hplay htype =>
      have hnew : play (s.2 ++ [.started song, .opened s.1.nextHandle,
          .sought s.1.nextHandle start]) = ⟨some s.1.nextHandle, [], []⟩ := by
        rw [play_append]
        simp [Play.follow]
      rw [startSong_opens htype] at hwf ⊢
      exact ⟨hwf, by simp [Provenance, hnew], fun _ => by simp [hnew],
        fun _ _ => by simp [hnew], by simp⟩
  | noFrame hpc hplay hframes => exact hs.same hwf (by simp) id rfl rfl
  | @take f rest hpc hplay hframes =>
      have htook : play (s.2 ++ [.took f]) =
          { play s.2 with taken := (play s.2).taken ++ [f] } := by
        rw [play_append, List.foldl_cons, List.foldl_nil, Play.follow]
      have hnew : s.1.buffer.newFile = false := by
        rw [Bool.eq_false_iff]
        intro hnew
        have hnone := (hs.pending hplay hnew).2.2
        rw [hframes] at hnone
        cases hnone
      have hprod : (play s.2).produced =
          (play s.2).taken ++ [f] ++ rest ++ s.1.decoder.inHandFrames := by
        rw [hs.adopted hplay hnew, hframes]
        simp
      refine ⟨hwf, ?_, fun hin => by simpa [htook] using hs.file hin, ?_, fun _ _ => ?_⟩
      · rw [Provenance, htook, hprod, List.append_assoc]
        exact List.prefix_append _ _
      · intro _ hnew'
        rw [show s.1.buffer.newFile = true from hnew'] at hnew
        cases hnew
      · rw [htook]
        exact hprod
  | ends hpc hends =>
      apply frameInv_outside hwf _ nofun
      rw [Provenance, play_append]
      exact hs.provenance
  | retire hpc hplay =>
      apply frameInv_outside hwf _ nofun
      rw [Provenance, play_append]
      exact hs.provenance

/-! ## Runs -/

/-- **Frame provenance**: in a run whose steps keep the frames apart, the player takes the frames
of the current song's own decoder, in order and from the first one on. -/
theorem always_provenance (ls : List (Step π))
    (hG : Guarded (observe step) KeepsFrames (init, []) ls) :
    Always (observe step) (fun s => Provenance s.2)
      ((init, []) : State π × List (Event π)) ls := by
  have hprovenance : ∀ s : State π × List (Event π), FrameInv s → Provenance s.2 :=
    fun s hs => hs.provenance
  apply always_of_guarded hprovenance _ frameInv_init hG
  intro s l s' hs hg h
  obtain ⟨t, es, hstep, rfl⟩ := observe_eq_some.mp h
  exact frameInv_move hs hg (step_move hs.wf.decoder hstep)

/-- Two frames are taken around a stop, and the song is skipped. -/
theorem always_provenance_stop_skip :
    Always (observe step) (fun s => Provenance s.2)
      ((init, []) : State Nat × List (Event Nat))
      [.command .play, .endCommands, .beforeSong ⟨1, .mp3, 60⟩ 0 true true, .decoderSection,
        .decode ⟨some 7, 4, 0⟩, .decoderSection, .endCommands, .inSong, .useFrame,
        .command .stop, .command .play, .endCommands, .decode ⟨some 8, 4, 0⟩, .decoderSection,
        .inSong, .useFrame, .command .skip] :=
  always_provenance _ (by decide)

/-- A frame of the first song is in the decoder's hand when that song is skipped and the next one
is opened: it is the first frame taken in the second song. -/
theorem not_provenance_skip_in_flight :
    ¬ Always (observe step) (fun s => Provenance s.2)
      ((init, []) : State Nat × List (Event Nat))
      [.command .play, .endCommands, .beforeSong ⟨1, .mp3, 60⟩ 0 true true, .decoderSection,
        .decode ⟨some 7, 4, 0⟩, .command .skip, .endCommands, .afterSong, .endCommands,
        .beforeSong ⟨2, .mp3, 60⟩ 0 true true, .decoderSection, .endCommands, .inSong] := by
  decide

end Squash.Player
