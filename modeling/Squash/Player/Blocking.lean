import Squash.Player.Invariant

/-!
# The player and the decoder waiting for each other

While the player is in a song it looks at the frame buffer and waits for `new_data` when it is
empty; it does not look at commands there. So the end of the song must always be to come: a file
that is pending or open, or a buffered frame that ends it.

`CMD_STOP` breaks this by dropping the buffered end of a file that the decoder has closed, and a
`song_eof` left over from a skip breaks it by closing the file of the next song before its end.
-/

namespace Squash.Player

open Transition

variable {π : Type}

/-! ## The property -/

/-- The player waits for data and the decoder for a file, and nothing wakes either. -/
def MutualBlock (s : State π) : Prop :=
  s.player.pc = .waitNewData ∧ s.buffer.frames = [] ∧ s.decoder.waiting = true ∧
    s.decoder.decoderFunction = none ∧ s.buffer.newFile = false

/-- The steps after which the end of the current song is still to come. -/
def KeepsEnd (s : State π × List (Event π)) : Step π → Prop
  | .command .stop =>
    s.1.player.playState = .inSong →
      s.1.buffer.newFile = true ∨ s.1.decoder.decoderFunction.isSome
  | .decoderSection =>
    s.1.player.playState = .inSong → s.1.buffer.newFile = false → s.1.buffer.songEof = true →
      ∀ hf ∈ s.1.decoder.newFrame, hf.2.Ends ∨ ∃ f ∈ s.1.buffer.frames, f.Ends
  | _ => True

instance (s : State π × List (Event π)) : (l : Step π) → Decidable (KeepsEnd s l)
  | .command .stop => inferInstanceAs (Decidable (_ → _ ∨ _))
  | .decoderSection => inferInstanceAs (Decidable (_ → _ → _ → _))
  | .command .noop | .command .play | .command .pause | .command .skip => isTrue trivial
  | .decode _ | .decoderWake | .endCommands | .commandWake | .noSong | .beforeSong _ _ _ _
  | .inSong | .useFrame | .dataWake | .afterSong => isTrue trivial

/-! ## The invariant -/

def EndComes (b : FrameBuffer π) (d : Decoder π) : Prop :=
  b.newFile = true ∨ d.decoderFunction.isSome ∨ ∃ f ∈ b.frames, f.Ends

structure BlockInv (s : State π) : Prop where
  wf : Wf s
  endComes : s.player.playState = .inSong → (∀ f, s.player.pc = .gotFrame f → ¬ f.Ends) →
    EndComes s.buffer s.decoder

theorem blockInv_init : BlockInv (init : State π) := ⟨wf_init, nofun⟩

theorem BlockInv.not_mutualBlock {s : State π} (h : BlockInv s) : ¬ MutualBlock s := by
  rintro ⟨hpc, hframes, -, hfun, hnew⟩
  have hcomes := h.endComes (h.wf.taking (.inl hpc)) (by simp [hpc])
  rcases hcomes with hcomes | hcomes | ⟨f, hf, -⟩
  · simp [hnew] at hcomes
  · simp [hfun] at hcomes
  · simp [hframes] at hf

/-- Adopting a file keeps the end to come. -/
theorem EndComes.adopt {b : FrameBuffer π} {d : Decoder π} (h : EndComes b d)
    (hpending : b.newFile = true → b.decoderFunction.isSome) :
    EndComes (park (adoptFile (b, d))).1 (park (adoptFile (b, d))).2 := by
  cases hnew : b.newFile with
  | true => exact .inr (.inl (by simpa [hnew] using hpending hnew))
  | false =>
      rcases h with h | h | h
      · simp [hnew] at h
      · exact .inr (.inl (by simpa [hnew] using h))
      · exact .inr (.inr (by simpa using h))

theorem blockInv_move {s : State π × List (Event π)} {s' : State π} {l : Step π}
    {es : List (Event π)} (hs : BlockInv s.1) (hG : KeepsEnd s l) (h : Move s.1 l s' es) :
    BlockInv s' := by
  refine ⟨wf_move hs.wf h, ?_⟩
  have hcomes := hs.endComes
  cases h with
  | decode | wake => exact hcomes
  | sectionIdle hlock hframe hfun =>
      intro hin hpc
      exact (hcomes hin hpc).adopt fun hnew =>
        (hs.wf.pending hnew (PlayerPc.ne_halted_of_unlocked hlock)).1
  | @sectionFrame h f bd es hlock hframe hsection =>
      rw [decoderSection_frame hs.wf.decoder hframe] at hsection
      cases hsection
      intro hin hpc
      refine EndComes.adopt ?_ fun hnew =>
        (hs.wf.pending hnew (PlayerPc.ne_halted_of_unlocked hlock)).1
      cases hnew : s.1.buffer.newFile with
      | true => exact .inl rfl
      | false =>
          by_cases hends : f.Ends
          · exact .inr (.inr ⟨f, by simp, hends⟩)
          · cases heof : s.1.buffer.songEof with
            | true =>
                -- the file is closed in the middle, but an earlier end is buffered
                obtain ⟨g, hg, hends'⟩ := (hG hin hnew heof _ hframe).resolve_left hends
                exact .inr (.inr ⟨g, by simp [hg], hends'⟩)
            | false =>
                right
                left
                simpa [hends] using (hs.wf.decoder.inHand _ _ hframe).1
  | skip hpc =>
      intro hin
      by_cases hout : s.1.player.playState = .inSong <;> simp [execCommand_skip, hout] at hin
  | stopInSong hpc hin =>
      rw [execCommand_stop_inSong hin]
      intro _ _
      rcases hG hin with hnew | hfun
      · exact .inl hnew
      · exact .inr (.inl hfun)
  | stopIdle hpc hout =>
      rw [execCommand_stop_idle hout]
      exact fun hin => absurd hin hout
  | quiet _ _ _ _ hframe _ _ hplay =>
      intro hin _
      exact hcomes (hplay ▸ hin) hframe
  | unknownType hlock hplay htype =>
      rw [startSong_unknown htype]
      intro hin
      simp [hplay] at hin
  | openFails hlock hplay htype =>
      rw [startSong_fails htype]
      intro hin
      simp [hplay] at hin
  | opens hlock hplay htype =>
      rw [startSong_opens htype]
      exact fun _ _ => .inl rfl
  | noFrame hpc hplay hframes => exact fun _ _ => hcomes hplay (by simp [hpc])
  | @take f rest hpc hplay hframes =>
      intro _ hgot
      rcases hcomes hplay (by simp [hpc]) with hnew | hfun | ⟨g, hg, hends⟩
      · exact .inl hnew
      · exact .inr (.inl hfun)
      · -- the frame that ends the song is not the one taken
        rcases List.mem_cons.mp (hframes ▸ hg) with rfl | hrest
        · exact absurd hends (hgot g rfl)
        · exact .inr (.inr ⟨g, hrest, hends⟩)
  | ends | retire => exact nofun

/-! ## Runs -/

/-- **No mutual block**: in a run whose stops and decoder sections keep the end of the song to
come, the player and the decoder never wait for each other. -/
theorem never_mutualBlock (ls : List (Step π)) (hG : Guarded (observe step) KeepsEnd (init, []) ls) :
    Always (observe step) (fun s => ¬ MutualBlock s.1) ((init, []) : State π × List (Event π)) ls := by
  have hblock : ∀ s : State π × List (Event π), BlockInv s.1 → ¬ MutualBlock s.1 :=
    fun s hs => hs.not_mutualBlock
  apply always_of_guarded hblock _ blockInv_init hG
  intro s l s' hs hg h
  obtain ⟨t, es, hstep, rfl⟩ := observe_eq_some.mp h
  exact blockInv_move hs hg (step_move hs.wf.decoder hstep)

/-- A song is stopped and played again, and then runs to its end. -/
theorem never_mutualBlock_stop_play :
    Always (observe step) (fun s => ¬ MutualBlock s.1) ((init, []) : State Unit × List (Event Unit))
      [.command .play, .endCommands, .beforeSong ⟨1, .mp3, 60⟩ 0 true true, .decoderSection,
        .command .stop, .command .play, .endCommands, .inSong, .decode ⟨none, 0, 0⟩,
        .decoderSection, .dataWake, .endCommands, .inSong, .useFrame] :=
  never_mutualBlock _ (by decide)

/-- A stop drops the end of a file that the decoder has closed; after the next play both wait. -/
theorem mutualBlock_stop_after_close :
    ¬ Always (observe step) (fun s => ¬ MutualBlock s.1)
      ((init, []) : State Unit × List (Event Unit))
      [.command .play, .endCommands, .beforeSong ⟨1, .mp3, 60⟩ 0 true true, .decoderSection,
        .decode ⟨none, 0, 0⟩, .decoderSection, .command .stop, .command .play, .endCommands,
        .inSong] := by
  intro h
  have hend := h.at_end rfl
  exact hend ⟨rfl, rfl, rfl, rfl, rfl⟩

end Squash.Player
