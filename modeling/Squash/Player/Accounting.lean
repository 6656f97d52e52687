import Mathlib.Algebra.Ring.Int.Defs
import Squash.Player.Invariant

/-!
# What the frame buffer accounts for

`frame_buffer.size` is the length of the list of frames; `frame_buffer.pcm_size` is kept beside it.
The decoder tests that there is room before it decodes, without the lock, and stores the frame
later: the room is still there because nobody else adds frames (`AccountInv.room`).

The two sides do not agree on a frame that ends the song with an error. The decoder adds no
`pcm_size` for it, as for an end of file, where there is nothing to add; the player takes away the
`pcm_size` of every frame. `accounted_iff_noFatalFrame` shows that nothing else goes wrong.
-/

namespace Squash.Player

open Transition

variable {π : Type}

/-! ## The property -/

/-- The sum of the `pcm_size` fields. -/
def pcmTotal (frames : List (FrameData π)) : Int := (frames.map FrameData.pcmSize).sum

@[simp] theorem pcmTotal_nil : pcmTotal ([] : List (FrameData π)) = 0 := rfl

@[simp] theorem pcmTotal_cons (f : FrameData π) (frames : List (FrameData π)) :
    pcmTotal (f :: frames) = f.pcmSize + pcmTotal frames := by
  simp [pcmTotal]

@[simp] theorem pcmTotal_snoc (f : FrameData π) (frames : List (FrameData π)) :
    pcmTotal (frames ++ [f]) = pcmTotal frames + f.pcmSize := by
  simp [pcmTotal]

/-- The frames fit into the buffer, a frame in the decoder's hand will be written inside of it, and
`pcm_size` is the sum over the frames. -/
structure Accounted (s : State π) : Prop where
  size : s.buffer.frames.length ≤ playerMaxBufferSize
  write : s.decoder.newFrame.isSome → s.buffer.frames.length < playerMaxBufferSize
  pcmSize : s.buffer.pcmSize = pcmTotal s.buffer.frames

/-- The steps that do not store a frame of an unrecoverable error. -/
def NoFatalFrame (s : State π × List (Event π)) : Step π → Prop
  | .decoderSection => ∀ hf ∈ s.1.decoder.newFrame, ¬ hf.2.pcmSize ≤ -2
  | _ => True

instance (s : State π × List (Event π)) : (l : Step π) → Decidable (NoFatalFrame s l)
  | .decoderSection => inferInstanceAs (Decidable (∀ hf ∈ s.1.decoder.newFrame, _))
  | .decode _ | .decoderWake | .command _ | .endCommands | .commandWake | .noSong
  | .beforeSong _ _ _ _ | .inSong | .useFrame | .dataWake | .afterSong => isTrue trivial

/-! ## The invariant -/

structure AccountInv (s : State π) : Prop where
  wf : Wf s
  size : s.buffer.frames.length ≤ playerMaxBufferSize
  /-- The decoder goes on only after it has seen room. -/
  room : s.decoder.waiting = false → s.buffer.frames.length < playerMaxBufferSize
  /-- It does not wait with a frame in hand. -/
  inHand : s.decoder.newFrame.isSome → s.decoder.waiting = false
  pcmSize : s.buffer.pcmSize = pcmTotal s.buffer.frames

theorem accountInv_init : AccountInv (init : State π) where
  wf := wf_init
  size := Nat.zero_le _
  room := fun _ => Nat.succ_pos _
  inHand := nofun
  pcmSize := rfl

theorem AccountInv.accounted {s : State π} (h : AccountInv s) : Accounted s where
  size := h.size
  write := fun hframe => h.room (h.inHand hframe)
  pcmSize := h.pcmSize

theorem mustWait_room {bd : Shared π} (h : mustWait bd = false) :
    bd.1.frames.length < playerMaxBufferSize := by
  simp only [mustWait, Bool.not_eq_false', Bool.and_eq_true, decide_eq_true_eq] at h
  exact h.1.1

/-- Steps of the player keep the account when they keep the buffer or take from it. -/
theorem AccountInv.shrink {s s' : State π} (hs : AccountInv s) (hwf : Wf s')
    (hdecoder : s'.decoder = s.decoder)
    (hsize : s'.buffer.frames.length ≤ s.buffer.frames.length)
    (hpcm : s'.buffer.pcmSize = pcmTotal s'.buffer.frames) : AccountInv s' where
  wf := hwf
  size := Nat.le_trans hsize hs.size
  room := by
    rw [hdecoder]
    exact fun hwait => Nat.lt_of_le_of_lt hsize (hs.room hwait)
  inHand := by
    rw [hdecoder]
    exact hs.inHand
  pcmSize := hpcm

/-- The decoder adds a frame to the account as it is stored, unless the frame is a fatal one. -/
theorem stored_pcmSize_iff {f : FrameData π} {n m : Int} (h : n = m) :
    (if f.Ends then n else n + f.pcmSize) = m + f.pcmSize ↔ ¬ f.pcmSize ≤ -2 := by
  by_cases hends : f.Ends
  · rw [if_pos hends]
    unfold FrameData.Ends at hends
    omega
  · rw [if_neg hends]
    unfold FrameData.Ends at hends
    omega

/-- The decoder decodes only while it does not wait. -/
theorem step_decode_waiting {s : State π} {f : FrameData π} {r : State π × List (Event π)}
    (h : step s (.decode f) = some r) : s.decoder.waiting = false := by
  simp only [step] at h
  split at h
  · cases h
  · split at h
    · next hguard => exact hguard.2.1
    · cases h

/-- A step keeps the account if it stores no fatal frame. -/
theorem accountInv_move {s : State π × List (Event π)} {s' : State π} {l : Step π}
    {es : List (Event π)} (hs : AccountInv s.1) (hG : NoFatalFrame s l)
    (hdecode : ∀ f, l = .decode f → s.1.decoder.waiting = false) (h : Move s.1 l s' es) :
    AccountInv s' := by
  have hwf := wf_move hs.wf h
  cases h with
  | decode =>
      have hwait := hdecode _ rfl
      exact ⟨hwf, hs.size, hs.room, fun _ => hwait, hs.pcmSize⟩
  | sectionIdle hlock hframe hfun =>
      refine ⟨hwf, by simpa using hs.size, ?_, by simp [hframe], by simpa using hs.pcmSize⟩
      intro hwait
      exact mustWait_room hwait
  | @sectionFrame h f bd es hlock hframe hsection =>
      rw [decoderSection_frame hs.wf.decoder hframe] at hsection
      cases hsection
      have hroom := hs.room (hs.inHand (by simp [hframe]))
      refine ⟨hwf, ?_, ?_, by simp, ?_⟩
      · simp only [park_buffer, adoptFile_buffer, List.length_append, List.length_singleton]
        omega
      · intro hwait
        exact mustWait_room hwait
      · simp only [park_buffer, adoptFile_buffer, pcmTotal_snoc]
        exact (stored_pcmSize_iff hs.pcmSize).mpr (hG _ hframe)
  | wake hlock hwait =>
      refine ⟨hwf, hs.size, ?_, ?_, hs.pcmSize⟩
      · intro hwait'
        exact mustWait_room hwait'
      · intro hframe
        rw [hs.inHand hframe] at hwait
        cases hwait
  | skip hpc => exact hs.shrink hwf rfl (Nat.zero_le _) rfl
  | stopInSong hpc hin =>
      rw [execCommand_stop_inSong hin] at hwf ⊢
      exact hs.shrink hwf rfl (Nat.zero_le _) rfl
  | stopIdle hpc hin =>
      rw [execCommand_stop_idle hin] at hwf ⊢
      exact hs.shrink hwf rfl (Nat.zero_le _) rfl
  | unknownType hlock hplay htype =>
      rw [startSong_unknown htype] at hwf ⊢
      exact hs.shrink hwf rfl (Nat.le_refl _) hs.pcmSize
  | openFails hlock hplay htype =>
      rw [startSong_fails htype] at hwf ⊢
      exact hs.shrink hwf rfl (Nat.le_refl _) hs.pcmSize
  | opens hlock hplay htype =>
      rw [startSong_opens htype] at hwf ⊢
      exact hs.shrink hwf rfl (Nat.zero_le _) rfl
  | take hpc hplay hframes =>
      refine hs.shrink hwf rfl (by simp [hframes]) ?_
      simp only [hs.pcmSize, hframes, pcmTotal_cons]
      omega
  | quiet | noFrame | ends | retire => exact hs.shrink hwf rfl (Nat.le_refl _) hs.pcmSize

/-- A fatal frame that is stored is missing from `pcm_size`. -/
theorem not_accounted_move {s : State π × List (Event π)} {s' : State π} {l : Step π}
    {es : List (Event π)} (hs : AccountInv s.1) (hG : ¬ NoFatalFrame s l) (h : Move s.1 l s' es) :
    ¬ Accounted s' := by
  cases h with
  | sectionIdle hlock hframe hfun => simp [NoFatalFrame, hframe] at hG
  | @sectionFrame h f bd es hlock hframe hsection =>
      have hfatal : f.pcmSize ≤ -2 := by
        simpa [NoFatalFrame, hframe] using hG
      rw [decoderSection_frame hs.wf.decoder hframe] at hsection
      cases hsection
      intro haccounted
      have hpcm := haccounted.pcmSize
      simp only [park_buffer, adoptFile_buffer, pcmTotal_snoc] at hpcm
      exact (stored_pcmSize_iff hs.pcmSize).mp hpcm hfatal
  | quiet hlabel =>
      cases l <;> first | exact (hlabel rfl).elim | exact (hG trivial).elim
  | _ => exact (hG trivial).elim

/-! ## Runs -/

/-- **The account of the frame buffer is right in every state of a run exactly when the decoder
never stores the frame of an unrecoverable error.** -/
theorem accounted_iff_noFatalFrame (ls : List (Step π)) :
    Always (observe step) (fun s => Accounted s.1) ((init, []) : State π × List (Event π)) ls ↔
      Guarded (observe step) NoFatalFrame (init, []) ls := by
  have haccounted : ∀ s : State π × List (Event π), AccountInv s.1 → Accounted s.1 :=
    fun s hs => hs.accounted
  refine always_iff_guarded haccounted ?_ ?_ accountInv_init ls
  · intro s l s' hs hG h
    obtain ⟨t, es, hstep, rfl⟩ := observe_eq_some.mp h
    refine accountInv_move hs hG ?_ (step_move hs.wf.decoder hstep)
    rintro f rfl
    exact step_decode_waiting hstep
  · intro s l s' hs hG h
    obtain ⟨t, es, hstep, rfl⟩ := observe_eq_some.mp h
    exact not_accounted_move hs hG (step_move hs.wf.decoder hstep)

/-- An mp3 file fails in the middle: the decoder stores the frame of `pcm_size` -2 and counts
nothing for it. -/
theorem not_accounted_fatal_frame :
    ¬ Always (observe step) (fun s => Accounted s.1) ((init, []) : State Unit × List (Event Unit))
      [.command .play, .endCommands, .beforeSong ⟨1, .mp3, 60⟩ 0 true true, .decoderSection,
        .decode ⟨none, -2, 0⟩, .decoderSection] := by
  intro h
  have hend := h.at_end rfl
  have hpcm := hend.pcmSize
  revert hpcm
  decide

end Squash.Player
