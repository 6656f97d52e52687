import Squash.Player.Invariant

/-!
# Who may use a decoder's file

`STATE_BEFORE_SONG` opens a file, the decoder adopts it, reads it and closes it. `Owned` says what
must have happened before each use of a file; a trace respects the ownership when every event in
it is `Owned`.

Two slips of the source break this. A `CMD_SKIP` leaves `song_eof` set, and the decoder's section
closes the file before it copies the data of the frame in hand, which belongs to the file; if the
decoder had already closed the skipped song's file, the flag stays and closes the next song's file
instead. And `CMD_STOP` seeks in a file that the decoder may have closed at its end.
`ownership_iff_respectsOwner` shows that there is no other way to break it.
-/

namespace Squash.Player

open Transition

variable {π : Type}

/-! ## The property -/

def Closed (t : List (Event π)) (h : Handle) : Prop := ∃ thread, .closed thread h ∈ t

/-- What must have happened before an event: a file is closed once, by the decoder, after its end
or a skip of its own song, and not used after that. -/
def Owned (past : List (Event π)) : Event π → Prop
  | .closed thread h =>
    thread = .frameDecoder ∧ ¬ Closed past h ∧
      ((∃ f : FrameData π, f.Ends ∧ .decoded h f ∈ past) ∨ .skipped (some h) ∈ past)
  | .decoded h _ | .sought h _ | .copied h => ¬ Closed past h
  | _ => True

/-- The steps that do not touch a file they should leave alone. -/
def RespectsOwner (s : State π × List (Event π)) : Step π → Prop
  | .decoderSection =>
    s.1.buffer.songEof = true → ∀ h f, s.1.decoder.newFrame = some (h, f) →
      f.Ends ∨ (¬ f.HasData ∧ .skipped (some h) ∈ s.2)
  | .command .stop =>
    s.1.player.playState = .inSong →
      s.1.buffer.newFile = true ∨ s.1.decoder.decoderFunction.isSome
  | _ => True

theorem closed_append {t u : List (Event π)} {h : Handle} :
    Closed (t ++ u) h ↔ Closed t h ∨ Closed u h := by
  simp [Closed, exists_or]

@[simp] theorem closed_singleton {thread : Thread} {g h : Handle} :
    Closed [(.closed thread g : Event π)] h ↔ g = h := by
  simp only [Closed, List.mem_singleton, Event.closed.injEq]
  constructor
  · rintro ⟨_, -, rfl⟩
    rfl
  · rintro rfl
    exact ⟨thread, rfl, rfl⟩

/-! ## The invariant -/

/-- What the trace says about the decoder's file. -/
structure FileInv (d : Decoder π) (t : List (Event π)) : Prop where
  /-- Files are opened in order, and the decoder's is the latest in use. -/
  past : ∀ h, Closed t h ∨ (∃ f, .decoded h f ∈ t) → ∃ g, d.decoderData = some g ∧ h ≤ g
  fileOpen : d.decoderFunction.isSome → ∀ h, d.decoderData = some h →
    ¬ Closed t h ∧ ∀ f, .decoded h f ∈ t → f.Ends → d.newFrame = some (h, f)
  fileShut : d.decoderFunction = none → ∀ h, d.decoderData = some h → Closed t h
  inHand : ∀ h f, d.newFrame = some (h, f) → .decoded h f ∈ t

structure OwnerInv (s : State π × List (Event π)) : Prop where
  wf : Wf s.1
  file : FileInv s.1.decoder s.2
  lawful : Lawful Owned s.2

theorem ownerInv_init : OwnerInv ((init, []) : State π × List (Event π)) where
  wf := wf_init
  file := ⟨by simp [Closed], nofun, nofun, nofun⟩
  lawful := lawful_nil

/-- The event neither closes nor reads a file. -/
def Event.Aside : Event π → Prop
  | .closed _ _ | .decoded _ _ => False
  | _ => True

theorem FileInv.aside {d : Decoder π} {t es : List (Event π)} (hf : FileInv d t)
    (hes : ∀ e ∈ es, e.Aside) : FileInv d (t ++ es) := by
  have hclosed : ∀ h, Closed (t ++ es) h ↔ Closed t h := by
    intro h
    rw [closed_append]
    apply or_iff_left
    rintro ⟨thread, hmem⟩
    exact hes _ hmem
  have hdecoded : ∀ h f, .decoded h f ∈ t ++ es ↔ .decoded h f ∈ t := by
    intro h f
    rw [List.mem_append]
    exact or_iff_left fun hmem => hes _ hmem
  constructor
  · simpa only [hclosed, hdecoded] using hf.past
  · simpa only [hclosed, hdecoded] using hf.fileOpen
  · simpa only [hclosed] using hf.fileShut
  · simpa only [hdecoded] using hf.inHand

/-- Adopting the pending file, of which the trace knows nothing yet. -/
theorem FileInv.adopt {b : FrameBuffer π} {d : Decoder π} {t : List (Event π)} (hf : FileInv d t)
    (hframe : d.newFrame = none)
    (hpending : b.newFile = true → b.decoderFunction.isSome ∧
      ∃ h, b.decoderData = some h ∧ ∀ g, d.decoderData = some g → g < h) :
    FileInv (park (adoptFile (b, d))).2 t := by
  cases hnew : b.newFile with
  | false =>
      exact ⟨by simpa [hnew] using hf.past, by simpa [hnew] using hf.fileOpen,
        by simpa [hnew] using hf.fileShut, by simpa using hf.inHand⟩
  | true =>
      obtain ⟨hfun, h, hh, hlater⟩ := hpending hnew
      have hunused : ∀ g, Closed t g ∨ (∃ f, .decoded g f ∈ t) → g < h := by
        intro g hg
        obtain ⟨g', hg', hle⟩ := hf.past g hg
        exact Nat.lt_of_le_of_lt hle (hlater g' hg')
      constructor
      · intro g hg
        exact ⟨h, by simp [hnew, hh], Nat.le_of_lt (hunused g hg)⟩
      · intro _ g hg
        obtain rfl : h = g := by simpa [hnew, hh] using hg
        refine ⟨fun hclosed => Nat.lt_irrefl h (hunused h (.inl hclosed)), fun f hdec => ?_⟩
        exact absurd (hunused h (.inr ⟨f, hdec⟩)) (Nat.lt_irrefl h)
      · intro hnone
        simp only [park_decoderFunction, adoptFile_decoder, hnew, if_true] at hnone
        simp [hnone] at hfun
      · simp [hframe]

theorem FileInv.decode {d : Decoder π} {t : List (Event π)} {h : Handle} {f : FrameData π}
    (hf : FileInv d t) (hdata : d.decoderData = some h) (hidle : d.newFrame = none)
    (hopen : d.decoderFunction.isSome) :
    FileInv { d with newFrame := some (h, f) } (t ++ [.decoded h f]) := by
  have hclosed : ∀ g, Closed (t ++ [.decoded h f]) g ↔ Closed t g := by
    intro g
    simp [Closed]
  obtain ⟨hnot, hends⟩ := hf.fileOpen hopen h hdata
  refine ⟨?_, ?_, ?_, ?_⟩
  · rintro g (hg | ⟨f', hg⟩)
    · exact hf.past g (.inl ((hclosed g).mp hg))
    · rcases List.mem_append.mp hg with hg | hg
      · exact hf.past g (.inr ⟨f', hg⟩)
      · obtain ⟨rfl, -⟩ : g = h ∧ f' = f := by simpa using hg
        exact ⟨g, hdata, Nat.le_refl g⟩
  · intro _ g hg
    obtain rfl : h = g := Option.some.inj (hdata.symm.trans hg)
    refine ⟨(hclosed h).not.mpr hnot, fun f' hf' hends' => ?_⟩
    rcases List.mem_append.mp hf' with hf' | hf'
    · -- an earlier end would have closed the file
      have hstill := hends f' hf' hends'
      rw [hidle] at hstill
      cases hstill
    · simp only [List.mem_singleton, Event.decoded.injEq, true_and] at hf'
      rw [hf']
  · intro hnone
    rw [show d.decoderFunction = none from hnone] at hopen
    cases hopen
  · intro g f' hg
    cases hg
    simp

/-- The frame in hand is stored, and the file is closed or not. -/
theorem FileInv.store {d d' : Decoder π} {t : List (Event π)} {h : Handle} {f : FrameData π}
    {close : Prop} [Decidable close] (hf : FileInv d t) (hd : d.Ok)
    (hframe : d.newFrame = some (h, f)) (hends : f.Ends → close)
    (hdata : d'.decoderData = d.decoderData) (hnone : d'.newFrame = none)
    (hfun : d'.decoderFunction = if close then none else d.decoderFunction) :
    FileInv d' (t ++ if close then [.closed .frameDecoder h] else []) := by
  obtain ⟨hopen, hh⟩ := hd.inHand h f hframe
  have hdata' : d'.decoderData = some h := hdata.trans hh
  by_cases hclose : close
  · rw [if_pos hclose] at hfun ⊢
    refine ⟨?_, by simp [hfun], ?_, by simp [hnone]⟩
    · rintro g (hg | ⟨f', hg⟩)
      · rcases closed_append.mp hg with hg | hg
        · simpa [hdata] using hf.past g (.inl hg)
        · exact ⟨h, hdata', Nat.le_of_eq (closed_singleton.mp hg).symm⟩
      · simpa [hdata] using hf.past g (.inr ⟨f', by simpa using hg⟩)
    · intro _ g hg
      obtain rfl : h = g := Option.some.inj (hdata'.symm.trans hg)
      exact closed_append.mpr (.inr (closed_singleton.mpr rfl))
  · rw [if_neg hclose] at hfun ⊢
    rw [List.append_nil]
    refine ⟨by simpa [hdata] using hf.past, ?_, ?_, by simp [hnone]⟩
    · intro _ g hg
      obtain rfl : h = g := Option.some.inj (hdata'.symm.trans hg)
      obtain ⟨hnot, hlast⟩ := hf.fileOpen hopen h hh
      refine ⟨hnot, fun f' hf' hends' => ?_⟩
      -- it could only be the frame in hand, which does not end the file
      have hsame := (hlast f' hf' hends').symm.trans hframe
      cases hsame
      exact absurd (hends hends') hclose
    · intro hnone'
      rw [hfun] at hnone'
      simp [hnone'] at hopen

/-! ## One step -/

theorem FrameData.Ends.not_hasData {f : FrameData π} (h : f.Ends) : ¬ f.HasData := by
  rintro ⟨-, hpos⟩
  rcases h with h | h <;> omega

theorem lawful_frame_iff {s : State π × List (Event π)} (hs : OwnerInv s) {h : Handle}
    {f : FrameData π} (hframe : s.1.decoder.newFrame = some (h, f)) :
    Lawful Owned (s.2 ++ ((if s.1.buffer.songEof ∨ f.Ends then [.closed .frameDecoder h] else []) ++
        if f.HasData then [.copied h] else [])) ↔
      (s.1.buffer.songEof = true → f.Ends ∨ (¬ f.HasData ∧ .skipped (some h) ∈ s.2)) := by
  obtain ⟨hopen, hh⟩ := hs.wf.decoder.inHand h f hframe
  obtain ⟨hnot, hlast⟩ := hs.file.fileOpen hopen h hh
  have hdec := hs.file.inHand h f hframe
  by_cases hends : f.Ends
  · simp only [hends, or_true, if_true, hends.not_hasData, if_false, List.append_nil, lawful_snoc]
    exact iff_of_true ⟨hs.lawful, rfl, hnot, .inl ⟨f, hends, hdec⟩⟩ (fun _ => .inl trivial)
  · have hearlier : ¬ ∃ f' : FrameData π, f'.Ends ∧ .decoded h f' ∈ s.2 := by
      rintro ⟨f', hf', hmem⟩
      have hsame := (hlast f' hmem hf').symm.trans hframe
      cases hsame
      exact hends hf'
    have hcopy : ∀ t : List (Event π), Owned t (.copied h) ↔ ¬ Closed t h := fun _ => Iff.rfl
    cases heof : s.1.buffer.songEof with
    | false =>
        simp only [hends, Bool.false_eq_true, or_self, if_false, List.nil_append, false_imp_iff,
          iff_true]
        split
        · exact lawful_snoc.mpr ⟨hs.lawful, hnot⟩
        · simpa using hs.lawful
    | true =>
        simp only [hends, true_or, if_true, false_or, true_imp_iff]
        have hclose : Lawful Owned (s.2 ++ [.closed .frameDecoder h]) ↔
            .skipped (some h) ∈ s.2 := by
          simp [lawful_snoc, hs.lawful, Owned, hnot, hearlier]
        by_cases hcop : f.HasData
        · simp only [hcop, if_true, not_true, false_and, iff_false, ← List.append_assoc]
          rw [lawful_snoc, hcopy]
          rintro ⟨-, hno⟩
          exact hno (closed_append.mpr (.inr (closed_singleton.mpr rfl)))
        · simp only [hcop, if_false, List.append_nil, not_false_eq_true, true_and, hclose]

theorem lawful_stop_iff {s : State π × List (Event π)} (hs : OwnerInv s)
    (hpc : s.1.player.pc.AtCommands) (hin : s.1.player.playState = .inSong) :
    Lawful Owned (s.2 ++ s.1.buffer.decoderData.toList.map (.sought · 0)) ↔
      s.1.buffer.newFile = true ∨ s.1.decoder.decoderFunction.isSome := by
  obtain ⟨h, hh⟩ := Option.isSome_iff_exists.mp (hs.wf.inSong hin)
  have hpc' := hpc.plain.ne_halted true
  have hgoal : Lawful Owned (s.2 ++ s.1.buffer.decoderData.toList.map (.sought · 0)) ↔
      ¬ Closed s.2 h := by
    simp [hh, lawful_snoc, hs.lawful, Owned]
  rw [hgoal]
  cases hnew : s.1.buffer.newFile with
  | true =>
      obtain ⟨-, h', hh', hlater⟩ := hs.wf.pending hnew hpc'
      obtain rfl : h = h' := Option.some.inj (hh.symm.trans hh')
      apply iff_of_true _ (.inl rfl)
      intro hclosed
      obtain ⟨g, hg, hle⟩ := hs.file.past h (.inl hclosed)
      exact absurd hle (Nat.not_le.mpr (hlater g hg))
  | false =>
      have hdata : s.1.decoder.decoderData = some h := (hs.wf.adopted hnew hpc').trans hh
      simp only [Bool.false_eq_true, false_or]
      cases hfun : s.1.decoder.decoderFunction with
      | none => simpa using hs.file.fileShut hfun h hdata
      | some c => simpa using (hs.file.fileOpen (by simp [hfun]) h hdata).1

/-- A step respects the ownership exactly when what it does is lawful. -/
theorem lawful_move_iff {s : State π × List (Event π)} {s' : State π} {l : Step π}
    {es : List (Event π)} (hs : OwnerInv s) (h : Move s.1 l s' es) :
    Lawful Owned (s.2 ++ es) ↔ RespectsOwner s l := by
  have hfree : ∀ es' : List (Event π), Lawful Owned (s.2 ++ es') → RespectsOwner s l →
      (Lawful Owned (s.2 ++ es') ↔ RespectsOwner s l) := fun _ => iff_of_true
  cases h with
  | decode hdata halive hidle hopen =>
      exact hfree _ (lawful_snoc.mpr ⟨hs.lawful, (hs.file.fileOpen hopen _ hdata).1⟩) trivial
  | sectionIdle hlock hframe hfun =>
      exact hfree _ (by simpa using hs.lawful) (by simp [RespectsOwner, hframe])
  | sectionFrame hlock hframe hsection =>
      rw [decoderSection_frame hs.wf.decoder hframe] at hsection
      cases hsection
      simp [lawful_frame_iff hs hframe, RespectsOwner, hframe]
  | stopInSong hpc hin => simp [lawful_stop_iff hs hpc hin, RespectsOwner, hin]
  | stopIdle hpc hin => exact hfree _ (by simpa using hs.lawful) (by simp [RespectsOwner, hin])
  | skip hpc =>
      exact hfree _ (by simp [lawful_append, lawful_cons, hs.lawful, Owned]) trivial
  | quiet hsec _ hstop _ _ _ _ _ =>
      apply hfree _ (by simpa using hs.lawful)
      unfold RespectsOwner
      split
      · exact absurd rfl hsec
      · exact absurd rfl hstop
      · trivial
  | opens hlock hplay htype =>
      apply hfree _ _ trivial
      -- no file with the new number can have been closed
      have hnew : ¬ Closed s.2 s.1.nextHandle := by
        intro hclosed
        obtain ⟨g, hg, hle⟩ := hs.file.past _ (.inl hclosed)
        exact absurd hle (Nat.not_le.mpr (hs.wf.decoderKnown g hg))
      simpa [lawful_append, lawful_cons, hs.lawful, Owned, Closed] using hnew
  | wake | noFrame => exact hfree _ (by simpa using hs.lawful) trivial
  | unknownType | openFails | take | ends | retire =>
      exact hfree _ (lawful_snoc.mpr ⟨hs.lawful, trivial⟩) trivial

theorem fileInv_move {s : State π × List (Event π)} {s' : State π} {l : Step π}
    {es : List (Event π)} (hs : OwnerInv s) (h : Move s.1 l s' es) :
    FileInv s'.decoder (s.2 ++ es) := by
  cases h with
  | decode hdata halive hidle hopen => exact hs.file.decode hdata hidle hopen
  | sectionIdle hlock hframe hfun =>
      rw [List.append_nil]
      exact hs.file.adopt hframe fun hnew =>
        hs.wf.pending hnew (PlayerPc.ne_halted_of_unlocked hlock)
  | sectionFrame hlock hframe hsection =>
      rw [decoderSection_frame hs.wf.decoder hframe] at hsection
      cases hsection
      rw [← List.append_assoc]
      refine FileInv.aside ?_ (by split <;> simp [Event.Aside])
      refine FileInv.adopt ?_ rfl fun hnew =>
        hs.wf.pending hnew (PlayerPc.ne_halted_of_unlocked hlock)
      exact hs.file.store hs.wf.decoder hframe .inr rfl rfl rfl
  | wake hlock hwait =>
      rw [List.append_nil]
      exact ⟨hs.file.past, hs.file.fileOpen, hs.file.fileShut, hs.file.inHand⟩
  | stopInSong hpc hin =>
      rw [execCommand_stop_inSong hin]
      exact hs.file.aside (by simp [Event.Aside])
  | stopIdle hpc hin =>
      rw [execCommand_stop_idle hin]
      exact hs.file.aside nofun
  | unknownType hlock hplay htype =>
      rw [startSong_unknown htype]
      exact hs.file.aside (by simp [Event.Aside])
  | openFails hlock hplay htype =>
      rw [startSong_fails htype]
      exact hs.file.aside (by simp [Event.Aside])
  | opens hlock hplay htype =>
      rw [startSong_opens htype]
      exact hs.file.aside (by simp [Event.Aside])
  | skip | quiet | noFrame | take | ends | retire => exact hs.file.aside (by simp [Event.Aside])

/-! ## Runs -/

theorem ownerInv_step {s s' : State π × List (Event π)} {l : Step π} (hs : OwnerInv s)
    (hG : RespectsOwner s l) (h : observe step s l = some s') : OwnerInv s' := by
  obtain ⟨t, es, hstep, rfl⟩ := observe_eq_some.mp h
  have hmove := step_move hs.wf.decoder hstep
  exact ⟨wf_move hs.wf hmove, fileInv_move hs hmove, (lawful_move_iff hs hmove).mpr hG⟩

theorem not_lawful_step {s s' : State π × List (Event π)} {l : Step π} (hs : OwnerInv s)
    (hG : ¬ RespectsOwner s l) (h : observe step s l = some s') : ¬ Lawful Owned s'.2 := by
  obtain ⟨t, es, hstep, rfl⟩ := observe_eq_some.mp h
  have hmove := step_move hs.wf.decoder hstep
  exact (lawful_move_iff hs hmove).not.mpr hG

/-- **A run respects the ownership of the files exactly when each of its steps does.** -/
theorem ownership_iff_respectsOwner (ls : List (Step π)) :
    Always (observe step) (fun s => Lawful Owned s.2) (init, []) ls ↔
      Guarded (observe step) RespectsOwner (init, []) ls :=
  always_iff_guarded (fun _ hs => hs.lawful) (fun _ _ _ => ownerInv_step)
    (fun _ _ _ => not_lawful_step) ownerInv_init ls

/-- The player skips a song while a frame of it is in the decoder's hand: the file is closed, and
then the frame's data is copied out of it. -/
theorem not_owned_skip_in_flight :
    ¬ Always (observe step) (fun s : State Unit × List (Event Unit) => Lawful Owned s.2) (init, [])
      [.command .play, .endCommands, .beforeSong ⟨1, .mp3, 60⟩ 0 true true, .decoderSection,
        .decode ⟨some (), 4, 0⟩, .command .skip, .endCommands, .decoderSection] := by
  intro h
  have hend := h.at_end rfl
  refine hend
    [.started ⟨1, .mp3, 60⟩, .opened 0, .sought 0 0, .decoded 0 ⟨some (), 4, 0⟩, .skipped (some 0),
      .feedback (some ⟨1, .mp3, 60⟩) (-1), .closed .frameDecoder 0]
    (.copied 0) [] rfl ⟨.frameDecoder, ?_⟩
  simp

end Squash.Player
