import Squash.Player.Invariant

/-!
# One verdict for each play

`judge` is an automaton over what the player is seen to do. It accepts a trace when every play of a
song gets its one verdict: after the frame that ends it, or after a skip, comes one call of
`feedback` on that song, and then the song is retired. `feedback_once` says so in terms of the trace.

A skip that is processed outside a song calls `feedback` all the same: on the song that was judged
before, or on no song at all. `oneVerdict_iff_skipsInSong` shows that only this goes wrong.
-/

namespace Squash.Player

open Transition

variable {π : Type}

/-! ## The property -/

/-- Where the play of a song stands: no song, a song playing, a song that ended and waits for its
verdict, a song that has it. -/
inductive Phase where
  | idle
  | playing (song : Song)
  | ended (song : Song) (direction : Int)
  | judged (song : Song)
  deriving DecidableEq, Repr

def judge : Phase → Event π → Option Phase
  | .idle, .started song => some (if song.songType = .unknown then .idle else .playing song)
  | _, .started _ => none
  | .playing song, .took f => some (if f.Ends then .ended song 1 else .playing song)
  | .playing song, .skipped _ => some (.ended song (-1))
  | .ended song direction, .feedback song' direction' =>
    if song' = some song ∧ direction' = direction then some (.judged song) else none
  | _, .feedback _ _ => none
  | .judged song, .retired song' => if song' = some song then some .idle else none
  | _, .retired _ => none
  | φ, _ => some φ

/-- The phase the trace leads to, if every play in it is judged as it should be. -/
def verdict (t : List (Event π)) : Option Phase := t.foldlM judge .idle

def OneVerdict (t : List (Event π)) : Prop := (verdict t).isSome

instance (t : List (Event π)) : Decidable (OneVerdict t) :=
  inferInstanceAs (Decidable (_ = true))

/-- Commands to skip are processed inside a song only. -/
def SkipsInSong (s : State π × List (Event π)) : Step π → Prop
  | .command .skip => s.1.player.playState = .inSong
  | _ => True

theorem verdict_append (t es : List (Event π)) :
    verdict (t ++ es) = (verdict t).bind fun φ => es.foldlM judge φ := by
  simp [verdict, List.foldlM_append]

theorem judge_cons {φ χ : Phase} {e : Event π} {t : List (Event π)}
    (h : (e :: t).foldlM judge φ = some χ) :
    ∃ ψ, judge φ e = some ψ ∧ t.foldlM judge ψ = some χ := by
  rw [List.foldlM_cons] at h
  exact Option.bind_eq_some_iff.mp h

/-! ## What the automaton accepts -/

def feedbacks (t : List (Event π)) : List (Option Song × Int) :=
  t.filterMap fun
    | .feedback song direction => some (song, direction)
    | _ => none

/-- The event neither starts nor retires a song. -/
def Event.Within : Event π → Prop
  | .started _ | .retired _ => False
  | _ => True

theorem judged_within {mid : List (Event π)} {song : Song} {φ : Phase}
    (hmid : ∀ e ∈ mid, e.Within) (h : mid.foldlM judge (.judged song) = some φ) :
    φ = .judged song ∧ feedbacks mid = [] := by
  induction mid with
  | nil =>
      cases h
      exact ⟨rfl, rfl⟩
  | cons e mid ih =>
      have hin := hmid e List.mem_cons_self
      obtain ⟨ψ, hψ, hrest⟩ := judge_cons h
      have ih' := ih fun e he => hmid e (List.mem_cons_of_mem _ he)
      cases e with
      | started | retired => exact hin.elim
      | feedback => cases hψ
      | _ =>
          cases hψ
          exact ih' hrest

theorem ended_within {mid : List (Event π)} {song : Song} {direction : Int} {φ : Phase}
    (hmid : ∀ e ∈ mid, e.Within) (h : mid.foldlM judge (.ended song direction) = some φ) :
    (φ = .ended song direction ∧ feedbacks mid = []) ∨
      (φ = .judged song ∧ feedbacks mid = [(some song, direction)]) := by
  induction mid with
  | nil =>
      cases h
      exact .inl ⟨rfl, rfl⟩
  | cons e mid ih =>
      have hin := hmid e List.mem_cons_self
      have hmid' : ∀ e ∈ mid, e.Within := fun e he => hmid e (List.mem_cons_of_mem _ he)
      obtain ⟨ψ, hψ, hrest⟩ := judge_cons h
      cases e with
      | feedback song' direction' =>
          simp only [judge] at hψ
          split at hψ
          · next heq =>
              cases hψ
              obtain ⟨hφ, hnone⟩ := judged_within hmid' hrest
              right
              refine ⟨hφ, ?_⟩
              rw [← heq.1, ← heq.2]
              exact congrArg _ hnone
          · cases hψ
      | started | retired => exact hin.elim
      | _ =>
          cases hψ
          exact ih hmid' hrest

theorem playing_within {mid : List (Event π)} {song : Song} {φ : Phase}
    (hmid : ∀ e ∈ mid, e.Within) (h : mid.foldlM judge (.playing song) = some φ) :
    ((∀ s, φ ≠ .judged s) ∧ feedbacks mid = []) ∨
      (φ = .judged song ∧
        ((feedbacks mid = [(some song, 1)] ∧ ∃ f, .took f ∈ mid ∧ f.Ends) ∨
          (feedbacks mid = [(some song, -1)] ∧ ∃ file, .skipped file ∈ mid))) := by
  induction mid with
  | nil =>
      cases h
      exact .inl ⟨nofun, rfl⟩
  | cons e mid ih =>
      have hin := hmid e List.mem_cons_self
      have hmid' : ∀ e ∈ mid, e.Within := fun e he => hmid e (List.mem_cons_of_mem _ he)
      obtain ⟨ψ, hψ, hrest⟩ := judge_cons h
      have hstay : ψ = .playing song → feedbacks (e :: mid) = feedbacks mid →
          ((∀ s, φ ≠ .judged s) ∧ feedbacks (e :: mid) = []) ∨ (φ = .judged song ∧
            ((feedbacks (e :: mid) = [(some song, 1)] ∧ ∃ f, .took f ∈ e :: mid ∧ f.Ends) ∨
              (feedbacks (e :: mid) = [(some song, -1)] ∧ ∃ file, .skipped file ∈ e :: mid))) := by
        rintro rfl hsame
        rw [hsame]
        rcases ih hmid' hrest with hno | ⟨hφ, ⟨hf, f, hmem, hends⟩ | ⟨hf, file, hmem⟩⟩
        · exact .inl hno
        · exact .inr ⟨hφ, .inl ⟨hf, f, List.mem_cons_of_mem _ hmem, hends⟩⟩
        · exact .inr ⟨hφ, .inr ⟨hf, file, List.mem_cons_of_mem _ hmem⟩⟩
      cases e with
      | took f =>
          by_cases hends : f.Ends
          · simp only [judge, hends, if_true, Option.some.injEq] at hψ
            subst hψ
            rcases ended_within hmid' hrest with ⟨hφ, hno⟩ | ⟨hφ, hone⟩
            · exact .inl ⟨by simp [hφ], hno⟩
            · exact .inr ⟨hφ, .inl ⟨hone, f, List.mem_cons_self, hends⟩⟩
          · simp only [judge, hends, if_false, Option.some.injEq] at hψ
            exact hstay hψ.symm rfl
      | skipped file =>
          cases hψ
          rcases ended_within hmid' hrest with ⟨hφ, hno⟩ | ⟨hφ, hone⟩
          · exact .inl ⟨by simp [hφ], hno⟩
          · exact .inr ⟨hφ, .inr ⟨hone, file, List.mem_cons_self⟩⟩
      | feedback => cases hψ
      | started | retired => exact hin.elim
      | _ =>
          cases hψ
          exact hstay rfl rfl

/-- Between the start of a song and its retirement there is one call of `feedback`, on that song,
with the direction that its end asks for. -/
theorem feedback_once {past mid : List (Event π)} {song : Song} {retired : Option Song}
    (h : OneVerdict (past ++ .started song :: (mid ++ [.retired retired])))
    (htype : song.songType ≠ .unknown) (hmid : ∀ e ∈ mid, e.Within) :
    retired = some song ∧
      ((feedbacks mid = [(some song, 1)] ∧ ∃ f, .took f ∈ mid ∧ f.Ends) ∨
        (feedbacks mid = [(some song, -1)] ∧ ∃ file, .skipped file ∈ mid)) := by
  obtain ⟨φ, hφ⟩ := Option.isSome_iff_exists.mp h
  rw [verdict_append] at hφ
  obtain ⟨ψ, -, hrest⟩ := Option.bind_eq_some_iff.mp hφ
  obtain ⟨ψ₁, hstart, hrest⟩ := judge_cons hrest
  -- the song could only start while no other one was playing
  have hψ₁ : ψ₁ = .playing song := by
    cases ψ <;> simp [judge, htype] at hstart
    exact hstart.symm
  rw [hψ₁, List.foldlM_append] at hrest
  obtain ⟨ψ₂, hplay, hretire⟩ := Option.bind_eq_some_iff.mp hrest
  have hret : ∃ s, ψ₂ = .judged s ∧ retired = some s := by
    cases ψ₂ <;> simp [judge] at hretire
    exact ⟨_, rfl, hretire.1⟩
  obtain ⟨s, rfl, hs⟩ := hret
  rcases playing_within hmid hplay with ⟨hno, -⟩ | ⟨heq, hone⟩
  · exact absurd rfl (hno s)
  · cases heq
    exact ⟨hs, hone⟩

/-! ## The invariant -/

/-- The phase that the player's variables stand for. -/
def PlayerThread.Agrees (p : PlayerThread π) (φ : Phase) : Prop :=
  match p.playState with
  | .beforeSong => p.pc.Plain → φ = .idle
  | .inSong => ∃ song, p.curSong = some song ∧
      ((∀ f, p.pc = .gotFrame f → ¬ f.Ends) → φ = .playing song) ∧
      (∀ f, p.pc = .gotFrame f → f.Ends → φ = .ended song 1)
  | .afterSong => ∃ song, p.curSong = some song ∧ φ = .judged song

structure VerdictInv (s : State π × List (Event π)) : Prop where
  wf : Wf s.1
  agrees : ∃ φ, verdict s.2 = some φ ∧ s.1.player.Agrees φ

theorem verdictInv_init : VerdictInv ((init, []) : State π × List (Event π)) :=
  ⟨wf_init, .idle, rfl, fun _ => rfl⟩

theorem VerdictInv.oneVerdict {s : State π × List (Event π)} (h : VerdictInv s) :
    OneVerdict s.2 := by
  obtain ⟨φ, hφ, -⟩ := h.agrees
  exact Option.isSome_iff_exists.mpr ⟨φ, hφ⟩

theorem agrees_inSong {p : PlayerThread π} {φ : Phase} (hin : p.playState = .inSong)
    (h : p.Agrees φ) (hpc : ∀ f, p.pc = .gotFrame f → ¬ f.Ends) :
    ∃ song, p.curSong = some song ∧ φ = .playing song := by
  simp only [PlayerThread.Agrees, hin] at h
  obtain ⟨song, hsong, hφ, -⟩ := h
  exact ⟨song, hsong, hφ hpc⟩

theorem agrees_afterSong {p : PlayerThread π} {φ : Phase} (hafter : p.playState = .afterSong)
    (h : p.Agrees φ) : ∃ song, p.curSong = some song ∧ φ = .judged song := by
  simpa only [PlayerThread.Agrees, hafter] using h

theorem agrees_beforeSong {p : PlayerThread π} {φ : Phase} (hbefore : p.playState = .beforeSong)
    (h : p.Agrees φ) (hpc : p.pc.Plain) : φ = .idle := by
  simp only [PlayerThread.Agrees, hbefore] at h
  exact h hpc

/-- Outside the loop's waits and tests only the song and the state matter. -/
theorem PlayerThread.Agrees.congr {p q : PlayerThread π} {φ : Phase} (h : p.Agrees φ)
    (hplay : q.playState = p.playState) (hsong : q.curSong = p.curSong)
    (hbefore : p.playState = .beforeSong → p.pc.Plain)
    (hp : ∀ f, p.pc = .gotFrame f → ¬ f.Ends) (hq : ∀ f, q.pc = .gotFrame f → ¬ f.Ends) :
    q.Agrees φ := by
  cases hstate : p.playState with
  | beforeSong =>
      rw [PlayerThread.Agrees, hplay, hstate]
      exact fun _ => agrees_beforeSong hstate h (hbefore hstate)
  | inSong =>
      obtain ⟨song, hcur, hφ⟩ := agrees_inSong hstate h hp
      rw [PlayerThread.Agrees, hplay, hstate]
      exact ⟨song, hsong.trans hcur, fun _ => hφ, fun f hf hends => absurd hends (hq f hf)⟩
  | afterSong =>
      obtain ⟨song, hcur, hφ⟩ := agrees_afterSong hstate h
      rw [PlayerThread.Agrees, hplay, hstate]
      exact ⟨song, hsong.trans hcur, hφ⟩

/-- The decoder's events do not concern the verdict. -/
def Event.OfDecoder : Event π → Prop
  | .opened _ | .sought _ _ | .decoded _ _ | .copied _ | .closed _ _ => True
  | _ => False

theorem judge_decoder {φ : Phase} {es : List (Event π)} (h : ∀ e ∈ es, e.OfDecoder) :
    es.foldlM judge φ = some φ := by
  induction es with
  | nil => rfl
  | cons e es ih =>
      have he := h e List.mem_cons_self
      have hone : judge φ e = some φ := by
        cases e <;> first | exact he.elim | (cases φ <;> rfl)
      rw [List.foldlM_cons, hone]
      exact ih fun e he => h e (List.mem_cons_of_mem _ he)

/-! ## One step -/

/-- What a step does to the phase. -/
theorem agrees_move {s s' : State π} {l : Step π} {es : List (Event π)} {φ : Phase} (hs : Wf s)
    (hφ : s.player.Agrees φ) (h : Move s l s' es)
    (hG : l = .command .skip → s.player.playState = .inSong) :
    ∃ ψ, es.foldlM judge φ = some ψ ∧ s'.player.Agrees ψ := by
  cases h with
  | decode | wake => exact ⟨φ, judge_decoder (by simp [Event.OfDecoder]), hφ⟩
  | sectionIdle => exact ⟨φ, rfl, hφ⟩
  | @sectionFrame h f bd es hlock hframe hsection =>
      rw [decoderSection_frame hs.decoder hframe] at hsection
      cases hsection
      refine ⟨φ, judge_decoder ?_, hφ⟩
      split <;> split <;> simp [Event.OfDecoder]
  | skip hpc =>
      have hin := hG rfl
      obtain ⟨song, hsong, rfl⟩ := agrees_inSong hin hφ fun f hf => by
        rw [hf] at hpc
        exact hpc.elim
      refine ⟨.judged song, by simp [judge, hsong], ?_⟩
      rw [execCommand_skip]
      simp [PlayerThread.Agrees, hin, hsong]
  | stopInSong hpc hin =>
      rw [execCommand_stop_inSong hin]
      refine ⟨φ, judge_decoder (by simp [Event.OfDecoder]), hφ.congr rfl rfl ?_ ?_ nofun⟩
      · exact fun _ => hpc.plain
      · intro f hf
        exact (hpc.plain.not_taking (.inr ⟨f, hf⟩)).elim
  | stopIdle hpc hin =>
      rw [execCommand_stop_idle hin]
      refine ⟨φ, rfl, hφ.congr rfl rfl ?_ ?_ nofun⟩
      · exact fun _ => hpc.plain
      · intro f hf
        exact (hpc.plain.not_taking (.inr ⟨f, hf⟩)).elim
  | @quiet l p _ _ _ hfrom hframe hpc hsong hplay =>
      refine ⟨φ, rfl, hφ.congr hplay hsong ?_ hframe ?_⟩
      · intro hbefore
        apply hfrom.plain
        intro htake
        rw [hs.taking htake] at hbefore
        cases hbefore
      · intro f hf
        exact (hpc.not_taking (.inr ⟨f, hf⟩)).elim
  | @unknownType song start opens soundOpens hlock hplay htype =>
      rw [startSong_unknown htype]
      obtain rfl := agrees_beforeSong hplay hφ hlock
      exact ⟨.idle, by simp [judge, htype], by simp [PlayerThread.Agrees, hplay]⟩
  | @openFails song start soundOpens hlock hplay htype =>
      rw [startSong_fails htype]
      obtain rfl := agrees_beforeSong hplay hφ hlock
      refine ⟨.playing song, by simp [judge, htype], ?_⟩
      simp [PlayerThread.Agrees, hplay, PlayerPc.Plain]
  | @opens song start soundOpens hlock hplay htype =>
      rw [startSong_opens htype]
      obtain rfl := agrees_beforeSong hplay hφ hlock
      refine ⟨.playing song, by simp [judge, htype], ?_⟩
      cases soundOpens <;> simp [PlayerThread.Agrees, hplay, PlayerPc.Plain]
  | noFrame hpc hplay hframes =>
      exact ⟨φ, rfl, hφ.congr rfl rfl (by simp [hplay]) (by simp [hpc]) nofun⟩
  | @take f rest hpc hplay hframes =>
      obtain ⟨song, hsong, rfl⟩ := agrees_inSong hplay hφ (by simp [hpc])
      by_cases hends : f.Ends
      · refine ⟨.ended song 1, by simp [judge, hends], ?_⟩
        simp [PlayerThread.Agrees, hplay, hsong, hends]
      · refine ⟨.playing song, by simp [judge, hends], ?_⟩
        simp [PlayerThread.Agrees, hplay, hsong, hends]
  | @ends f hpc hends =>
      have hin := hs.taking (.inr ⟨f, hpc⟩)
      simp only [PlayerThread.Agrees, hin] at hφ
      obtain ⟨song, hsong, -, hended⟩ := hφ
      obtain rfl := hended f hpc hends
      refine ⟨.judged song, by simp [judge, hsong], ?_⟩
      simp [PlayerThread.Agrees, hsong]
  | retire hpc hplay =>
      obtain ⟨song, hsong, rfl⟩ := agrees_afterSong hplay hφ
      exact ⟨.idle, by simp [judge, hsong], fun _ => rfl⟩

/-- A skip outside a song is judged although no song is playing. -/
theorem judge_skip_outside {s : State π} {φ : Phase} (hpc : s.player.pc.AtCommands)
    (hφ : s.player.Agrees φ) (hout : s.player.playState ≠ .inSong) (file : Option Handle)
    (song : Option Song) :
    [(.skipped file : Event π), .feedback song (-1)].foldlM judge φ = none := by
  cases hstate : s.player.playState with
  | inSong => exact absurd hstate hout
  | beforeSong =>
      obtain rfl := agrees_beforeSong hstate hφ hpc.plain
      rfl
  | afterSong =>
      obtain ⟨judged, -, rfl⟩ := agrees_afterSong hstate hφ
      rfl

theorem skipsInSong_iff {s : State π × List (Event π)} {l : Step π} :
    SkipsInSong s l ↔ (l = .command .skip → s.1.player.playState = .inSong) := by
  unfold SkipsInSong
  split
  · simp
  · next hno => simpa using fun hl => absurd hl hno

theorem verdictInv_step {s s' : State π × List (Event π)} {l : Step π} (hs : VerdictInv s)
    (hG : SkipsInSong s l) (h : observe step s l = some s') : VerdictInv s' := by
  obtain ⟨t, es, hstep, rfl⟩ := observe_eq_some.mp h
  have hmove := step_move hs.wf.decoder hstep
  obtain ⟨φ, hφ, hagrees⟩ := hs.agrees
  obtain ⟨ψ, hψ, hagrees'⟩ := agrees_move hs.wf hagrees hmove (skipsInSong_iff.mp hG)
  refine ⟨wf_move hs.wf hmove, ψ, ?_, hagrees'⟩
  rw [verdict_append, hφ]
  exact hψ

theorem not_oneVerdict_step {s s' : State π × List (Event π)} {l : Step π} (hs : VerdictInv s)
    (hG : ¬ SkipsInSong s l) (h : observe step s l = some s') : ¬ OneVerdict s'.2 := by
  obtain ⟨t, es, hstep, rfl⟩ := observe_eq_some.mp h
  have hmove := step_move hs.wf.decoder hstep
  obtain ⟨φ, hφ, hagrees⟩ := hs.agrees
  rw [skipsInSong_iff, Classical.not_imp] at hG
  obtain ⟨rfl, hout⟩ := hG
  cases hmove with
  | skip hpc =>
      have hnone := judge_skip_outside hpc hagrees hout s.1.buffer.decoderData
        s.1.player.curSong
      rw [OneVerdict, verdict_append, hφ, Option.bind_some, hnone]
      simp
  | quiet _ hskip => exact absurd rfl hskip

/-! ## Runs -/

/-- **Every play gets exactly one verdict exactly when no skip is processed outside a song.** -/
theorem oneVerdict_iff_skipsInSong (ls : List (Step π)) :
    Always (observe step) (fun s => OneVerdict s.2) (init, []) ls ↔
      Guarded (observe step) SkipsInSong (init, []) ls :=
  always_iff_guarded (fun _ hs => hs.oneVerdict) (fun _ _ _ => verdictInv_step)
    (fun _ _ _ => not_oneVerdict_step) verdictInv_init ls

/-- A skip before the first song is judged without a song. -/
theorem not_oneVerdict_skip_first :
    ¬ Always (observe step) (fun s => OneVerdict s.2) ((init, []) : State Unit × List (Event Unit))
      [.command .skip] := by
  decide

end Squash.Player
