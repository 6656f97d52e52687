import Squash.Player.CommandQueue
import Squash.Player.Model

/-!
# The play/pause button

`do_toggle_player_command` looks at the state of the player, and queues the command that leaves it.
The state changes only when `player` drains the queue. A press that comes before that finds the state
of the press before it, so both queue the same command; and since a command that is queued behind
another is lost or replaces it, one command is executed, whatever the number of presses.

So the button works as a switch as long as the player has drained the queue between any two presses,
and more exactly when the number of presses that came too early is even (`toggled_iff`).

The presses and the drains come in any order.
-/

namespace Squash.Player

open LinkedList Transition

/-- `player_info.state` and the command queue. -/
structure ToggleState where
  state : PlayerState
  queue : PlayerCommandQueue
  deriving DecidableEq

/-- The command that a press of the button queues. -/
def toggleCommand : PlayerState → Option PlayerCommand
  | .play => some .pause
  | .pause | .stop => some .play
  -- ignored
  | .bigStop => none

/-- `do_toggle_player_command`, which holds both locks. -/
def doTogglePlayerCommand (s : ToggleState) : Option ToggleState :=
  match toggleCommand s.state with
  | none => some s
  | some command => (s.queue.playerQueueCommand command).map fun queue => { s with queue }

/-- What a command does to `player_info.state`. -/
def execState (state : PlayerState) : PlayerCommand → PlayerState
  | .play => .play
  | .pause => .pause
  | .stop => .stop
  | .skip | .noop => state

/-- The `switch` of `player` has no other effect on the state. -/
theorem execCommand_state {π : Type} (s : State π) (command : PlayerCommand) :
    (execCommand s command).1.player.state = execState s.player.state command := by
  cases command with
  | stop => by_cases h : s.player.playState = .inSong <;> simp [execCommand, execState, h]
  | _ => rfl

inductive ToggleStep where
  | press
  | drain
  deriving DecidableEq, Repr

/-- A press of the button, or a pass of `player` over the queue. -/
def toggleStep (s : ToggleState) : ToggleStep → Option ToggleState
  | .press => doTogglePlayerCommand s
  | .drain => s.queue.drain.map fun r => ⟨r.2.foldl execState s.state, r.1⟩

/-- Each press of the button has counted. -/
def Toggled (start : PlayerState) (ls : List ToggleStep) (s : ToggleState) : Prop :=
  s.state = .play ↔
    start = .play ∧ ls.count .press % 2 = 0 ∨ start ≠ .play ∧ ls.count .press % 2 = 1

/-- The presses that come before the queue was drained after the press before them, if there was one
before the first. -/
def early (queued : Bool) : List ToggleStep → Nat
  | [] => 0
  | .press :: ls => early true ls + if queued then 1 else 0
  | .drain :: ls => early false ls

/-! ## The queue with at most one command -/

namespace PlayerCommandQueue

/-- One command can be reached from `head`, and `tail` can be followed. -/
structure Single (q : PlayerCommandQueue) (command : PlayerCommand) : Prop where
  head : ∃ b, IsList q.heap q.head [(b, command)]
  tail : ∃ a c, q.tail = some a ∧ q.heap.read a = some c

variable {q : PlayerCommandQueue} {command : PlayerCommand}

theorem Single.head_ne_none (h : q.Single command) : q.head ≠ none := by
  obtain ⟨b, hlist⟩ := h.head
  intro hnone
  cases hlist.null_iff.mp hnone

/-- The first command that is queued. -/
theorem playerQueueCommand_first (h : q.head = none) (command : PlayerCommand) :
    ∃ q', q.playerQueueCommand command = some q' ∧ q'.Single command := by
  refine ⟨_, playerQueueCommand_null h command, ⟨q.heap.length, ?_⟩, q.heap.length,
    ⟨command, none⟩, rfl, ?_⟩
  · exact .cons (Heap.read_malloc_new _ _) (.nil none)
  · exact Heap.read_malloc_new _ _

/-- A command that is queued behind the same command: one of the two is left. -/
theorem playerQueueCommand_again (h : q.Single command) :
    ∃ q', q.playerQueueCommand command = some q' ∧ q'.Single command := by
  obtain ⟨b, hlist⟩ := h.head
  obtain ⟨a, c, htail, hread⟩ := h.tail
  obtain ⟨hhead, n, hb, hnil⟩ := hlist.cons_inv
  have hlt := Heap.lt_of_read hread
  have hold : (q.heap.malloc ⟨command, none⟩).1.read a = some c := by
    rw [Heap.read_malloc_old _ hlt]
    exact hread
  obtain ⟨heap, hset, -, hnew, hothers⟩ := Heap.setNext_of_read hold (some q.heap.length)
  refine ⟨⟨heap, if q.tail = q.head then some q.heap.length else q.head, q.tail, q.size + 1⟩, ?_,
    ?_, a, _, htail, hnew⟩
  · simp [playerQueueCommand, hhead, htail, hset]
  · show ∃ b, IsList heap (if q.tail = q.head then _ else _) _
    split
    · -- `head` moves on to the new entry
      refine ⟨q.heap.length, .cons ?_ (.nil none)⟩
      rw [hothers _ (Nat.ne_of_gt hlt)]
      exact Heap.read_malloc_new _ _
    · next hne =>
        -- the new entry hangs from an entry that was replaced
        have hba : b ≠ a := by
          rintro rfl
          exact hne (htail.trans hhead.symm)
        refine ⟨b, ?_⟩
        rw [hhead]
        refine .cons (n := n) ?_ (hnil.nil_inv ▸ .nil n)
        rw [hothers b hba, Heap.read_malloc_old _ (Heap.lt_of_read hb)]
        exact hb

/-- Draining executes the one command. -/
theorem drain_single (h : q.Single command) :
    ∃ q', q.drain = some (q', [command]) ∧ q'.head = none := by
  obtain ⟨b, hlist⟩ := h.head
  obtain ⟨heap, n, hread, hfree, -, hrest⟩ := hlist.free_head
  obtain ⟨hhead, -⟩ := hlist.cons_inv
  obtain rfl : n = none := hrest.nil_inv
  have hfuel : ∃ fuel, q.heap.length = fuel + 1 :=
    Nat.exists_eq_add_of_le' (Nat.lt_of_le_of_lt (Nat.zero_le b) (Heap.lt_of_read hread))
  obtain ⟨fuel, hfuel⟩ := hfuel
  refine ⟨⟨heap, none, if q.head = q.tail then none else q.tail, q.size - 1⟩, ?_, rfl⟩
  rw [drain, hfuel, hhead]
  simp only [drainLoop, hread, hhead, hfree, Option.bind_eq_bind, Option.bind_some]

/-- There is nothing to drain. -/
theorem drain_none (h : q.head = none) : q.drain = some (q, []) := by
  rw [drain, h]
  cases q.heap.length <;> rfl

end PlayerCommandQueue

/-! ## The presses that count -/

theorem toggleCommand_some {state : PlayerState} (h : state ≠ .bigStop) :
    ∃ command, toggleCommand state = some command ∧ execState state command ≠ .bigStop ∧
      (execState state command = .play ↔ state ≠ .play) := by
  cases state with
  | bigStop => exact absurd rfl h
  | play => exact ⟨.pause, rfl, by decide⟩
  | pause => exact ⟨.play, rfl, by decide⟩
  | stop => exact ⟨.play, rfl, by decide⟩

/-- Nothing is queued, or the command that leaves the state. -/
inductive Pending (s : ToggleState) : Bool → Prop where
  | idle (hhead : s.queue.head = none) : Pending s false
  | queued {command : PlayerCommand} (hcommand : toggleCommand s.state = some command)
      (hsingle : s.queue.Single command) : Pending s true

/-- Music plays when the queue has been drained. -/
def WillPlay (queued : Bool) (s : ToggleState) : Prop := s.state = .play ↔ queued = false

variable {start : PlayerState} {s : ToggleState} {queued : Bool}

/-- **A press** leaves the state as it is, and one command in the queue. -/
theorem Pending.press (h : Pending s queued) (hbig : s.state ≠ .bigStop) :
    ∃ s', toggleStep s .press = some s' ∧ Pending s' true ∧ s'.state = s.state := by
  obtain ⟨command, hcommand, -, -⟩ := toggleCommand_some hbig
  obtain ⟨q', hq, hsingle⟩ : ∃ q', s.queue.playerQueueCommand command = some q' ∧
      q'.Single command := by
    cases h with
    | idle hhead => exact PlayerCommandQueue.playerQueueCommand_first hhead command
    | @queued command' hcommand' hsingle =>
        -- the command that is queued is the same
        obtain rfl : command = command' := Option.some.inj (hcommand.symm.trans hcommand')
        exact PlayerCommandQueue.playerQueueCommand_again hsingle
  refine ⟨{ s with queue := q' }, ?_, .queued hcommand hsingle, rfl⟩
  simp only [toggleStep, doTogglePlayerCommand, hcommand, hq, Option.map_some]

/-- **A drain** carries out what is queued. -/
theorem Pending.drain (h : Pending s queued) (hbig : s.state ≠ .bigStop) :
    ∃ s', toggleStep s .drain = some s' ∧ Pending s' false ∧ s'.state ≠ .bigStop ∧
      (s'.state = .play ↔ WillPlay queued s) := by
  cases h with
  | idle hhead =>
      refine ⟨s, ?_, .idle hhead, hbig, ?_⟩
      · simp only [toggleStep, PlayerCommandQueue.drain_none hhead, Option.map_some, List.foldl_nil]
      · simp [WillPlay]
  | @queued command hcommand hsingle =>
      obtain ⟨q', hq, hhead⟩ := PlayerCommandQueue.drain_single hsingle
      obtain ⟨command', hcommand', hbig', hplay⟩ := toggleCommand_some hbig
      obtain rfl : command = command' := Option.some.inj (hcommand.symm.trans hcommand')
      refine ⟨⟨execState s.state command, q'⟩, ?_, .idle hhead, hbig', ?_⟩
      · simp only [toggleStep, hq, Option.map_some, List.foldl_cons, List.foldl_nil]
      · simpa [WillPlay] using hplay

/-- **All steps.** A press that comes early has no effect, and any other one changes what will be
played. -/
theorem Pending.run (h : Pending s queued) (hbig : s.state ≠ .bigStop) (ls : List ToggleStep) :
    ∃ s' queued', run toggleStep s ls = some s' ∧ Pending s' queued' ∧
      (WillPlay queued' s' ↔
        (WillPlay queued s ↔ (ls.count .press + early queued ls) % 2 = 0)) := by
  induction ls generalizing s queued with
  | nil => exact ⟨s, queued, rfl, h, by simp [early]⟩
  | cons l ls ih =>
      cases l with
      | press =>
          obtain ⟨mid, hmid, hpending, hsame⟩ := h.press hbig
          obtain ⟨s', queued', hrun, hpending', hplay⟩ := ih hpending (hsame ▸ hbig)
          refine ⟨s', queued', ?_, hpending', hplay.trans ?_⟩
          · rw [run_cons, hmid, Option.bind_some, hrun]
          · rw [WillPlay, WillPlay, hsame, List.count_cons_self, early]
            cases queued <;> by_cases hstate : s.state = .play <;> simp [hstate] <;> omega
      | drain =>
          obtain ⟨mid, hmid, hpending, hbig', hstate⟩ := h.drain hbig
          obtain ⟨s', queued', hrun, hpending', hplay⟩ := ih hpending hbig'
          refine ⟨s', queued', ?_, hpending', hplay.trans ?_⟩
          · rw [run_cons, hmid, Option.bind_some, hrun]
          · have hmidPlay : WillPlay false mid ↔ WillPlay queued s := by
              rw [← hstate]
              simp [WillPlay]
            rw [hmidPlay, List.count_cons_of_ne (by decide), early]

/-- **The play/pause button.** Whenever all commands have been processed, the presses have counted
exactly when an even number of them came before the player had drained the queue after the press
before. -/
theorem toggled_iff (hstart : start ≠ .bigStop) (ls : List ToggleStep) :
    ∃ s, run toggleStep ⟨start, .init⟩ ls = some s ∧
      (s.queue.head = none → (Toggled start ls s ↔ early false ls % 2 = 0)) := by
  have hidle : Pending ⟨start, .init⟩ false := .idle rfl
  obtain ⟨s, queued, hrun, hpending, hplay⟩ := hidle.run hstart ls
  refine ⟨s, hrun, fun hhead => ?_⟩
  have hstate : s.state = .play ↔
      (start = .play ↔ (ls.count .press + early false ls) % 2 = 0) := by
    cases hpending with
    | idle => simpa [WillPlay] using hplay
    | queued _ hsingle => exact absurd hhead hsingle.head_ne_none
  rw [Toggled, hstate]
  by_cases hplay : start = .play <;> simp only [hplay, ne_eq, not_true_eq_false, true_and,
    false_and, or_false, false_or, true_iff, false_iff, not_false_eq_true] <;> omega

/-- Two presses, with a pass of the player behind each. -/
theorem toggled_twice :
    ∃ s, run toggleStep ⟨.play, .init⟩ [.press, .drain, .press, .drain] = some s ∧
      s.queue.head = none ∧ Toggled .play [.press, .drain, .press, .drain] s := by
  obtain ⟨s, hrun, hiff⟩ := toggled_iff (by decide : PlayerState.play ≠ .bigStop)
    [.press, .drain, .press, .drain]
  have hresult : run toggleStep ⟨.play, .init⟩ [.press, .drain, .press, .drain] =
      some ⟨.play, ⟨[none, none], none, none, 0⟩⟩ := by decide
  obtain rfl := Option.some.inj (hresult.symm.trans hrun)
  exact ⟨_, hrun, rfl, (hiff rfl).mpr (by decide)⟩

/-- Two presses while music plays, before the player looks: it pauses. -/
theorem not_toggled_early :
    ¬ ∀ (start : PlayerState) (ls : List ToggleStep) (s : ToggleState), start ≠ .bigStop →
      run toggleStep ⟨start, .init⟩ ls = some s → s.queue.head = none → Toggled start ls s := by
  intro h
  have hrun : run toggleStep ⟨.play, .init⟩ [.press, .press, .drain] =
      some ⟨.pause, ⟨[some ⟨.pause, some 1⟩, none], none, some 0, 1⟩⟩ := by decide
  have htoggled := h .play _ _ (by decide) hrun rfl
  exact absurd (htoggled.mpr (.inl ⟨rfl, rfl⟩)) (by decide)

end Squash.Player
