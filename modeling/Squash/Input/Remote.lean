import Mathlib.Data.BitVec
import Squash.Foundations.Transition

/-!
# Buttons of the EMPEG

A button of the panel, or the knob, sends a code when it is pressed and another one when it is let go.
`ir_monitor` makes one event of the two, and tells the buttons that are held for half a second by waiting
for the second code no longer than that. The remote sends one code for each of its buttons.

`irMonitor_events` says which events come of any sequence of codes and timeouts: an event is told by
a code and the one before it alone. -/

namespace Squash.Empeg

open Transition

/-- A code that is read from `/dev/ir`, as a `long`. -/
abbrev Button := BitVec 32

def irTopButtonPressed : Button := 0x00000000
def irTopButtonReleased : Button := 0x00000001
def irRightButtonPressed : Button := 0x00000002
def irRightButtonReleased : Button := 0x00000003
def irLeftButtonPressed : Button := 0x00000004
def irLeftButtonReleased : Button := 0x00000005
def irBottomButtonPressed : Button := 0x00000006
def irBottomButtonReleased : Button := 0x00000007
def irKnobPressed : Button := 0x00000008
def irKnobReleased : Button := 0x00000009
def irKnobRight : Button := 0x0000000a
def irKnobLeft : Button := 0x0000000b
def ir0 : Button := 0x00B94600
def ir9 : Button := 0x00B94609
def irTrackMinus : Button := 0x00B9460A
def irTrackPlus : Button := 0x00B9460B
def irProg : Button := 0x00B9460E
def irDirect : Button := 0x00B9460F
def irVolPlus : Button := 0x00B94614
def irVolMinus : Button := 0x00B94615
def irStar : Button := 0x00B9461B

/-- The buttons that can be held. -/
def pressedButtons : List Button :=
  [irTopButtonPressed, irRightButtonPressed, irLeftButtonPressed, irBottomButtonPressed,
    irKnobPressed]

def releasedButtons : List Button :=
  [irTopButtonReleased, irRightButtonReleased, irLeftButtonReleased, irBottomButtonReleased,
    irKnobReleased]

/-- `-1`, for `last_button` and `button`. -/
def noButton : Button := 0xFFFFFFFF

/-! ## `ir_monitor` -/

/-- What `select` comes back with. -/
inductive IrInput where
  | timeout
  | read (button : Button)
  deriving DecidableEq, Repr

/-- A call of `process_ir_event`. -/
structure IrEvent where
  button : Button
  held : Bool
  deriving DecidableEq, Repr

/-- `if( button != -1 )` the event is processed. -/
def processed (button : Button) (held : Bool) : List IrEvent :=
  if button ≠ noButton then [⟨button, held⟩] else []

/-- A turn of the loop, from `last_button`. There is no timeout unless `select` was given one. -/
def irMonitorStep (lastButton : Button) : IrInput → Option (Button × List IrEvent)
  | .timeout =>
    if lastButton ∈ pressedButtons then some (noButton, processed lastButton true) else none
  | .read button =>
    some (if button ∈ pressedButtons then (button, processed noButton false)
      else if button ∈ releasedButtons then
        (noButton, processed
          (if lastButton = button &&& 0xFFFFFFFE#32 then lastButton else noButton) false)
      else (noButton, processed button false))

/-! ## What it is for -/

/-- `before` was the press of a button. -/
def pressOf : Option IrInput → Option Button
  | some (.read button) => if button ∈ pressedButtons then some button else none
  | _ => none

/-- The event of an input that comes after `before`. -/
def gesture (before : Option IrInput) : IrInput → Option IrEvent
  | .timeout => (pressOf before).map fun pressed => ⟨pressed, true⟩
  | .read button =>
    if button ∈ pressedButtons then none
    else if button ∈ releasedButtons then
      -- the button that was pressed is let go
      (pressOf before).bind fun pressed =>
        if button = pressed + 1 then some ⟨pressed, false⟩ else none
    else if button = noButton then none
    else some ⟨button, false⟩

/-- Each input with the one before it. -/
def successive (before : Option IrInput) (inputs : List IrInput) : List (Option IrInput × IrInput) :=
  (before :: inputs.map some).zip inputs

/-- `last_button` after an input. -/
def lastButton (before : Option IrInput) : Button := (pressOf before).getD noButton

theorem pressOf_mem {before : Option IrInput} {button : Button} (h : pressOf before = some button) :
    button ∈ pressedButtons := by
  unfold pressOf at h
  split at h
  · split at h
    · next hmem =>
        obtain rfl := Option.some.inj h
        exact hmem
    · cases h
  · cases h

theorem processed_noButton (held : Bool) : processed noButton held = [] := if_neg (by simp)

theorem processed_of_ne {button : Button} (h : button ≠ noButton) (held : Bool) :
    processed button held = [⟨button, held⟩] := if_pos h

theorem pressedButtons_eq : pressedButtons = [0, 2, 4, 6, 8] := rfl

theorem releasedButtons_eq : releasedButtons = [1, 3, 5, 7, 9] := rfl

theorem noButton_notMem : noButton ∉ pressedButtons := by
  simp [pressedButtons_eq, noButton]

theorem ne_noButton {button : Button} (h : button ∈ pressedButtons) : button ≠ noButton :=
  fun heq => noButton_notMem (heq ▸ h)

/-- The code of a button that is let go is that of its press and one more. -/
theorem released_iff : ∀ pressed ∈ pressedButtons, ∀ button ∈ releasedButtons,
    (pressed = button &&& 0xFFFFFFFE#32 ↔ button = pressed + 1) := by
  simp [pressedButtons_eq, releasedButtons_eq]

theorem noButton_ne_released : ∀ button ∈ releasedButtons, noButton ≠ button &&& 0xFFFFFFFE#32 := by
  simp [releasedButtons_eq, noButton]

theorem pressed_ne_released : ∀ button ∈ pressedButtons, button ∉ releasedButtons := by
  simp [pressedButtons_eq, releasedButtons_eq]

theorem lastButton_read (button : Button) :
    lastButton (some (.read button)) = if button ∈ pressedButtons then button else noButton := by
  show (if button ∈ pressedButtons then some button else none).getD noButton = _
  split <;> rfl

/-- A turn of the loop reports the event, and remembers a press. -/
theorem irMonitorStep_eq {before : Option IrInput} {input : IrInput} {last : Button}
    {events : List IrEvent} (h : irMonitorStep (lastButton before) input = some (last, events)) :
    last = lastButton (some input) ∧ events = (gesture before input).toList := by
  unfold lastButton at h
  cases input with
  | timeout =>
      cases hbefore : pressOf before with
      | none =>
          rw [hbefore, irMonitorStep, Option.getD_none, if_neg noButton_notMem] at h
          cases h
      | some pressed =>
          have hmem := pressOf_mem hbefore
          rw [hbefore, irMonitorStep, Option.getD_some, if_pos hmem,
            processed_of_ne (ne_noButton hmem)] at h
          cases h
          rw [gesture, hbefore]
          exact ⟨rfl, rfl⟩
  | read button =>
      simp only [irMonitorStep, Option.some.injEq] at h
      rw [lastButton_read, gesture]
      by_cases hpressed : button ∈ pressedButtons
      · rw [if_pos hpressed, processed_noButton] at h
        cases h
        rw [if_pos hpressed, if_pos hpressed]
        exact ⟨rfl, rfl⟩
      · rw [if_neg hpressed] at h
        rw [if_neg hpressed, if_neg hpressed]
        by_cases hreleased : button ∈ releasedButtons
        · rw [if_pos hreleased] at h ⊢
          cases h
          refine ⟨rfl, ?_⟩
          cases hbefore : pressOf before with
          | none =>
              rw [Option.getD_none, if_neg (noButton_ne_released button hreleased),
                processed_noButton]
              rfl
          | some pressed =>
              have hmem := pressOf_mem hbefore
              have hiff := released_iff pressed hmem button hreleased
              rw [Option.getD_some, Option.bind_some]
              by_cases hlet : button = pressed + 1
              · rw [if_pos (hiff.mpr hlet), if_pos hlet, processed_of_ne (ne_noButton hmem)]
                rfl
              · rw [if_neg fun heq => hlet (hiff.mp heq), if_neg hlet, processed_noButton]
                rfl
        · rw [if_neg hreleased] at h ⊢
          cases h
          refine ⟨rfl, ?_⟩
          by_cases hno : button = noButton
          · rw [if_pos hno, hno, processed_noButton]
            rfl
          · rw [if_neg hno, processed_of_ne hno]
            rfl

theorem observe_irMonitor {before : Option IrInput} {inputs : List IrInput} {last : Button}
    {past events : List IrEvent}
    (h : run (observe irMonitorStep) (lastButton before, past) inputs = some (last, events)) :
    events = past ++ (successive before inputs).filterMap fun p => gesture p.1 p.2 := by
  induction inputs generalizing before past with
  | nil =>
      cases h
      simp [successive]
  | cons input inputs ih =>
      obtain ⟨s, hstep, hrun⟩ := Option.bind_eq_some_iff.mp h
      obtain ⟨t, es, hturn, rfl⟩ := observe_eq_some.mp hstep
      obtain ⟨rfl, rfl⟩ := irMonitorStep_eq hturn
      rw [ih hrun]
      simp only [successive, List.map_cons, List.zip_cons_cons, List.filterMap_cons]
      cases gesture before input with
      | none => simp
      | some event => simp

/-- No event is that of a button let go, and only the buttons of the panel are held. -/
theorem gesture_button {before : Option IrInput} {input : IrInput} {event : IrEvent}
    (h : gesture before input = some event) :
    event.button ∉ releasedButtons ∧ (event.held = true → event.button ∈ pressedButtons) := by
  cases input with
  | timeout =>
      rw [gesture] at h
      obtain ⟨pressed, hpressed, rfl⟩ := Option.map_eq_some_iff.mp h
      have hmem := pressOf_mem hpressed
      exact ⟨pressed_ne_released pressed hmem, fun _ => hmem⟩
  | read button =>
      rw [gesture] at h
      split at h
      · cases h
      split at h
      · obtain ⟨pressed, hpressed, hevent⟩ := Option.bind_eq_some_iff.mp h
        split at hevent
        · cases hevent
          have hmem := pressOf_mem hpressed
          exact ⟨pressed_ne_released pressed hmem, fun _ => hmem⟩
        · cases hevent
      · next hreleased =>
          split at h
          · cases h
          · cases h
            exact ⟨hreleased, fun hheld => absurd hheld Bool.false_ne_true⟩

/-- **Events come of the codes as `process_ir_event` expects them**: an event for each press that is
followed at once by its release or a timeout, and one for each code of the remote, in order. -/
theorem irMonitor_events {inputs : List IrInput} {last : Button} {events : List IrEvent}
    (h : run (observe irMonitorStep) (noButton, []) inputs = some (last, events)) :
    (events = (successive none inputs).filterMap fun p => gesture p.1 p.2) ∧
      ∀ event ∈ events,
        event.button ∉ releasedButtons ∧ (event.held = true → event.button ∈ pressedButtons) := by
  have hstart : noButton = lastButton none := rfl
  rw [hstart] at h
  have hevents := observe_irMonitor h
  rw [List.nil_append] at hevents
  refine ⟨hevents, ?_⟩
  rw [hevents]
  intro event hmem
  obtain ⟨p, -, hp⟩ := List.mem_filterMap.mp hmem
  exact gesture_button hp

/-- The top button, the volume on the remote, and the knob held. -/
theorem irMonitor_events_three :
    [⟨irTopButtonPressed, false⟩, ⟨irVolPlus, false⟩, ⟨irKnobPressed, true⟩] =
      (successive none [.read irTopButtonPressed, .read irTopButtonReleased, .read irVolPlus,
        .read irKnobPressed, .timeout]).filterMap fun p => gesture p.1 p.2 := by
  have hrun : run (observe irMonitorStep) (noButton, []) [.read irTopButtonPressed,
      .read irTopButtonReleased, .read irVolPlus, .read irKnobPressed, .timeout] =
      some (noButton, [⟨irTopButtonPressed, false⟩, ⟨irVolPlus, false⟩, ⟨irKnobPressed, true⟩]) := rfl
  exact (irMonitor_events hrun).1

end Squash.Empeg
