import Squash.Input.Screens
import Squash.Playlist.Selection
import Squash.Stat.Aggregates

/-!
# Sessions with the remote

What `process_ir_event` sets has to agree with what is kept elsewhere: the brightness with that of the lamp,
and the bias with the ratings that are added up in the database. The ratings that the player gives and the
songs that are picked come in between, in any order.

`start_song_picker` runs in one piece here; `Squash.Stat.Interrupted` is about what happens when it is
interrupted. -/

namespace Squash.Empeg

open Transition

/-- The bias is a rational number here, like the ratings. -/
structure Device where
  display : DisplayInfo ℚ
  lamp : Int
  songs : SessionState

/-- `set_display_brightness_empeg`. -/
def setDisplayBrightnessEmpeg (brightness : Int) : Int :=
  if brightness < 0 then 0 else if brightness > 100 then 100 else brightness

def Device.config (dbReadonly : Bool) (device : Device) : Config :=
  ⟨dbReadonly, device.display.bias⟩

def Device.recounted (dbReadonly : Bool) (device : Device) : Device :=
  { device with songs := { device.songs with store := { device.songs.store with
    databaseInfo := device.songs.store.databaseInfo.startSongPicker (device.config dbReadonly) } } }

/-- What comes of a call that `process_ir_event` makes. -/
def Device.act (dbReadonly : Bool) (device : Device) : Action → Option Device
  | .ratePlaying relative amount =>
    (Squash.songRatingAdjust (device.config dbReadonly) device.songs.store device.songs.playing
      relative amount).map fun store => { device with songs := { device.songs with store } }
  | .removePlaylistEntry =>
    (doRemovePlaylistEntry (device.config dbReadonly) device.songs).map fun songs =>
      { device with songs }
  | .selectPrevious =>
    some { device with songs := { device.songs with
      songQueue := device.songs.songQueue.selectPrevious } }
  | .selectNext =>
    some { device with songs := { device.songs with songQueue := device.songs.songQueue.selectNext } }
  | .startSongPicker => some (device.recounted dbReadonly)
  | .setDisplayBrightness brightness => some { device with lamp := setDisplayBrightnessEmpeg brightness }
  | .adjustVolume _ | .togglePlayer | .setPlayer _ | .quit => some device

/-- An event of the remote, or a step of the rest of the program. -/
inductive Happening where
  | event (event : IrEvent)
  | elsewhere (step : SessionStep)

def Device.step (steps : BiasSteps ℚ) (dbReadonly : Bool) (device : Device) :
    Happening → Option Device
  | .event event =>
    (processIrEvent steps device.display event).bind fun (display, actions) =>
      run (Device.act dbReadonly) { device with display } actions
  | .elsewhere step =>
    (sessionStep (device.config dbReadonly) device.songs step).map fun songs => { device with songs }

/-- The song that is played is shown first, and the songs are rated with the bias of the configuration. The
brightness is that of the state file, whatever number is there. -/
def Device.start (dbReadonly : Bool) (brightness : Int) (bias : ℚ) (songs : SessionState) : Device :=
  Device.recounted dbReadonly
    { display := { curScreen := .play, inMenu := false, menuSelection := 0, brightness, bias }
      lamp := setDisplayBrightnessEmpeg brightness
      songs }

/-! ## What holds of them -/

structure Device.Ok (dbReadonly : Bool) (device : Device) : Prop where
  display : device.display.Ok
  lamp : device.lamp = setDisplayBrightnessEmpeg device.display.brightness
  /-- the bias is being changed, or the sums are those of the bias -/
  sums : device.display.curScreen = .setRatingBias ∧ device.display.inMenu = false ∨
    Recount (device.config dbReadonly) device.songs.store.databaseInfo

variable {steps : BiasSteps ℚ} {dbReadonly : Bool} {device device' : Device} {event : IrEvent}
  {action : Action} {actions : List Action}

theorem recounted_recount (device : Device) :
    Recount ((device.recounted dbReadonly).config dbReadonly)
      (device.recounted dbReadonly).songs.store.databaseInfo :=
  recount_startSongPicker _ _

/-- Nothing is changed but the songs, and they stay recounted. -/
def Keeps (dbReadonly : Bool) (device device' : Device) : Prop :=
  device'.display = device.display ∧ device'.lamp = device.lamp ∧
    (Recount (device.config dbReadonly) device.songs.store.databaseInfo →
      Recount (device.config dbReadonly) device'.songs.store.databaseInfo)

theorem Keeps.ok (h : Keeps dbReadonly device device')
    (hok : device.Ok dbReadonly) : device'.Ok dbReadonly := by
  obtain ⟨hdisplay, hlamp, hsums⟩ := h
  have hconfig : device'.config dbReadonly = device.config dbReadonly :=
    congrArg (fun display : DisplayInfo ℚ => Config.mk dbReadonly display.bias) hdisplay
  refine ⟨hdisplay ▸ hok.display, ?_, ?_⟩
  · rw [hlamp, hdisplay]
    exact hok.lamp
  · rw [hdisplay, hconfig]
    exact hok.sums.imp_right hsums

theorem act_elsewhere (haction : action.elsewhere = true)
    (h : device.act dbReadonly action = some device') : Keeps dbReadonly device device' := by
  cases action with
  | ratePlaying relative amount =>
      obtain ⟨store, hstore, rfl⟩ := Option.map_eq_some_iff.mp h
      exact ⟨rfl, rfl, fun hsums => recount_songRatingAdjust hsums hstore⟩
  | removePlaylistEntry =>
      obtain ⟨songs, hsongs, rfl⟩ := Option.map_eq_some_iff.mp h
      have hstep : sessionStep (device.config dbReadonly) device.songs .doRemovePlaylistEntry =
          some songs := hsongs
      exact ⟨rfl, rfl, fun hsums => recount_sessionStep hsums hstep⟩
  | startSongPicker => cases haction
  | setDisplayBrightness => cases haction
  | quit => cases haction
  | _ =>
      cases h
      exact ⟨rfl, rfl, id⟩

theorem Keeps.refl (device : Device) : Keeps dbReadonly device device := ⟨rfl, rfl, id⟩

theorem Keeps.trans {device'' : Device} (h : Keeps dbReadonly device device')
    (h' : Keeps dbReadonly device' device'') : Keeps dbReadonly device device'' := by
  have hconfig : device'.config dbReadonly = device.config dbReadonly :=
    congrArg (fun display : DisplayInfo ℚ => Config.mk dbReadonly display.bias) h.1
  obtain ⟨hdisplay, hlamp, hsums⟩ := h'
  rw [hconfig] at hsums
  exact ⟨hdisplay.trans h.1, hlamp.trans h.2.1, hsums ∘ h.2.2⟩

theorem run_elsewhere (hactions : ∀ action ∈ actions, action.elsewhere = true)
    (h : run (Device.act dbReadonly) device actions = some device') :
    Keeps dbReadonly device device' := by
  induction actions generalizing device with
  | nil =>
      cases h
      exact .refl _
  | cons action actions ih =>
      obtain ⟨between, haction, hrest⟩ := Option.bind_eq_some_iff.mp h
      refine (act_elsewhere (hactions action List.mem_cons_self) haction).trans ?_
      exact ih (fun action' hmem => hactions action' (List.mem_cons_of_mem action hmem)) hrest

theorem run_leaveScreen {display : DisplayInfo ℚ}
    (h : run (Device.act dbReadonly) device (leaveScreen display) = some device') :
    device' = if display.curScreen = .setRatingBias then device.recounted dbReadonly else device := by
  unfold leaveScreen at h
  split at h
  · next hscreen =>
      rw [if_pos hscreen]
      exact (Option.some.inj h).symm
  · next hscreen =>
      rw [if_neg hscreen]
      exact (Option.some.inj h).symm

theorem remoteAction_elsewhere {button : Button} (h : remoteAction button = some action) :
    action.elsewhere = true := by
  unfold remoteAction at h
  repeat' split at h
  all_goals cases h <;> rfl

/-- **An event keeps them.** -/
theorem event_ok {display : DisplayInfo ℚ} (hok : device.Ok dbReadonly)
    (hturn : Turn device.display event display actions)
    (h : run (Device.act dbReadonly) { device with display } actions = some device') :
    device'.Ok dbReadonly := by
  have hdisplay := hturn.ok hok.display
  obtain ⟨-, hlamp, hsums⟩ := hok
  cases hturn with
  | away =>
      rw [run_leaveScreen h]
      split
      · exact ⟨hdisplay, hlamp, .inr (recounted_recount _)⟩
      · next hscreen =>
          exact ⟨hdisplay, hlamp, .inr (hsums.resolve_left fun h => hscreen h.1)⟩
  | choose hmenu =>
      have hsums := hsums.resolve_left fun h => by rw [hmenu] at h; exact absurd h.2 (by decide)
      refine Keeps.ok (run_elsewhere ?_ h) ⟨hdisplay, hlamp, .inr hsums⟩
      intro action haction
      split at haction
      · obtain rfl := List.mem_singleton.mp haction
        rfl
      · exact absurd haction List.not_mem_nil
  | select hmenu =>
      have hsums := hsums.resolve_left fun h => by rw [hmenu] at h; exact absurd h.2 (by decide)
      cases h
      exact ⟨hdisplay, hlamp, .inr hsums⟩
  | remote hmenu action haction =>
      refine Keeps.ok (run_elsewhere ?_ h) ⟨hdisplay, hlamp, hsums⟩
      intro action' hmem
      obtain rfl := List.mem_singleton.mp hmem
      exact remoteAction_elsewhere haction
  | quit =>
      cases h
      exact ⟨hdisplay, hlamp, hsums⟩
  | stay hmenu hscreen =>
      have hsums := hsums.resolve_left fun h => by rw [hscreen] at h; exact absurd h.1 (by decide)
      cases h
      exact ⟨hdisplay, hlamp, .inr hsums⟩
  | openMenu =>
      rw [run_leaveScreen h]
      split
      · exact ⟨hdisplay, hlamp, .inr (recounted_recount _)⟩
      · next hscreen =>
          exact ⟨hdisplay, hlamp, .inr (hsums.resolve_left fun h => hscreen h.1)⟩
  | call _ _ actions hactions =>
      exact Keeps.ok (run_elsewhere hactions h) ⟨hdisplay, hlamp, hsums⟩
  | bias hmenu hscreen =>
      cases h
      exact ⟨hdisplay, hlamp, .inl ⟨hscreen, hmenu⟩⟩
  | brightness _ hscreen =>
      have hsums := hsums.resolve_left fun h => by rw [hscreen] at h; exact absurd h.1 (by decide)
      cases h
      exact ⟨hdisplay, rfl, .inr hsums⟩

theorem step_ok {happening : Happening} (hok : device.Ok dbReadonly)
    (h : device.step steps dbReadonly happening = some device') : device'.Ok dbReadonly := by
  cases happening with
  | event event =>
      obtain ⟨⟨display, actions⟩, hevent, hrun⟩ := Option.bind_eq_some_iff.mp h
      exact event_ok hok (processIrEvent_turn hevent) hrun
  | elsewhere step =>
      obtain ⟨songs, hsongs, rfl⟩ := Option.map_eq_some_iff.mp h
      exact ⟨hok.display, hok.lamp, hok.sums.imp_right fun hsums => recount_sessionStep hsums hsongs⟩

theorem start_ok (brightness : Int) (bias : ℚ) (songs : SessionState) :
    (Device.start dbReadonly brightness bias songs).Ok dbReadonly where
  display := ⟨fun h => absurd h Bool.false_ne_true, fun h => by simp [Device.start, Device.recounted] at h,
    fun h => by simp [Device.start, Device.recounted] at h⟩
  lamp := rfl
  sums := .inr (recounted_recount _)

/-- **In every state the screens and menus can be used**: no event reads an item of a menu that is not there,
and the lamp is as bright as it can be for the number that is shown. -/
theorem always_usable (brightness : Int) (bias : ℚ) (songs : SessionState)
    (happenings : List Happening) :
    Always (Device.step steps dbReadonly)
      (fun device => device.display.Ok ∧
        (∀ event, ∃ r, processIrEvent steps device.display event = some r) ∧
        device.lamp = setDisplayBrightnessEmpeg device.display.brightness)
      (Device.start dbReadonly brightness bias songs) happenings := by
  apply always_of_step
  · intro device (hok : device.Ok dbReadonly)
    exact ⟨hok.display, processIrEvent_isSome hok.display, hok.lamp⟩
  · intro device happening device' hok h
    exact step_ok hok h
  · exact start_ok brightness bias songs

/-- **The sums are a recount with the bias that is set**, however it is adjusted and whatever is played,
picked and rated meanwhile, in every state but those in which it is being adjusted. -/
theorem always_recount_bias (brightness : Int) (bias : ℚ) (songs : SessionState)
    (happenings : List Happening) :
    Always (Device.step steps dbReadonly)
      (fun device => device.display.curScreen = .setRatingBias ∧ device.display.inMenu = false ∨
        Recount (device.config dbReadonly) device.songs.store.databaseInfo)
      (Device.start dbReadonly brightness bias songs) happenings := by
  apply always_of_step
  · intro device (hok : device.Ok dbReadonly)
    exact hok.sums
  · intro device happening device' hok h
    exact step_ok hok h
  · exact start_ok brightness bias songs

/-! ## To quit -/

section Quit

variable {β : Type} {steps : BiasSteps β} {display display' : DisplayInfo β} {events : List IrEvent}
  {past : List Action}

/-- The item that leads to the screen to quit. -/
theorem quit_item {screen : Screen} {k : Int} {item : MenuItem}
    (h : (menuList screen).item k = some item) (hquit : item.screenOnPress = .quit) :
    screen = .mainMenu ∧ k = 4 ∨ screen = .quit := by
  have htable : ∀ i < (menuList screen).items.length,
      ((menuList screen).items[i]?.map MenuItem.screenOnPress) = some .quit →
        screen = .mainMenu ∧ i = 4 ∨ screen = .quit := by
    cases screen <;> decide
  unfold MenuList.item at h
  split at h
  · next hk =>
      obtain ⟨hlt, -⟩ := List.getElem?_eq_some_iff.mp h
      obtain ⟨hscreen, hindex⟩ | hscreen :=
        htable k.toNat hlt (by rw [h]; exact congrArg some hquit)
      · exact .inl ⟨hscreen, by omega⟩
      · exact .inr hscreen
  · cases h

theorem Turn.quit_mem (h : Turn display event display' actions) (hmem : .quit ∈ actions) :
    display.curScreen = .quit ∧ event.button = irKnobPressed := by
  cases h with
  | away =>
      unfold leaveScreen at hmem
      split at hmem <;> simp at hmem
  | choose => split at hmem <;> simp at hmem
  | select => simp at hmem
  | remote _ action haction =>
      have helsewhere := remoteAction_elsewhere haction
      obtain rfl := List.mem_singleton.mp hmem
      cases helsewhere
  | quit _ hscreen hknob => exact ⟨hscreen, hknob⟩
  | stay => simp at hmem
  | openMenu =>
      unfold leaveScreen at hmem
      split at hmem <;> simp at hmem
  | call _ _ actions hactions => exact absurd (hactions _ hmem) (by decide)
  | bias => simp at hmem
  | brightness => simp at hmem

/-- How one comes to the screen to quit, and stays there. -/
theorem Turn.to_quit (h : Turn display event display' actions) (hok : display.Ok)
    (hquit : display'.curScreen = .quit) :
    display.curScreen = .quit ∧ (.quit ∈ actions ∨ ∃ action, remoteAction event.button = some action) ∨
      display.curScreen = .mainMenu ∧ display.inMenu = true ∧ display.menuSelection = 4 ∧
        (event.button = irRightButtonPressed ∨ event.button = irKnobPressed) := by
  cases h with
  | away =>
      simp only at hquit
      split at hquit <;> cases hquit
  | choose hmenu selection item hitem hbutton =>
      obtain ⟨hscreen, hselection⟩ | hscreen := quit_item hitem hquit
      · obtain hzero | ⟨hsame, hbutton⟩ := hbutton
        · omega
        · exact .inr ⟨hscreen, hmenu, by omega, hbutton⟩
      · exact absurd (hok.quit hscreen) (by rw [hmenu]; decide)
  | select hmenu => exact absurd (hok.quit hquit) (by rw [hmenu]; decide)
  | remote _ action haction => exact .inl ⟨hquit, .inr ⟨action, haction⟩⟩
  | quit _ hscreen => exact .inl ⟨hscreen, .inl List.mem_cons_self⟩
  | stay => cases hquit
  | openMenu _ hscreen => exact absurd hquit hscreen
  | call _ hscreen => exact absurd hquit hscreen
  | bias _ hscreen =>
      rw [show display.curScreen = .quit from hquit] at hscreen
      cases hscreen
  | brightness _ hscreen =>
      rw [show display.curScreen = .quit from hquit] at hscreen
      cases hscreen

/-- To quit is chosen in the main menu, and only buttons that mean the same on all screens come after
it. -/
def Asked (steps : BiasSteps β) (start : DisplayInfo β) (events : List IrEvent) : Prop :=
  ∃ pre chosen mid display past, events = pre ++ chosen :: mid ∧
    run (observe (processIrEvent steps)) (start, []) pre = some (display, past) ∧
    display.curScreen = .mainMenu ∧ display.inMenu = true ∧ display.menuSelection = 4 ∧
    (chosen.button = irRightButtonPressed ∨ chosen.button = irKnobPressed) ∧
    ∀ event ∈ mid, ∃ action, remoteAction event.button = some action

/-- The knob is pressed after that. -/
def Confirmed (steps : BiasSteps β) (start : DisplayInfo β) (events : List IrEvent) : Prop :=
  ∃ pre knob post, events = pre ++ knob :: post ∧ Asked steps start pre ∧
    knob.button = irKnobPressed

variable {start : DisplayInfo β}

theorem Asked.snoc (h : Asked steps start events)
    (hevent : ∃ action, remoteAction event.button = some action) :
    Asked steps start (events ++ [event]) := by
  obtain ⟨pre, chosen, mid, t, before, rfl, hrun, hscreen, hmenu, hselection, hbutton, hmid⟩ := h
  refine ⟨pre, chosen, mid ++ [event], t, before, by simp, hrun, hscreen, hmenu, hselection,
    hbutton, ?_⟩
  intro e he
  obtain he | he := List.mem_append.mp he
  · exact hmid e he
  · rwa [List.mem_singleton.mp he]

theorem Confirmed.snoc (h : Confirmed steps start events) (event : IrEvent) :
    Confirmed steps start (events ++ [event]) := by
  obtain ⟨pre, knob, post, rfl, hasked, hknob⟩ := h
  exact ⟨pre, knob, post ++ [event], by simp, hasked, hknob⟩

theorem observe_quit (hok : start.Ok) (hstart : start.curScreen ≠ .quit)
    (h : run (observe (processIrEvent steps)) (start, []) events = some (display, past)) :
    display.Ok ∧ (display.curScreen = .quit → .quit ∈ past ∨ Asked steps start events) ∧
      (.quit ∈ past → Confirmed steps start events) := by
  induction events using List.reverseRecOn generalizing display past with
  | nil =>
      cases h
      exact ⟨hok, fun hscreen => absurd hscreen hstart, fun hmem => absurd hmem List.not_mem_nil⟩
  | append_singleton events event ih =>
      rw [run_append] at h
      obtain ⟨⟨before, done⟩, hrun, hlast⟩ := Option.bind_eq_some_iff.mp h
      obtain ⟨s, hstep, hs⟩ := Option.bind_eq_some_iff.mp hlast
      obtain ⟨after, actions, hevent, rfl⟩ := observe_eq_some.mp hstep
      cases hs
      obtain ⟨hbefore, hscreen, hquit⟩ := ih hrun
      have hturn := processIrEvent_turn hevent
      refine ⟨hturn.ok hbefore, fun hafter => ?_, fun hmem => ?_⟩
      · obtain ⟨hfrom, hcause⟩ | ⟨hmain, hmenu, hselection, hbutton⟩ := hturn.to_quit hbefore hafter
        · obtain hmem | hremote := hcause
          · exact .inl (List.mem_append_right done hmem)
          · exact (hscreen hfrom).imp (List.mem_append_left actions) fun hasked => hasked.snoc hremote
        · exact .inr ⟨events, event, [], before, done, rfl, hrun, hmain, hmenu, hselection, hbutton,
            fun e he => absurd he List.not_mem_nil⟩
      · by_cases hearlier : .quit ∈ done
        · exact (hquit hearlier).snoc event
        · have hnow := (List.mem_append.mp hmem).resolve_left hearlier
          obtain ⟨hfrom, hknob⟩ := hturn.quit_mem hnow
          have hasked := (hscreen hfrom).resolve_left hearlier
          exact ⟨events, event, [], rfl, hasked, hknob⟩

/-- **Squash quits only when it is confirmed**: whatever buttons are pressed, if it is told to quit, that was
chosen in the main menu, and then the knob was pressed before any button that means something else there. -/
theorem quit_confirmed (hok : start.Ok) (hstart : start.curScreen ≠ .quit)
    (h : run (observe (processIrEvent steps)) (start, []) events = some (display, past))
    (hquit : .quit ∈ past) : Confirmed steps start events :=
  (observe_quit hok hstart h).2.2 hquit

/-- From the song that is played to the main menu, down to the item, and louder before it is confirmed. -/
theorem quit_confirmed_louder :
    Confirmed ⟨(· - 1), (· + 1)⟩ (⟨.play, false, 0, 100, 5⟩ : DisplayInfo Int)
      [⟨irBottomButtonPressed, false⟩, ⟨irLeftButtonPressed, false⟩, ⟨irKnobRight, false⟩,
        ⟨irKnobRight, false⟩, ⟨irKnobRight, false⟩, ⟨irKnobRight, false⟩, ⟨irKnobPressed, false⟩,
        ⟨irVolPlus, false⟩, ⟨irKnobPressed, false⟩] := by
  refine quit_confirmed ⟨fun h => ?_, fun h => ?_, fun _ => rfl⟩ (by decide)
    (show run (observe (processIrEvent _)) (_, []) _ =
      some (⟨.quit, false, 0, 100, 5⟩, [.adjustVolume 2, .quit]) from rfl) (by decide)
  · exact absurd h (by decide)
  · exact absurd h (by decide)

end Quit

end Squash.Empeg
