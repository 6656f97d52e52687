import Squash.Global
import Squash.Input.Remote

/-!
# Screens and menus of the EMPEG

`process_ir_event` turns the buttons into changes of the screen and calls into the rest of the program
(`Action`). Each screen has a menu, in `menu_list`; the number of the selected item indexes it unchecked,
so that an item that is not there would be read past the end (`none`).

The bias is a `double`, with two functions of it that stay abstract: one for each direction in which it is
adjusted. -/

namespace Squash.Empeg

/-! ## `menu_list` -/

/-- `enum empeg_screen_e`. -/
inductive Screen where
  | mainMenu
  | play | playSongInfo | playRateSong
  | playlist | playlistSongInfo | playlistRateSong
  | globalSongInfo
  | quit
  | settings | setDisplayBrightness | setRatingBias
  deriving DecidableEq, Repr

structure MenuItem where
  title : List Char
  indentation : Int
  screenOnPress : Screen
  leaveMenu : Bool

structure MenuList where
  items : List MenuItem
  itemCount : Int
  defaultItem : Int

def menuList : Screen → MenuList
  | .mainMenu =>
    ⟨[⟨"Main Menu".toList, 0, .mainMenu, false⟩, ⟨"Currently Playing".toList, 1, .play, true⟩,
      ⟨"Upcoming Songs".toList, 1, .playlist, true⟩, ⟨"Statistics".toList, 1, .globalSongInfo, true⟩,
      ⟨"Quit Squash".toList, 1, .quit, true⟩, ⟨"Change Settings".toList, 1, .settings, false⟩], 6, 0⟩
  | .play =>
    ⟨[⟨"Go Back".toList, 0, .mainMenu, false⟩, ⟨"Currently Playing".toList, 0, .play, true⟩,
      ⟨"Rate This Song".toList, 1, .playRateSong, true⟩,
      ⟨"Song Info".toList, 1, .playSongInfo, true⟩], 4, 1⟩
  | .playSongInfo =>
    ⟨[⟨"Go Back".toList, 0, .play, false⟩, ⟨"Song Details".toList, 0, .playSongInfo, true⟩], 2, 0⟩
  | .playRateSong =>
    ⟨[⟨"Go Back".toList, 0, .play, false⟩, ⟨"Rate This Song".toList, 0, .playRateSong, true⟩], 2, 0⟩
  | .playlist =>
    ⟨[⟨"Go Back".toList, 0, .mainMenu, false⟩, ⟨"Upcoming Songs".toList, 0, .playlist, true⟩,
      ⟨"Rate This Song".toList, 1, .playlistRateSong, true⟩,
      ⟨"Song Info".toList, 1, .playlistSongInfo, true⟩,
      ⟨"Remove from list".toList, 1, .playlist, true⟩], 5, 1⟩
  | .playlistSongInfo =>
    ⟨[⟨"Go Back".toList, 0, .playlist, false⟩,
      ⟨"Song Info".toList, 0, .playlistSongInfo, true⟩], 2, 0⟩
  | .playlistRateSong =>
    ⟨[⟨"Go Back".toList, 0, .playlist, false⟩,
      ⟨"Rate This Song".toList, 0, .playlistRateSong, true⟩], 2, 0⟩
  | .globalSongInfo =>
    ⟨[⟨"Go Back".toList, 0, .mainMenu, false⟩, ⟨"Statistics".toList, 0, .globalSongInfo, true⟩], 2, 0⟩
  | .quit =>
    ⟨[⟨"Go Back".toList, 0, .mainMenu, false⟩, ⟨"Quit Squash".toList, 0, .quit, true⟩], 2, 0⟩
  | .settings =>
    ⟨[⟨"Go Back".toList, 0, .mainMenu, false⟩, ⟨"Change Settings".toList, 0, .settings, false⟩,
      ⟨"Set Rating Bias".toList, 1, .setRatingBias, true⟩,
      ⟨"Display Brightness".toList, 1, .setDisplayBrightness, true⟩], 4, 1⟩
  | .setDisplayBrightness =>
    ⟨[⟨"Go Back".toList, 0, .mainMenu, false⟩,
      ⟨"Display Brightness".toList, 0, .setDisplayBrightness, true⟩], 2, 0⟩
  | .setRatingBias =>
    ⟨[⟨"Go Back".toList, 0, .mainMenu, false⟩,
      ⟨"Set Rating Bias".toList, 0, .setRatingBias, true⟩], 2, 0⟩

/-- `menu.items[k]`. -/
def MenuList.item (menu : MenuList) (k : Int) : Option MenuItem :=
  if 0 ≤ k then menu.items[k.toNat]? else none

/-! ## `process_ir_event` -/

/-- What is called in the rest of the program. -/
inductive Action where
  | adjustVolume (amount : Int)
  | togglePlayer
  | setPlayer (command : PlayerCommand)
  | ratePlaying (relative : Bool) (amount : Int)
  | selectPrevious
  | selectNext
  | removePlaylistEntry
  | startSongPicker
  | setDisplayBrightness (brightness : Int)
  | quit
  deriving DecidableEq, Repr

/-- `display_info`, with `config.db_manual_rating_bias`. -/
structure DisplayInfo (β : Type) where
  curScreen : Screen
  inMenu : Bool
  menuSelection : Int
  brightness : Int
  bias : β
  deriving DecidableEq, Repr

/-- The two adjustments of the bias. -/
structure BiasSteps (β : Type) where
  less : β → β
  more : β → β

variable {β : Type}

/-- To a screen, with the default item of its menu. -/
def DisplayInfo.goTo (display : DisplayInfo β) (inMenu : Bool) (screen : Screen) : DisplayInfo β :=
  { display with inMenu, curScreen := screen, menuSelection := (menuList screen).defaultItem }

/-- The item is chosen. -/
def DisplayInfo.choose (display : DisplayInfo β) (selection : Int) : Option (DisplayInfo β) :=
  ((menuList display.curScreen).item selection).map fun item =>
    display.goTo (!item.leaveMenu) item.screenOnPress

/-- A button in a menu. -/
def menuEvent (display : DisplayInfo β) (button : Button) : Option (DisplayInfo β × List Action) :=
  if button = irLeftButtonPressed then
    -- this assumes that the first item is to go back
    (display.choose 0).map fun display => (display, [])
  else if button = irRightButtonPressed ∨ button = irKnobPressed then
    (display.choose display.menuSelection).map fun display' =>
      (display', if display.curScreen = .playlist ∧ display.menuSelection = 4 then
        [.removePlaylistEntry] else [])
  else if button = irTopButtonPressed ∨ button = irKnobLeft then
    some (if display.menuSelection > 0 then
      { display with menuSelection := display.menuSelection - 1 } else display, [])
  else if button = irBottomButtonPressed ∨ button = irKnobRight then
    some (if display.menuSelection + 1 < (menuList display.curScreen).itemCount then
      { display with menuSelection := display.menuSelection + 1 } else display, [])
  else some (display, [])

/-- The buttons of the remote that mean the same on all screens. -/
def remoteAction (button : Button) : Option Action :=
  if button = irVolMinus then some (.adjustVolume (-2))
  else if button = irVolPlus then some (.adjustVolume 2)
  else if button = irProg then some .togglePlayer
  else if button = irTrackMinus then some (.setPlayer .stop)
  else if button = irTrackPlus then some (.setPlayer .skip)
  else none

/-- `do_song_rating_adjust`: with this display it only knows the playing song, and only on two screens. -/
def songRatingAdjust (display : DisplayInfo β) (relative : Bool) (amount : Int) : List Action :=
  if display.curScreen = .playRateSong ∨ display.curScreen = .play then
    [.ratePlaying relative amount] else []

def playEvent (display : DisplayInfo β) (button : Button) : List Action :=
  if button = irTopButtonPressed then [.togglePlayer]
  else if button = irLeftButtonPressed then [.setPlayer .stop]
  else if button = irRightButtonPressed then [.setPlayer .skip]
  else if button = irKnobLeft then [.adjustVolume (-2)]
  else if button = irKnobRight then [.adjustVolume 2]
  else if ir0 ≤ button ∧ button ≤ ir9 then
    songRatingAdjust display false ((button - ir0).toNat : Int)
  else if button = irDirect then songRatingAdjust display false 10
  else if button = irStar then songRatingAdjust display false (-1)
  else []

def playlistEvent (button : Button) : List Action :=
  if button = irKnobLeft ∨ button = irLeftButtonPressed then [.selectPrevious]
  else if button = irKnobRight ∨ button = irRightButtonPressed then [.selectNext]
  else if button = irTopButtonPressed then [.removePlaylistEntry]
  else []

/-- A button on a screen. -/
def screenEvent (steps : BiasSteps β) (display : DisplayInfo β) (button : Button) :
    DisplayInfo β × List Action :=
  let left := button = irKnobLeft ∨ button = irLeftButtonPressed
  let right := button = irKnobRight ∨ button = irRightButtonPressed
  match display.curScreen with
  | .play => (display, playEvent display button)
  | .playlist => (display, playlistEvent button)
  | .playRateSong | .playlistRateSong =>
    (display, if left then songRatingAdjust display true (-1)
      else if right then songRatingAdjust display true 1 else [])
  | .setRatingBias =>
    (if left then { display with bias := steps.less display.bias }
      else if right then { display with bias := steps.more display.bias } else display, [])
  | .setDisplayBrightness =>
    if left then
      let brightness := if display.brightness ≥ 5 then display.brightness - 5 else display.brightness
      ({ display with brightness }, [.setDisplayBrightness brightness])
    else if right then
      let brightness := if display.brightness ≤ 95 then display.brightness + 5 else display.brightness
      ({ display with brightness }, [.setDisplayBrightness brightness])
    else (display, [])
  | _ => (display, [])

/-- The ratings are computed again when the screen of the bias is left. -/
def leaveScreen (display : DisplayInfo β) : List Action :=
  if display.curScreen = .setRatingBias then [.startSongPicker] else []

def processIrEvent (steps : BiasSteps β) (display : DisplayInfo β) (event : IrEvent) :
    Option (DisplayInfo β × List Action) :=
  if event.button = irTopButtonPressed ∧ event.held = true then
    some ({ display with
      curScreen := if display.curScreen = .play then .playlist else .play, inMenu := false },
      leaveScreen display)
  else if display.inMenu then menuEvent display event.button
  else
    match remoteAction event.button with
    | some action => some (display, [action])
    | none =>
      if display.curScreen = .quit then
        if event.button = irKnobPressed then some (display, [.quit])
        else some (display.goTo true .mainMenu, [])
      else if event.button = irBottomButtonPressed ∨ event.button = irKnobPressed then
        some (display.goTo true display.curScreen, leaveScreen display)
      else some (screenEvent steps display event.button)

/-! ## What an event can do -/

/-- What only concerns other parts of the program. -/
def Action.elsewhere : Action → Bool
  | .startSongPicker | .setDisplayBrightness _ | .quit => false
  | _ => true

variable {steps : BiasSteps β} {display display' : DisplayInfo β} {event : IrEvent}
  {actions : List Action}

/-- All that an event can do. -/
inductive Turn (display : DisplayInfo β) (event : IrEvent) : DisplayInfo β → List Action → Prop where
  | away (htop : event.button = irTopButtonPressed ∧ event.held = true) :
    Turn display event { display with
      curScreen := if display.curScreen = .play then .playlist else .play, inMenu := false }
      (leaveScreen display)
  | choose (hmenu : display.inMenu = true) (selection : Int) (item : MenuItem)
    (hitem : (menuList display.curScreen).item selection = some item)
    (hbutton : selection = 0 ∨ selection = display.menuSelection ∧
      (event.button = irRightButtonPressed ∨ event.button = irKnobPressed)) :
    Turn display event (display.goTo (!item.leaveMenu) item.screenOnPress)
      (if display.curScreen = .playlist ∧ selection = 4 then [.removePlaylistEntry] else [])
  | select (hmenu : display.inMenu = true) (selection : Int)
    (hselection : selection = display.menuSelection ∨
      0 ≤ selection ∧ selection < display.menuSelection ∨
      display.menuSelection < selection ∧ selection < (menuList display.curScreen).itemCount) :
    Turn display event { display with menuSelection := selection } []
  | remote (hmenu : display.inMenu = false) (action : Action)
    (haction : remoteAction event.button = some action) : Turn display event display [action]
  | quit (hmenu : display.inMenu = false) (hscreen : display.curScreen = .quit)
    (hknob : event.button = irKnobPressed) : Turn display event display [.quit]
  | stay (hmenu : display.inMenu = false) (hscreen : display.curScreen = .quit) :
    Turn display event (display.goTo true .mainMenu) []
  | openMenu (hmenu : display.inMenu = false) (hscreen : display.curScreen ≠ .quit) :
    Turn display event (display.goTo true display.curScreen) (leaveScreen display)
  | call (hmenu : display.inMenu = false) (hscreen : display.curScreen ≠ .quit)
    (actions : List Action) (hactions : ∀ action ∈ actions, action.elsewhere = true)
    (hrate : ∀ relative amount, .ratePlaying relative amount ∈ actions →
      display.curScreen = .play ∨ display.curScreen = .playRateSong) :
    Turn display event display actions
  | bias (hmenu : display.inMenu = false) (hscreen : display.curScreen = .setRatingBias) (bias : β) :
    Turn display event { display with bias } []
  | brightness (hmenu : display.inMenu = false) (hscreen : display.curScreen = .setDisplayBrightness)
    (brightness : Int) (hchange : brightness = display.brightness ∨
      5 ≤ display.brightness ∧ brightness = display.brightness - 5 ∨
      display.brightness ≤ 95 ∧ brightness = display.brightness + 5) :
    Turn display event { display with brightness } [.setDisplayBrightness brightness]

theorem songRatingAdjust_mem {relative : Bool} {amount : Int} {action : Action}
    (h : action ∈ songRatingAdjust display relative amount) :
    action = .ratePlaying relative amount ∧
      (display.curScreen = .play ∨ display.curScreen = .playRateSong) := by
  unfold songRatingAdjust at h
  split at h
  · next hscreen => exact ⟨List.mem_singleton.mp h, hscreen.symm⟩
  · exact absurd h List.not_mem_nil

theorem playEvent_elsewhere {button : Button} {action : Action}
    (h : action ∈ playEvent display button) : action.elsewhere = true := by
  unfold playEvent at h
  repeat' split at h
  all_goals
    first
    | exact absurd h List.not_mem_nil
    | (obtain ⟨rfl, -⟩ := songRatingAdjust_mem h; rfl)
    | (obtain rfl := List.mem_singleton.mp h; rfl)

theorem playlistEvent_mem {button : Button} {action : Action} (h : action ∈ playlistEvent button) :
    action = .selectPrevious ∨ action = .selectNext ∨ action = .removePlaylistEntry := by
  unfold playlistEvent at h
  split at h
  · exact .inl (List.mem_singleton.mp h)
  split at h
  · exact .inr (.inl (List.mem_singleton.mp h))
  split at h
  · exact .inr (.inr (List.mem_singleton.mp h))
  · exact absurd h List.not_mem_nil

theorem screenEvent_turn (hmenu : display.inMenu = false) (hquit : display.curScreen ≠ .quit) :
    Turn display event (screenEvent steps display event.button).1
      (screenEvent steps display event.button).2 := by
  have hrated : ∀ amount, Turn display event display (songRatingAdjust display true amount) := by
    refine fun amount => .call hmenu hquit _ (fun action haction => ?_) fun _ _ hrate => ?_
    · rw [(songRatingAdjust_mem haction).1]
      rfl
    · exact (songRatingAdjust_mem hrate).2
  have hnothing : Turn display event display [] :=
    .call hmenu hquit [] (fun _ h => absurd h List.not_mem_nil) fun _ _ h => absurd h List.not_mem_nil
  unfold screenEvent
  simp only
  split
  · next hscreen =>
      exact .call hmenu hquit _ (fun _ h => playEvent_elsewhere h) fun _ _ _ => .inl hscreen
  · refine .call hmenu hquit _ (fun action haction => ?_) fun _ _ hrate => ?_
    · obtain rfl | rfl | rfl := playlistEvent_mem haction <;> rfl
    · obtain h | h | h := playlistEvent_mem hrate <;> cases h
  · split
    · exact hrated (-1)
    · split
      · exact hrated 1
      · exact hnothing
  · split
    · exact hrated (-1)
    · split
      · exact hrated 1
      · exact hnothing
  · next hscreen =>
      split
      · exact .bias hmenu hscreen _
      · split
        · exact .bias hmenu hscreen _
        · exact hnothing
  · next hscreen =>
      split
      · refine .brightness hmenu hscreen _ ?_
        split <;> omega
      · split
        · refine .brightness hmenu hscreen _ ?_
          split <;> omega
        · exact hnothing
  · exact hnothing

theorem menuEvent_turn (hmenu : display.inMenu = true)
    (h : menuEvent display event.button = some (display', actions)) :
    Turn display event display' actions := by
  unfold menuEvent at h
  split at h
  · obtain ⟨chosen, hchoose, heq⟩ := Option.map_eq_some_iff.mp h
    obtain ⟨item, hitem, rfl⟩ := Option.map_eq_some_iff.mp hchoose
    cases heq
    have hfirst : Turn display event _ _ := .choose hmenu 0 item hitem (.inl rfl)
    rwa [if_neg fun h => absurd h.2 (by decide)] at hfirst
  split at h
  · next hbutton =>
      obtain ⟨chosen, hchoose, heq⟩ := Option.map_eq_some_iff.mp h
      obtain ⟨item, hitem, rfl⟩ := Option.map_eq_some_iff.mp hchoose
      cases heq
      exact .choose hmenu _ item hitem (.inr ⟨rfl, hbutton⟩)
  split at h
  · cases h
    split
    · next hpos => exact .select hmenu _ (.inr (.inl ⟨by omega, by omega⟩))
    · exact .select hmenu _ (.inl rfl)
  split at h
  · cases h
    split
    · next hlast => exact .select hmenu _ (.inr (.inr ⟨by omega, hlast⟩))
    · exact .select hmenu _ (.inl rfl)
  · cases h
    exact .select hmenu _ (.inl rfl)

theorem processIrEvent_turn (h : processIrEvent steps display event = some (display', actions)) :
    Turn display event display' actions := by
  unfold processIrEvent at h
  split at h
  · next htop =>
      cases h
      exact .away htop
  split at h
  · next hmenu => exact menuEvent_turn hmenu h
  · next hmenu =>
      have hmenu : display.inMenu = false := Bool.eq_false_iff.mpr hmenu
      split at h
      · next action haction =>
          cases h
          exact .remote hmenu action haction
      split at h
      · next hscreen =>
          split at h
          · next hknob =>
              cases h
              exact .quit hmenu hscreen hknob
          · cases h
            exact .stay hmenu hscreen
      · next hscreen =>
          split at h
          · cases h
            exact .openMenu hmenu hscreen
          · have hsame := Option.some.inj h
            have hturn : Turn display event (screenEvent steps display event.button).1
                (screenEvent steps display event.button).2 := screenEvent_turn hmenu hscreen
            rwa [hsame] at hturn

/-! ## The table -/

theorem items_length (screen : Screen) :
    ((menuList screen).items.length : Int) = (menuList screen).itemCount := by
  cases screen <;> rfl

theorem defaultItem_ok (screen : Screen) :
    0 ≤ (menuList screen).defaultItem ∧
      (menuList screen).defaultItem < (menuList screen).itemCount := by
  cases screen <;> decide

/-- The menus without a screen are not left by their items, and to quit is not a menu. -/
theorem item_ok (screen : Screen) : ∀ item ∈ (menuList screen).items,
    (item.leaveMenu = true → item.screenOnPress ≠ .mainMenu ∧ item.screenOnPress ≠ .settings) ∧
      (item.leaveMenu = false → item.screenOnPress ≠ .quit) := by
  cases screen <;> decide

theorem item_mem {menu : MenuList} {k : Int} {item : MenuItem} (h : menu.item k = some item) :
    item ∈ menu.items := by
  unfold MenuList.item at h
  split at h
  · exact List.mem_of_getElem? h
  · cases h

theorem item_isSome {screen : Screen} {k : Int} (h : 0 ≤ k ∧ k < (menuList screen).itemCount) :
    ∃ item, (menuList screen).item k = some item := by
  have hlength := items_length screen
  have hk : k.toNat < (menuList screen).items.length := by omega
  rw [MenuList.item, if_pos h.1]
  exact ⟨_, List.getElem?_eq_getElem hk⟩

/-! ## The invariant -/

structure DisplayInfo.Ok (display : DisplayInfo β) : Prop where
  selection : display.inMenu = true → 0 ≤ display.menuSelection ∧
    display.menuSelection < (menuList display.curScreen).itemCount
  /-- these two have nothing to show outside of a menu -/
  menu : display.curScreen = .mainMenu ∨ display.curScreen = .settings → display.inMenu = true
  quit : display.curScreen = .quit → display.inMenu = false

theorem goTo_ok {inMenu : Bool} {screen : Screen}
    (hmenu : screen = .mainMenu ∨ screen = .settings → inMenu = true)
    (hquit : screen = .quit → inMenu = false) : (display.goTo inMenu screen).Ok :=
  ⟨fun _ => defaultItem_ok screen, hmenu, hquit⟩

theorem Turn.ok (hturn : Turn display event display' actions) (h : display.Ok) : display'.Ok := by
  cases hturn with
  | away =>
      refine ⟨fun hmenu => absurd hmenu Bool.false_ne_true, fun hscreen => ?_, fun _ => rfl⟩
      simp only at hscreen
      split at hscreen <;> simp at hscreen
  | choose hmenu selection item hitem =>
      obtain ⟨hleave, hstay⟩ := item_ok display.curScreen item (item_mem hitem)
      refine goTo_ok (fun hscreen => ?_) (fun hscreen => ?_)
      · cases hitem' : item.leaveMenu with
        | false => rfl
        | true => exact absurd hscreen (not_or.mpr (hleave hitem'))
      · cases hitem' : item.leaveMenu with
        | true => rfl
        | false => exact absurd hscreen (hstay hitem')
  | select hmenu selection hselection =>
      have hrange := h.selection hmenu
      exact ⟨fun _ => by simp only; omega, h.menu, h.quit⟩
  | remote => exact h
  | quit => exact h
  | stay => exact goTo_ok (fun _ => rfl) (fun hscreen => by cases hscreen)
  | openMenu hmenu hscreen => exact goTo_ok (fun _ => rfl) (fun hquit => absurd hquit hscreen)
  | call => exact h
  | bias => exact ⟨h.selection, h.menu, h.quit⟩
  | brightness => exact ⟨h.selection, h.menu, h.quit⟩

/-- In a state that is right no event reads an item that is not there. -/
theorem processIrEvent_isSome (h : display.Ok) (event : IrEvent) :
    ∃ r, processIrEvent steps display event = some r := by
  unfold processIrEvent
  split
  · exact ⟨_, rfl⟩
  split
  · next hmenu =>
      have hrange := h.selection hmenu
      unfold menuEvent
      split
      · have hfirst : 0 ≤ (0 : Int) ∧ 0 < (menuList display.curScreen).itemCount := by omega
        obtain ⟨item, hitem⟩ := item_isSome hfirst
        rw [DisplayInfo.choose, hitem]
        exact ⟨_, rfl⟩
      split
      · obtain ⟨item, hitem⟩ := item_isSome hrange
        rw [DisplayInfo.choose, hitem]
        exact ⟨_, rfl⟩
      split
      · exact ⟨_, rfl⟩
      split
      · exact ⟨_, rfl⟩
      · exact ⟨_, rfl⟩
  · split
    · exact ⟨_, rfl⟩
    split
    · split <;> exact ⟨_, rfl⟩
    · split <;> exact ⟨_, rfl⟩

end Squash.Empeg
