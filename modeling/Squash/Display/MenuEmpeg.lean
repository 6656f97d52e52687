import Squash.Display.StringEmpeg
import Squash.Input.Session
import Squash.Vfd.Calls

/-!
# Menus on the EMPEG

A menu shows five of its items at most, in rows of six pixels; which of them depends on the one that is
selected, which is marked. `draw_empeg_display` is taken from the item that is selected to the pixels of the
display here. -/

namespace Squash.Empeg

open Vfd Transition

variable {β : Type}

/-! ## Drawing -/

/-- The first item that is shown, and the one after the last. -/
def menuWindow (itemCount selection : Int) : Int × Int :=
  let first := 0
  let last := itemCount
  let first :=
    if last - first > 5 then
      if selection - first > 2 then
        let first := selection - 2
        if last - first < 6 then last - 5 else first
      else first
    else first
  (first, if last - first > 5 then first + 5 else last)

/-- A string that has been cut is drawn. -/
def drawPrinted (printed : Display.Printed) : Call :=
  .drawText printed.text printed.left printed.top 2 3

/-- `draw_string_empeg`, with so many turns of its loop at most. -/
def drawStringEmpeg (fuel : Nat) (string : List Char) (top left width : Int) : Option Call :=
  match Display.drawStringEmpeg fuel string top left width with
  | .ok (some printed) => some (drawPrinted printed)
  | _ => none

/-- The loop over the items, of which `n` are left. -/
def drawItems (fuel : Nat) (menu : MenuList) (first : Int) : Nat → Int → Option (List Call)
  | 0, _ => some []
  | n + 1, i => do
    let item ← menu.item i
    let title ← drawStringEmpeg fuel item.title (1 + (i - first) * 6) (10 + 10 * item.indentation)
      vfdWidth
    let items ← drawItems fuel menu first n (i + 1)
    return title :: items

/-- The line at an end of the menu, if that is shown. -/
def borderLine (shown : Prop) [Decidable shown] (yPos : Int) : List Call :=
  if shown then [.drawLineHoriz yPos 0 vfdWidth 2] else []

/-- `draw_empeg_display`, in a menu. -/
def drawMenu (fuel : Nat) (display : DisplayInfo β) : Option (List Call) := do
  let menu := menuList display.curScreen
  let selection := display.menuSelection
  let (first, last) := menuWindow menu.itemCount selection
  let marker ← drawStringEmpeg fuel ['>'] (1 + 6 * (selection - first)) 0 vfdWidth
  let items ← drawItems fuel menu first (last - first).toNat first
  return [.clear 0] ++ borderLine (first = 0) 0 ++
    borderLine (last = menu.itemCount) (1 + (last - first) * 6) ++ marker :: items

/-! ## What is shown -/

/-- The items that are shown, one after the other, are not more than five, and the selected one is among
them. -/
structure Window (itemCount selection first last : Int) : Prop where
  first_nonneg : 0 ≤ first
  last_le : last ≤ itemCount
  selected : first ≤ selection ∧ selection < last
  size : last - first = min 5 itemCount
  /-- the selected item is in the middle, if it can be -/
  middle : first = 0 ∨ last = itemCount ∨ selection = first + 2

theorem menuWindow_spec {itemCount selection : Int} (h : 0 ≤ selection ∧ selection < itemCount) :
    Window itemCount selection (menuWindow itemCount selection).1
      (menuWindow itemCount selection).2 := by
  unfold menuWindow
  simp only [Int.sub_zero]
  split
  · split
    · split
      · constructor <;> grind
      · constructor <;> grind
    · constructor <;> grind
  · constructor <;> grind

/-- A string that is narrow enough is drawn as it is. -/
theorem drawStringEmpeg_fits {string : List Char} {width : Int} (hnul : '\x00' ∉ string)
    (hwidth : Display.vfdlibGetTextWidth string - 1 ≤ width) (fuel : Nat) (top left : Int) :
    drawStringEmpeg (fuel + 1) string top left width = some (drawPrinted ⟨top, left, string⟩) := by
  have hturn : Display.Cutting.turn width (Display.start string) =
      .ok (.stop (string ++ ['\x00'])) := if_neg (Int.not_lt.mpr hwidth)
  have hrun : WhileLoop.run (Display.Cutting.turn width) (fuel + 1) (Display.start string) =
      .ok (some (string ++ ['\x00'])) := by
    rw [WhileLoop.run, hturn]
  have hdraw : Display.drawStringEmpeg (fuel + 1) string top left width =
      .ok (some ⟨top, left, string⟩) :=
    (Display.drawStringEmpeg_eq_ok hnul).mpr ⟨_, hrun, Display.readString_append hnul⟩
  rw [drawStringEmpeg, hdraw]

/-- The titles of all menus are narrow enough. -/
theorem title_fits (screen : Screen) : ∀ item ∈ (menuList screen).items, '\x00' ∉ item.title ∧
    0 ≤ item.indentation ∧
      10 + 10 * item.indentation + Display.vfdlibGetTextWidth item.title - 1 ≤ vfdWidth := by
  cases screen <;> decide +kernel

/-- The points of a string that is drawn. -/
def printedShape (printed : Display.Printed) : Set Point :=
  textShape 2 printed.text printed.left printed.top

/-- An item of a menu, in the row where it is drawn. -/
def titleShape (item : MenuItem) (row : Int) : Set Point :=
  printedShape ⟨1 + row * 6, 10 + 10 * item.indentation, item.title⟩

theorem drawItems_spec {screen : Screen} (fuel : Nat) (first : Int) {n : Nat} {i : Int} (hi : 0 ≤ i)
    (hn : i + n ≤ (menuList screen).itemCount) :
    ∃ items : List Display.Printed,
      drawItems (fuel + 1) (menuList screen) first n i = some (items.map drawPrinted) ∧
      ∀ q, (∃ printed ∈ items, q ∈ printedShape printed) ↔
        ∃ k item, (i ≤ k ∧ k < i + n) ∧ (menuList screen).item k = some item ∧
          q ∈ titleShape item (k - first) := by
  induction n generalizing i with
  | zero =>
      refine ⟨[], rfl, fun q => ⟨fun ⟨_, hmem, _⟩ => absurd hmem List.not_mem_nil, ?_⟩⟩
      rintro ⟨k, item, hk, -⟩
      omega
  | succ n ih =>
      obtain ⟨items, hitems, hshape⟩ := ih (i := i + 1) (by omega) (by omega)
      have hlt : 0 ≤ i ∧ i < (menuList screen).itemCount := by omega
      obtain ⟨item, hitem⟩ := item_isSome hlt
      obtain ⟨hnul, hindent, hwidth⟩ := title_fits screen item (item_mem hitem)
      refine ⟨⟨1 + (i - first) * 6, 10 + 10 * item.indentation, item.title⟩ :: items, ?_, ?_⟩
      · rw [drawItems, hitem, hitems, Option.bind_eq_bind, Option.bind_some,
          drawStringEmpeg_fits hnul (by omega)]
        rfl
      · intro q
        simp only [List.mem_cons, exists_eq_or_imp, hshape]
        constructor
        · rintro (hq | ⟨k, item', hk, hitem', hq⟩)
          · exact ⟨i, item, by omega, hitem, hq⟩
          · exact ⟨k, item', by omega, hitem', hq⟩
        · rintro ⟨k, item', hk, hitem', hq⟩
          by_cases hki : k = i
          · subst hki
            obtain rfl := Option.some.inj (hitem.symm.trans hitem')
            exact .inl hq
          · exact .inr ⟨k, item', by omega, hitem', hq⟩

/-! ## The picture -/

/-- The mark of the selected item, in its row. -/
def markerShape (row : Int) : Set Point := printedShape ⟨1 + 6 * row, 0, ['>']⟩

/-- The points of the titles that are shown, and of the mark. -/
def menuText (display : DisplayInfo β) (first last : Int) : Set Point :=
  {q | q ∈ markerShape (display.menuSelection - first) ∨
    ∃ k item, (first ≤ k ∧ k < last) ∧ (menuList display.curScreen).item k = some item ∧
      q ∈ titleShape item (k - first)}

open Classical in
/-- Bright text on black, with a line at each end of the menu that is shown. -/
noncomputable def menuPicture (display : DisplayInfo β) (first last : Int) (q : Point) : Shade :=
  if q ∈ menuText display first last then 3
  else if first = 0 ∧ q.2 = 0 ∨
    last = (menuList display.curScreen).itemCount ∧ q.2 = 1 + (last - first) * 6 then 2
  else 0

structure ShowsMenu (display : DisplayInfo β) (buffer : Buffer) (first last : Int) : Prop where
  window : Window (menuList display.curScreen).itemCount display.menuSelection first last
  picture : ∀ q ∈ screen.valid, pixel buffer q = menuPicture display first last q
  /-- no title is cut, and each is in a row of its own -/
  titles : ∀ k item, (menuList display.curScreen).item k = some item → titleShape item (k - first) ⊆
    rect 10 (1 + 6 * (k - first)) vfdWidth (7 + 6 * (k - first))
  /-- the mark is beside the titles -/
  marker : ∀ row, markerShape row ⊆ rect 0 (1 + 6 * row) 10 (7 + 6 * row)

theorem printedShape_box {printed : Display.Printed} {q : Point} (hq : q ∈ printedShape printed) :
    q ∈ rect printed.left printed.top
      (printed.left + Display.vfdlibGetTextWidth printed.text - 1) (printed.top + 6) := by
  have hbox := textShape_box hq
  rwa [vfdlibGetTextWidth_medium] at hbox

theorem titles_box {screen : Screen} {k : Int} {item : MenuItem} (row : Int)
    (hitem : (menuList screen).item k = some item) :
    titleShape item row ⊆ rect 10 (1 + 6 * row) vfdWidth (7 + 6 * row) := by
  intro q hq
  obtain ⟨-, hindent, hwidth⟩ := title_fits screen item (item_mem hitem)
  have hbox := mem_rect.mp (printedShape_box hq)
  simp only at hbox
  exact mem_rect.mpr ⟨by omega, by omega⟩

theorem marker_box (row : Int) : markerShape row ⊆ rect 0 (1 + 6 * row) 10 (7 + 6 * row) := by
  intro q hq
  have hwidth : Display.vfdlibGetTextWidth ['>'] = 4 := by decide +kernel
  have hbox := mem_rect.mp (printedShape_box hq)
  simp only [hwidth] at hbox
  exact mem_rect.mpr ⟨by omega, by omega⟩

open Classical in
theorem foldl_printed {view : View} {printeds : List Display.Printed} {q : Point}
    (hq : q ∈ view.1) : ((printeds.map drawPrinted).foldl paint view).2 q =
      if ∃ printed ∈ printeds, q ∈ printedShape printed then 3 else view.2 q := by
  induction printeds generalizing view with
  | nil => simp
  | cons printed printeds ih =>
      have hview : q ∈ (paint view (drawPrinted printed)).1 := hq
      rw [List.map_cons, List.foldl_cons, ih hview, paint_fill rfl hq]
      simp only [List.mem_cons, exists_eq_or_imp]
      by_cases hlater : ∃ printed ∈ printeds, q ∈ printedShape printed
      · rw [if_pos hlater, if_pos (.inr hlater)]
      · rw [if_neg hlater]
        exact if_congr (or_iff_left hlater).symm rfl rfl

theorem paint_borderLine (shown : Prop) [Decidable shown] (yPos : Int) {view : View} {q : Point}
    (hview : view.1 = screen.valid) (hq : q ∈ screen.valid) :
    ((borderLine shown yPos).foldl paint view).1 = screen.valid ∧
      ((borderLine shown yPos).foldl paint view).2 q =
        if shown ∧ q.2 = yPos then 2 else view.2 q := by
  unfold borderLine
  by_cases hshown : shown
  · have hline : q ∈ rect 0 yPos vfdWidth (yPos + 1) ↔ shown ∧ q.2 = yPos := by
      have hq := mem_screen.mp hq
      rw [mem_rect, vfdWidth, and_iff_right hshown]
      omega
    rw [if_pos hshown]
    refine ⟨hview, (paint_fill rfl (hview ▸ hq)).trans ?_⟩
    split
    · next hmem => rw [if_pos (hline.mp hmem)]
    · next hmem => rw [if_neg fun h => hmem (hline.mpr h)]
  · rw [if_neg hshown]
    exact ⟨hview, (if_neg fun h => hshown h.1).symm⟩

open Classical in
theorem paint_layout {upper lower : Prop} [Decidable upper] [Decidable lower] {yUpper yLower : Int}
    {printeds : List Display.Printed} {buffer : Buffer} {q : Point} (hq : q ∈ screen.valid) :
    (([Call.clear 0] ++ borderLine upper yUpper ++ borderLine lower yLower ++
      printeds.map drawPrinted).foldl paint (screen.valid, pixel buffer)).2 q =
        if ∃ printed ∈ printeds, q ∈ printedShape printed then 3
        else if upper ∧ q.2 = yUpper ∨ lower ∧ q.2 = yLower then 2 else 0 := by
  have hclear : (paint (screen.valid, pixel buffer) (.clear 0)).2 q = 0 :=
    (paint_fill rfl hq).trans (if_pos (Set.mem_univ q))
  have hview : (paint (screen.valid, pixel buffer) (.clear 0)).1 = screen.valid := rfl
  rw [List.foldl_append, List.foldl_append, List.foldl_append, List.foldl_cons, List.foldl_nil]
  generalize paint (screen.valid, pixel buffer) (.clear 0) = view at hclear hview
  obtain ⟨hview', hupper⟩ := paint_borderLine upper yUpper hview hq
  generalize (borderLine upper yUpper).foldl paint view = view' at hview' hupper
  obtain ⟨hview'', hlower⟩ := paint_borderLine lower yLower hview' hq
  generalize (borderLine lower yLower).foldl paint view' = view'' at hview'' hlower
  rw [foldl_printed (hview'' ▸ hq), hlower, hupper, hclear]
  refine if_congr Iff.rfl rfl ?_
  by_cases hlow : lower ∧ q.2 = yLower
  · rw [if_pos hlow, if_pos (.inr hlow)]
  · rw [if_neg hlow]
    exact if_congr (or_iff_left hlow).symm rfl rfl

theorem borderLine_ok {shown : Prop} [Decidable shown] {yPos : Int} {call : Call}
    (h : call ∈ borderLine shown yPos) : call.Ok := by
  unfold borderLine at h
  split at h
  · obtain rfl := List.mem_singleton.mp h
    trivial
  · exact absurd h List.not_mem_nil

/-- **An open menu is shown**, whatever was on the display. -/
theorem menu_shown {display : DisplayInfo β} (hok : display.Ok) (hmenu : display.inMenu = true)
    (fuel : Nat) (buffer : Buffer) :
    ∃ calls s first last, drawMenu (fuel + 1) display = some calls ∧
      run Call.step (Clip.initial, buffer) calls = some s ∧ ShowsMenu display s.2 first last := by
  have hrange := hok.selection hmenu
  have hwindow := menuWindow_spec hrange
  cases hbounds : menuWindow (menuList display.curScreen).itemCount display.menuSelection with
  | mk first last =>
  rw [hbounds] at hwindow
  have hmarker : drawStringEmpeg (fuel + 1) ['>'] (1 + 6 * (display.menuSelection - first)) 0
      vfdWidth = _ := drawStringEmpeg_fits (by decide) (by decide +kernel) fuel _ _
  have hlast : first + ((last - first).toNat : Int) = last := by
    have hselected := hwindow.selected
    omega
  obtain ⟨items, hitems, hshape⟩ := drawItems_spec fuel first hwindow.first_nonneg
    (hlast.trans_le hwindow.last_le)
  rw [hlast] at hshape
  have hok : ∀ call ∈ [Call.clear 0] ++ borderLine (first = 0) 0 ++
      borderLine (last = (menuList display.curScreen).itemCount) (1 + (last - first) * 6) ++
      (⟨1 + 6 * (display.menuSelection - first), 0, ['>']⟩ :: items).map drawPrinted, call.Ok := by
    intro call hcall
    simp only [List.mem_append, List.mem_singleton] at hcall
    obtain ((rfl | hcall) | hcall) | hcall := hcall
    · trivial
    · exact borderLine_ok hcall
    · exact borderLine_ok hcall
    · obtain ⟨printed, -, rfl⟩ := List.mem_map.mp hcall
      trivial
  obtain ⟨s, hrun, hshows⟩ := run_calls hok (shows_initial buffer)
  refine ⟨_, s, first, last, ?_, hrun, hwindow, fun q hq => ?_, fun k item hitem => ?_, marker_box⟩
  · rw [drawMenu]
    simp only [hbounds, hmarker, hitems, Option.bind_eq_bind, Option.bind_some]
    rfl
  · rw [hshows.picture q hq]
    have htext : (∃ printed ∈ (⟨1 + 6 * (display.menuSelection - first), 0, ['>']⟩ :: items :
        List Display.Printed), q ∈ printedShape printed) ↔ q ∈ menuText display first last := by
      simp only [List.mem_cons, exists_eq_or_imp, hshape]
      rfl
    rw [paint_layout hq, menuPicture]
    by_cases hmem : q ∈ menuText display first last
    · rw [if_pos hmem, if_pos (htext.mpr hmem)]
    · rw [if_neg hmem, if_neg fun h => hmem (htext.mp h)]
  · exact titles_box _ hitem

/-- **In every state that is reached with an open menu, the menu is shown**: five of its items or all of
them, the selected one among them and marked, each title complete in its own row. -/
theorem always_menu_shown {steps : BiasSteps ℚ} {dbReadonly : Bool} (brightness : Int) (bias : ℚ)
    (songs : SessionState) (happenings : List Happening) :
    Always (Device.step steps dbReadonly)
      (fun device => device.display.inMenu = true → ∀ (fuel : Nat) (buffer : Buffer),
        ∃ calls s first last, drawMenu (fuel + 1) device.display = some calls ∧
          run Call.step (Clip.initial, buffer) calls = some s ∧
          ShowsMenu device.display s.2 first last)
      (Device.start dbReadonly brightness bias songs) happenings := by
  apply always_of_step
  · intro device (hok : device.Ok dbReadonly) hmenu fuel buffer
    exact menu_shown hok.display hmenu fuel buffer
  · intro device happening device' hok h
    exact step_ok hok h
  · exact start_ok brightness bias songs

end Squash.Empeg
