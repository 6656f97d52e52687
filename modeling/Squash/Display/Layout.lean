import Mathlib.Algebra.BigOperators.Group.List.Basic
import Mathlib.Data.Rat.Floor

/-!
# The window layout

`draw_screen` goes over the windows four times: it settles which one is maximized, adds up the rows
that are needed, shares out the others, and creates the windows from the top. With a maximized
window that one gets all that the persistent windows leave; otherwise the windows that are not fixed
share by their weights, each part rounded up and clipped to what is left.

`Tiled` says what the screen should look like. `Marked` relates the number of the maximized window to
the states of the windows: after the first pass (`findMaximized_marked`) both say the same, so that
the other passes can be understood without the numbers.

The integers are exact, and `ceil` is the ceiling of the exact quotient.
-/

namespace Squash.Display

/-! ## Windows -/

/-- `enum window_states_e`. -/
inductive WindowState where
  | normal | hidden | maximized
  deriving DecidableEq, Repr

/-- What `newwin` was called with; the first column is 0. -/
structure Window where
  height : Int
  width : Int
  top : Int
  deriving DecidableEq, Repr

/-- `win_info_t`. `height` is both `size.fixed.height` and `size.calc.height`, which share their
storage; the two after it are those of `size.calc`. -/
structure WinInfo where
  window : Option Window
  height : Int
  weight : Int
  minHeight : Int
  state : WindowState
  isFixed : Bool
  isPersistent : Bool
  deriving DecidableEq, Repr

/-- `for( i = 0; i < WIN_COUNT; i++ )`, where the body works on window `i` and on variables that
are carried along. -/
def eachWindow {σ : Type} (body : Nat → σ → WinInfo → σ × WinInfo) :
    Nat → σ → List WinInfo → σ × List WinInfo
  | _, s, [] => (s, [])
  | i, s, w :: windows =>
    let (s, w) := body i s w
    let (s, windows) := eachWindow body (i + 1) s windows
    (s, w :: windows)

/-! ## `draw_screen` -/

/-- "Find out if there is a maximized window". -/
def findMaximized (i : Nat) (maximizedWindow : Option Nat) (w : WinInfo) : Option Nat × WinInfo :=
  if w.state = .maximized then
    if w.isFixed ∨ maximizedWindow.isSome then (maximizedWindow, { w with state := .normal })
    else (some i, w)
  else (maximizedWindow, w)

/-- "Calculate available and required rows", carrying `available_rows` and
`calc_window_weight_total`. -/
def calculateRows (maximizedWindow : Option Nat) (i : Nat) :
    Int × Int → WinInfo → (Int × Int) × WinInfo
  | (availableRows, weightTotal), w =>
    let w := { w with window := none }
    if w.state = .hidden then ((availableRows, weightTotal), w)
    else if maximizedWindow.isSome then
      if maximizedWindow ≠ some i ∧ w.isPersistent then
        let w := if !w.isFixed then { w with height := w.minHeight } else w
        ((availableRows - w.height, weightTotal), w)
      else if maximizedWindow = some i then ((availableRows - w.minHeight, weightTotal), w)
      else ((availableRows, weightTotal), w)
    else if !w.isFixed then ((availableRows - w.minHeight, weightTotal + w.weight), w)
    else ((availableRows - w.height, weightTotal), w)

/-- "Set auto-sized heights", carrying `used_rows`. -/
def autoSize (availableRows weightTotal : Int) (_i : Nat) (usedRows : Int) (w : WinInfo) :
    Int × WinInfo :=
  if w.state = .hidden then (usedRows, w)
  else if !w.isFixed then
    let height := ⌈(availableRows : ℚ) * w.weight / weightTotal⌉
    let height := if availableRows - usedRows < height then availableRows - usedRows else height
    (usedRows + height, { w with height := height + w.minHeight })
  else (usedRows, w)

/-- "Create Windows", carrying `cur_top`. -/
def createWindow (maximizedWindow : Option Nat) (screenWidth : Int) (i : Nat) (curTop : Int)
    (w : WinInfo) : Int × WinInfo :=
  if w.state = .hidden ∨ (maximizedWindow ≠ some i ∧ maximizedWindow.isSome ∧ !w.isPersistent) then
    (curTop, w)
  else (curTop + w.height, { w with window := some ⟨w.height, screenWidth, curTop⟩ })

/-- `draw_screen`, up to the drawing; `none` if the screen is too small. -/
def drawScreen (screenHeight screenWidth : Int) (windows : List WinInfo) : Option (List WinInfo) :=
  let (maximizedWindow, windows) := eachWindow findMaximized 0 none windows
  let ((availableRows, weightTotal), windows) :=
    eachWindow (calculateRows maximizedWindow) 0 (screenHeight, 0) windows
  if availableRows < 0 ∨ screenWidth < 45 then none
  else
    let windows := match maximizedWindow with
      | some m => windows.modify m fun w => { w with height := availableRows + w.minHeight }
      | none => (eachWindow (autoSize availableRows weightTotal) 0 0 windows).2
    some (eachWindow (createWindow maximizedWindow screenWidth) 0 0 windows).2

/-! ## The property -/

/-- Windows above each other, the first one at `top`. -/
def Stacked : Int → List Window → Prop
  | _, [] => True
  | top, w :: windows => w.top = top ∧ 0 < w.height ∧ Stacked (top + w.height) windows

/-- The windows on the screen. -/
def created (windows : List WinInfo) : List Window := windows.filterMap WinInfo.window

def totalHeight (windows : List WinInfo) : Int := ((created windows).map Window.height).sum

/-- The sizes the program gives to a window. -/
def WinInfo.Positive (w : WinInfo) : Prop :=
  if w.isFixed then 0 < w.height else 0 < w.weight ∧ 0 < w.minHeight

instance : DecidablePred WinInfo.Positive := fun w =>
  inferInstanceAs (Decidable (if w.isFixed then 0 < w.height else _))

/-- The screen as it should be. -/
structure Tiled (screenHeight screenWidth : Int) (windows : List WinInfo) : Prop where
  stacked : Stacked 0 (created windows)
  width : ∀ window ∈ created windows, window.width = screenWidth
  maximized : ∀ (i j : Nat) (v w : WinInfo), windows[i]? = some v → windows[j]? = some w →
    v.state = .maximized → w.state = .maximized → i = j
  notFixed : ∀ w ∈ windows, w.state = .maximized → w.isFixed = false
  minHeight : ∀ w ∈ windows, ∀ window ∈ w.window, w.isFixed = false → w.minHeight ≤ window.height
  fits : totalHeight windows ≤ screenHeight
  fills : (∃ w ∈ windows, w.window.isSome ∧ w.isFixed = false) →
    totalHeight windows = screenHeight

/-! ## Loops over the windows -/

section Loop

variable {σ : Type} {body : Nat → σ → WinInfo → σ × WinInfo}

theorem eachWindow_cons (i : Nat) (s : σ) (w : WinInfo) (windows : List WinInfo) :
    eachWindow body i s (w :: windows) =
      ((eachWindow body (i + 1) (body i s w).1 windows).1,
        (body i s w).2 :: (eachWindow body (i + 1) (body i s w).1 windows).2) := rfl

/-- A loop whose body leaves something about a window as it is. -/
theorem eachWindow_map {β : Type} {g : WinInfo → β} (h : ∀ i s w, g (body i s w).2 = g w) (i : Nat)
    (s : σ) (windows : List WinInfo) : (eachWindow body i s windows).2.map g = windows.map g := by
  induction windows generalizing i s with
  | nil => rfl
  | cons w windows ih => rw [eachWindow_cons, List.map_cons, List.map_cons, h, ih]

theorem length_eachWindow (i : Nat) (s : σ) (windows : List WinInfo) :
    (eachWindow body i s windows).2.length = windows.length := by
  induction windows generalizing i s with
  | nil => rfl
  | cons w windows ih => rw [eachWindow_cons, List.length_cons, List.length_cons, ih]

end Loop

/-! ## The maximized window -/

/-- Window `m`, if there is one, is the only maximized window of a list that begins with number
`i`. -/
def Marked (m : Option Nat) (i : Nat) (windows : List WinInfo) : Prop :=
  ∀ (j : Nat) (w : WinInfo), windows[j]? = some w → (m = some (i + j) ↔ w.state = .maximized)

theorem marked_cons {m : Option Nat} {i : Nat} {w : WinInfo} {windows : List WinInfo} :
    Marked m i (w :: windows) ↔
      (m = some i ↔ w.state = .maximized) ∧ Marked m (i + 1) windows := by
  constructor
  · intro h
    refine ⟨h 0 w rfl, fun j v hv => ?_⟩
    rw [Nat.add_right_comm]
    exact h (j + 1) v hv
  · rintro ⟨hw, hwindows⟩ j v hv
    cases j with
    | zero =>
        cases hv
        exact hw
    | succ j =>
        rw [← Nat.add_assoc, Nat.add_right_comm]
        exact hwindows j v hv

theorem Marked.none_of_lt {k i : Nat} {windows : List WinInfo} (h : Marked (some k) i windows)
    (hk : k < i) : ∀ w ∈ windows, w.state ≠ .maximized := by
  intro w hw hmax
  obtain ⟨j, hj⟩ := List.mem_iff_getElem?.mp hw
  have hkj := Option.some.inj ((h j w hj).mpr hmax)
  omega

/-- The marks say which windows are maximized, and do not depend on anything else. -/
theorem Marked.congr {m : Option Nat} {i : Nat} {v w : List WinInfo} (h : Marked m i v)
    (hstate : w.map WinInfo.state = v.map WinInfo.state) : Marked m i w := by
  intro j b hb
  have hj := congrArg (fun l => l[j]?) hstate
  simp only [List.getElem?_map, hb, Option.map_some] at hj
  obtain ⟨a, ha, hab⟩ := Option.map_eq_some_iff.mp hj.symm
  rw [h j a ha, hab]

/-- Setting a field of window `k` is setting it in the maximized window. -/
theorem Marked.modify_eq_map {k : Nat} {windows : List WinInfo} (h : Marked (some k) 0 windows)
    (f : WinInfo → WinInfo) :
    windows.modify k f = windows.map fun w => if w.state = .maximized then f w else w := by
  apply List.ext_getElem?
  intro j
  rw [List.getElem?_modify, List.getElem?_map]
  cases hw : windows[j]? with
  | none => rfl
  | some w =>
      have hj := h j w hw
      rw [Nat.zero_add, Option.some.injEq] at hj
      by_cases hk : k = j
      · simp [hk, hj.mp hk]
      · simp [hk, mt hj.mpr hk]

/-- One window of the list gets `x`. -/
theorem Marked.sum_ite {k i : Nat} {windows : List WinInfo} (h : Marked (some k) i windows)
    (hk : i ≤ k) (hlt : k < i + windows.length) (x : Int) :
    (windows.map fun w => if w.state = .maximized then x else 0).sum = x := by
  induction windows generalizing i with
  | nil =>
      rw [List.length_nil] at hlt
      omega
  | cons w windows ih =>
      obtain ⟨hw, hwindows⟩ := marked_cons.mp h
      rw [List.map_cons, List.sum_cons]
      obtain rfl | hki : i = k ∨ i + 1 ≤ k := by omega
      · have hrest : (windows.map fun w => if w.state = .maximized then x else 0).sum = 0 := by
          apply List.sum_eq_zero
          intro y hy
          obtain ⟨v, hv, rfl⟩ := List.mem_map.mp hy
          rw [if_neg (hwindows.none_of_lt (Nat.lt_succ_self _) v hv)]
        rw [if_pos (hw.mp rfl), hrest, Int.add_zero]
      · have hne : w.state ≠ .maximized := by
          intro hmax
          have hki' := Option.some.inj (hw.mpr hmax)
          omega
        rw [List.length_cons] at hlt
        rw [if_neg hne, Int.zero_add]
        exact ih hwindows hki (by omega)

/-- The first maximized window that is not fixed stays; what is found later has a larger number. -/
theorem findMaximized_found (m : Option Nat) (i : Nat) (windows : List WinInfo) :
    (∀ k, m = some k → (eachWindow findMaximized i m windows).1 = some k) ∧
      (m = none → ∀ k, (eachWindow findMaximized i m windows).1 = some k → i ≤ k) ∧
      ∀ k, (eachWindow findMaximized i m windows).1 = some k → m = some k ∨ k < i + windows.length := by
  induction windows generalizing m i with
  | nil =>
      refine ⟨fun k hk => hk, ?_, fun k hk => .inl hk⟩
      rintro rfl k hk
      cases hk
  | cons w windows ih =>
      rw [eachWindow_cons, List.length_cons]
      obtain ⟨hkeeps, hlater, hbound⟩ := ih (findMaximized i m w).1 (i + 1)
      have hstep : (findMaximized i m w).1 = m ∨ (m = none ∧ (findMaximized i m w).1 = some i) := by
        unfold findMaximized
        cases m <;> grind
      rcases hstep with hsame | ⟨rfl, hfound⟩
      · rw [hsame] at hkeeps hlater hbound ⊢
        refine ⟨hkeeps, fun hm k hk => Nat.le_of_succ_le (hlater hm k hk), fun k hk => ?_⟩
        have := hbound k hk
        grind
      · have hi := hkeeps i hfound
        rw [hfound] at hi ⊢
        refine ⟨nofun, fun _ k hk => ?_, fun k hk => ?_⟩ <;> grind

/-- **The first pass** leaves one maximized window at most, which is not fixed. -/
theorem findMaximized_marked {m : Option Nat} {i : Nat} (hm : ∀ k, m = some k → k < i)
    (windows : List WinInfo) :
    Marked (eachWindow findMaximized i m windows).1 i (eachWindow findMaximized i m windows).2 ∧
      ∀ w ∈ (eachWindow findMaximized i m windows).2, w.state = .maximized → w.isFixed = false := by
  induction windows generalizing m i with
  | nil => exact ⟨by simp [eachWindow, Marked], by simp [eachWindow]⟩
  | cons w windows ih =>
      obtain ⟨hkeeps, hlater, -⟩ := findMaximized_found (findMaximized i m w).1 (i + 1) windows
      have hstep : ((findMaximized i m w).1 = m ∧ (findMaximized i m w).2.state ≠ .maximized) ∨
          ((findMaximized i m w).1 = some i ∧ (findMaximized i m w).2 = w ∧
            w.state = .maximized ∧ w.isFixed = false) := by
        unfold findMaximized
        cases m <;> grind
      rw [eachWindow_cons]
      rcases hstep with ⟨hsame, hstate⟩ | ⟨hfound, hw, hmax, hfixed⟩
      · rw [hsame] at hkeeps hlater ⊢
        obtain ⟨hmarked, hrest⟩ := ih (m := m) (i := i + 1) fun k hk => Nat.lt_succ_of_lt (hm k hk)
        refine ⟨marked_cons.mpr ⟨iff_of_false ?_ hstate, hmarked⟩, ?_⟩
        · intro hi
          cases m with
          | none => exact absurd (hlater rfl i hi) (by omega)
          | some k =>
              have hki := Option.some.inj ((hkeeps k rfl).symm.trans hi)
              exact absurd (hm k rfl) (by omega)
        · intro v hv hvmax
          rcases List.mem_cons.mp hv with rfl | hv
          · exact absurd hvmax hstate
          · exact hrest v hv hvmax
      · have hi := hkeeps i hfound
        rw [hfound] at hi ⊢
        rw [hw]
        obtain ⟨hmarked, hrest⟩ := ih (m := some i) (i := i + 1) (by grind)
        refine ⟨marked_cons.mpr ⟨iff_of_true hi hmax, hmarked⟩, ?_⟩
        intro v hv hvmax
        rcases List.mem_cons.mp hv with rfl | hv
        · exact hfixed
        · exact hrest v hv hvmax

end Squash.Display
