import Mathlib.Algebra.Order.BigOperators.Group.List
import Mathlib.Tactic.Linarith
import Squash.Display.Layout

/-!
# The windows tile the screen

`Sized` holds of the windows before they are created: those that will be shown have their rows, and
together they have all the rows of the screen if one of them can grow. With a maximized window that
is so because it gets what the others leave (`sized_maximized`); without one because the parts are
rounded up, so that only the clipping can end the sharing (`sized_normal`). Creating the windows
stacks them (`Sized.tiled`).

`layout_tiles` is the result for any list of windows.
-/

namespace Squash.Display

/-! ## The rows that are needed -/

/-- The windows that are created, given whether there is a maximized one. -/
def WinInfo.Shown (w : WinInfo) (m : Option Nat) : Prop :=
  w.state ≠ .hidden ∧ (w.state = .maximized ∨ m = none ∨ w.isPersistent = true)

instance (w : WinInfo) (m : Option Nat) : Decidable (w.Shown m) :=
  inferInstanceAs (Decidable (_ ∧ _))

/-- The rows of the windows that are created. -/
def shownRows (m : Option Nat) (windows : List WinInfo) : Int :=
  (windows.map fun w => if w.Shown m then w.height else 0).sum

/-- What the program never changes about a window. -/
def WinInfo.settings (w : WinInfo) : Int × Int × Bool × Bool :=
  (w.weight, w.minHeight, w.isFixed, w.isPersistent)

/-- The rows a window needs at least. -/
def WinInfo.needs (w : WinInfo) : Int := if w.isFixed then w.height else w.minHeight

/-- The windows before they are created: the rows go round. -/
structure Sized (screenHeight : Int) (m : Option Nat) (windows : List WinInfo) : Prop where
  marked : Marked m 0 windows
  notFixed : ∀ w ∈ windows, w.state = .maximized → w.isFixed = false
  deleted : ∀ w ∈ windows, w.window = none
  positive : ∀ w ∈ windows, w.Shown m → 0 < w.height
  minHeight : ∀ w ∈ windows, w.Shown m → w.isFixed = false → w.minHeight ≤ w.height
  fits : shownRows m windows ≤ screenHeight
  fills : (∃ w ∈ windows, w.Shown m ∧ w.isFixed = false) → shownRows m windows = screenHeight

/-! ### With a maximized window -/

/-- What the second pass makes of a window. -/
def WinInfo.shrink (w : WinInfo) : WinInfo :=
  if w.state = .normal ∧ w.isPersistent = true then { w with window := none, height := w.needs }
  else { w with window := none }

theorem calculateRows_maximized {k i : Nat} {windows : List WinInfo} {rows weights : Int}
    (h : Marked (some k) i windows) :
    eachWindow (calculateRows (some k)) i (rows, weights) windows =
      ((rows - (windows.map fun w =>
          if w.Shown (some k) then if w.state = .maximized then w.minHeight else w.needs
          else 0).sum, weights),
        windows.map WinInfo.shrink) := by
  induction windows generalizing i rows with
  | nil => simp [eachWindow]
  | cons w windows ih =>
      obtain ⟨hw, hwindows⟩ := marked_cons.mp h
      have hbody : calculateRows (some k) i (rows, weights) w =
          ((rows - (if w.Shown (some k) then if w.state = .maximized then w.minHeight else w.needs
            else 0), weights), w.shrink) := by
        cases hstate : w.state with
        | hidden => simp [calculateRows, WinInfo.Shown, WinInfo.shrink, hstate]
        | maximized =>
            obtain rfl : k = i := Option.some.inj (hw.mpr hstate)
            simp [calculateRows, WinInfo.Shown, WinInfo.shrink, hstate]
        | normal =>
            have hne : k ≠ i := by
              rintro rfl
              simp [hstate] at hw
            by_cases hpersistent : w.isPersistent = true
            · cases hfixed : w.isFixed <;> simp [calculateRows, WinInfo.Shown, WinInfo.shrink,
                WinInfo.needs, hstate, hne, hpersistent, hfixed]
            · simp [calculateRows, WinInfo.Shown, WinInfo.shrink, hstate, hne, hpersistent]
      rw [eachWindow_cons, hbody, ih hwindows, List.map_cons, List.map_cons, List.sum_cons,
        Int.sub_sub]

theorem WinInfo.Positive.needs {w : WinInfo} (h : w.Positive) : 0 < w.needs := by
  unfold WinInfo.Positive at h
  unfold WinInfo.needs
  split <;> simp_all

/-- A window in the maximized layout, when `rows` are left for the maximized one. -/
def WinInfo.maximize (rows : Int) (w : WinInfo) : WinInfo :=
  if w.state = .maximized then { w with window := none, height := rows + w.minHeight } else w.shrink

theorem maximize_map {k : Nat} {windows : List WinInfo} (h : Marked (some k) 0 windows)
    (rows : Int) :
    (windows.map WinInfo.shrink).modify k (fun w => { w with height := rows + w.minHeight }) =
      windows.map (WinInfo.maximize rows) := by
  have hstate : ∀ w : WinInfo, w.shrink.state = w.state := by
    intro w
    unfold WinInfo.shrink
    split <;> rfl
  have hshrunk : Marked (some k) 0 (windows.map WinInfo.shrink) := by
    apply h.congr
    simp [hstate]
  rw [hshrunk.modify_eq_map, List.map_map]
  apply List.map_congr_left
  intro w _
  rw [Function.comp, hstate, WinInfo.maximize]
  by_cases hmax : w.state = .maximized
  · simp [WinInfo.shrink, hmax]
  · rw [if_neg hmax, if_neg hmax]

section Maximize

variable {k : Nat} {rows : Int}

theorem maximize_state (w : WinInfo) : (w.maximize rows).state = w.state := by
  unfold WinInfo.maximize WinInfo.shrink
  split_ifs <;> rfl

theorem maximize_keeps (k : Nat) (w : WinInfo) : (w.maximize rows).isFixed = w.isFixed ∧
    (w.maximize rows).minHeight = w.minHeight ∧ (w.maximize rows).window = none ∧
    ((w.maximize rows).Shown (some k) ↔ w.Shown (some k)) := by
  unfold WinInfo.Shown WinInfo.maximize WinInfo.shrink
  split_ifs <;> simp

/-- A window that is created has what it needs, and the maximized one the other rows too. -/
theorem maximize_height {w : WinInfo} (hw : w.Shown (some k)) : (w.maximize rows).height =
    (if w.state = .maximized then w.minHeight else w.needs) +
      if w.state = .maximized then rows else 0 := by
  cases hs : w.state <;>
    simp_all [WinInfo.Shown, WinInfo.maximize, WinInfo.shrink, Int.add_comm]

theorem shownRows_maximize {windows : List WinInfo} (h : Marked (some k) 0 windows)
    (hk : k < windows.length) :
    shownRows (some k) (windows.map (WinInfo.maximize rows)) =
      (windows.map fun w => if w.Shown (some k) then
        if w.state = .maximized then w.minHeight else w.needs else 0).sum + rows := by
  have hsplit : shownRows (some k) (windows.map (WinInfo.maximize rows)) =
      (windows.map fun w => (if w.Shown (some k) then
          if w.state = .maximized then w.minHeight else w.needs else 0) +
        if w.state = .maximized then rows else 0).sum := by
    rw [shownRows, List.map_map]
    congr 1
    apply List.map_congr_left
    intro w _
    rw [Function.comp, if_congr (maximize_keeps k w).2.2.2 rfl rfl]
    by_cases hw : w.Shown (some k)
    · rw [if_pos hw, if_pos hw, maximize_height hw]
    · have hmax : w.state ≠ .maximized := by
        intro hmax
        exact hw ⟨by simp [hmax], .inl hmax⟩
      rw [if_neg hw, if_neg hw, if_neg hmax]
      rfl
  rw [hsplit, List.sum_map_add, h.sum_ite (Nat.zero_le k) (by omega)]

end Maximize

theorem sized_maximized {k : Nat} {windows : List WinInfo} {screenHeight rows : Int}
    (h : Marked (some k) 0 windows) (hk : k < windows.length)
    (hfixed : ∀ w ∈ windows, w.state = .maximized → w.isFixed = false)
    (hpositive : ∀ w ∈ windows, w.Positive)
    (hrows : rows = screenHeight - (windows.map fun w =>
      if w.Shown (some k) then if w.state = .maximized then w.minHeight else w.needs else 0).sum)
    (henough : 0 ≤ rows) :
    Sized screenHeight (some k) (windows.map (WinInfo.maximize rows)) := by
  have htotal : shownRows (some k) (windows.map (WinInfo.maximize rows)) = screenHeight := by
    rw [shownRows_maximize h hk, hrows]
    omega
  refine ⟨h.congr (by simp [maximize_state]), ?_, ?_, ?_, ?_, htotal.le, fun _ => htotal⟩
  · simp only [List.forall_mem_map, maximize_state, maximize_keeps k]
    exact hfixed
  · simp only [List.forall_mem_map, maximize_keeps k, implies_true]
  · simp only [List.forall_mem_map, maximize_keeps k]
    intro w hw hshown
    rw [maximize_height hshown]
    have hneeds := (hpositive w hw).needs
    have hmin := hfixed w hw
    unfold WinInfo.needs at hneeds ⊢
    grind
  · simp only [List.forall_mem_map, maximize_keeps k]
    intro w hw hshown hnot
    rw [maximize_height hshown, WinInfo.needs, hnot]
    grind

/-! ### Without a maximized window -/

theorem shown_none {w : WinInfo} : w.Shown none ↔ w.state ≠ .hidden := by
  simp [WinInfo.Shown]

/-- What a window adds to `calc_window_weight_total`. -/
def WinInfo.share (w : WinInfo) : Int :=
  if w.state ≠ .hidden ∧ w.isFixed = false then w.weight else 0

theorem calculateRows_normal {i : Nat} {rows weights : Int} (windows : List WinInfo) :
    eachWindow (calculateRows none) i (rows, weights) windows =
      ((rows - (windows.map fun w => if w.Shown none then w.needs else 0).sum,
          weights + (windows.map WinInfo.share).sum),
        windows.map fun w => { w with window := none }) := by
  induction windows generalizing i rows weights with
  | nil => simp [eachWindow]
  | cons w windows ih =>
      have hbody : calculateRows none i (rows, weights) w =
          ((rows - (if w.Shown none then w.needs else 0), weights + w.share),
            { w with window := none }) := by
        cases hstate : w.state <;> cases hfixed : w.isFixed <;>
          simp_all [calculateRows, WinInfo.Shown, WinInfo.needs, WinInfo.share]
      rw [eachWindow_cons, hbody, ih, List.map_cons, List.map_cons, List.map_cons, List.sum_cons,
        List.sum_cons, Int.sub_sub, Int.add_assoc]

/-- A part of the rows, rounded up, is not smaller than its exact share. -/
theorem mul_le_ceil_mul {rows weight total : Int} (htotal : 0 < total) :
    rows * weight ≤ ⌈(rows : ℚ) * weight / total⌉ * total := by
  have hle := Int.le_ceil ((rows : ℚ) * weight / total)
  rw [div_le_iff₀ (by exact_mod_cast htotal)] at hle
  exact_mod_cast hle

theorem ceil_share_nonneg {rows weight total : Int} (hrows : 0 ≤ rows) (hweight : 0 ≤ weight)
    (htotal : 0 ≤ total) : 0 ≤ ⌈(rows : ℚ) * weight / total⌉ := by
  apply Int.ceil_nonneg
  have hrows' : (0 : ℚ) ≤ rows := by exact_mod_cast hrows
  have hweight' : (0 : ℚ) ≤ weight := by exact_mod_cast hweight
  have htotal' : (0 : ℚ) ≤ total := by exact_mod_cast htotal
  exact div_nonneg (mul_nonneg hrows' hweight') htotal'

/-- What the third pass does to one window, which is given `height` more rows. -/
theorem autoSize_cases {available total used : Int} {i : Nat} {w : WinInfo}
    (havailable : 0 ≤ available) (htotal : 0 ≤ total) (hused : used ≤ available)
    (hweight : w.isFixed = false → 0 ≤ w.weight) :
    (¬ (w.state ≠ .hidden ∧ w.isFixed = false) ∧ autoSize available total i used w = (used, w)) ∨
      ∃ height, 0 ≤ height ∧ used + height ≤ available ∧ w.state ≠ .hidden ∧ w.isFixed = false ∧
        autoSize available total i used w =
          (used + height, { w with height := height + w.minHeight }) ∧
        (0 < total → used + height = available ∨ available * w.weight ≤ height * total) := by
  by_cases hhidden : w.state = .hidden
  · exact .inl ⟨by simp [hhidden], by rw [autoSize, if_pos hhidden]⟩
  · cases hfixed : w.isFixed with
    | true => exact .inl ⟨by simp, by simp [autoSize, hfixed]⟩
    | false =>
        have hceil := ceil_share_nonneg havailable (hweight hfixed) htotal
        right
        simp only [autoSize, if_neg hhidden, hfixed, Bool.not_false, if_true]
        by_cases hclip : available - used < ⌈(available : ℚ) * w.weight / total⌉
        · refine ⟨available - used, by omega, by omega, hhidden, trivial, by rw [if_pos hclip], ?_⟩
          exact fun _ => .inl (by omega)
        · refine ⟨_, hceil, by omega, hhidden, trivial, by rw [if_neg hclip], ?_⟩
          exact fun hpos => .inr (mul_le_ceil_mul hpos)

/-- The third pass: what it does to each window, and how many rows it uses up. -/
theorem autoSize_each {available total used : Int} {i : Nat} {windows : List WinInfo}
    (havailable : 0 ≤ available) (htotal : 0 ≤ total) (hused : used ≤ available)
    (hweight : ∀ w ∈ windows, w.isFixed = false → 0 ≤ w.weight) :
    let r := eachWindow (autoSize available total) i used windows
    used ≤ r.1 ∧ r.1 ≤ available ∧
      (0 < total → r.1 = available ∨
        used * total + available * (windows.map WinInfo.share).sum ≤ r.1 * total) ∧
      shownRows none r.2 =
        (windows.map fun w => if w.Shown none then w.needs else 0).sum + (r.1 - used) ∧
      ∀ w' ∈ r.2, ∃ w ∈ windows, ∃ height, w' = { w with height } ∧
        (w.isFixed = true → height = w.height) ∧
        (w.Shown none → w.isFixed = false → w.minHeight ≤ height) := by
  induction windows generalizing i used with
  | nil => simp [eachWindow, shownRows, hused]
  | cons w windows ih =>
      have hrest : ∀ v ∈ windows, v.isFixed = false → 0 ≤ v.weight := fun v hv =>
        hweight v (List.mem_cons_of_mem w hv)
      rw [eachWindow_cons]
      simp only [shownRows, List.map_cons, List.sum_cons, List.forall_mem_cons]
      rcases autoSize_cases (i := i) havailable htotal hused (hweight w List.mem_cons_self) with
        ⟨hnot, hbody⟩ | ⟨height, hpos, hfits, hstate, hfixed, hbody, hshare⟩
      · obtain ⟨hmore, hless, hall, hrows, hwindows⟩ := ih (i := i + 1) hused hrest
        have hw : w.share = 0 := if_neg hnot
        have hneeds : (if w.Shown none then w.height else 0) = if w.Shown none then w.needs else 0 := by
          simp only [shown_none, WinInfo.needs]
          grind
        rw [hbody]
        dsimp only
        refine ⟨hmore, hless, ?_, ?_, ⟨w, List.mem_cons_self, w.height, rfl, fun _ => rfl, ?_⟩, ?_⟩
        · rwa [hw, Int.zero_add]
        · rw [shownRows] at hrows
          rw [hrows, hneeds, Int.add_assoc]
        · intro hshown hfixed
          exact absurd ⟨shown_none.mp hshown, hfixed⟩ hnot
        · intro w' hw'
          obtain ⟨v, hv, hkeeps⟩ := hwindows w' hw'
          exact ⟨v, List.mem_cons_of_mem w hv, hkeeps⟩
      · obtain ⟨hmore, hless, hall, hrows, hwindows⟩ := ih (i := i + 1) hfits hrest
        have hw : w.share = w.weight := if_pos ⟨hstate, hfixed⟩
        have hshown : ∀ height, ({ w with height } : WinInfo).Shown none :=
          fun _ => shown_none.mpr hstate
        have hneeds : w.needs = w.minHeight := by simp [WinInfo.needs, hfixed]
        rw [hbody]
        dsimp only
        refine ⟨by omega, hless, ?_, ?_, ⟨w, List.mem_cons_self, _, rfl, by simp [hfixed], ?_⟩, ?_⟩
        · intro htotal'
          rcases hshare htotal' with hfull | hpart
          · exact .inl (by omega)
          · rcases hall htotal' with hall | hall
            · exact .inl hall
            · right
              rw [hw]
              nlinarith
        · rw [shownRows] at hrows
          rw [hrows, if_pos (hshown _), if_pos (hshown w.height), hneeds]
          omega
        · intro _ _
          omega
        · intro w' hw'
          obtain ⟨v, hv, hkeeps⟩ := hwindows w' hw'
          exact ⟨v, List.mem_cons_of_mem w hv, hkeeps⟩

theorem autoSize_state {available total used : Int} {i : Nat} (windows : List WinInfo) :
    (eachWindow (autoSize available total) i used windows).2.map WinInfo.state =
      windows.map WinInfo.state := by
  apply eachWindow_map
  intro i used w
  unfold autoSize
  split_ifs <;> rfl

theorem sized_normal {windows : List WinInfo} {screenHeight rows : Int}
    (h : Marked none 0 windows) (hdeleted : ∀ w ∈ windows, w.window = none)
    (hpositive : ∀ w ∈ windows, w.Positive)
    (hrows : rows = screenHeight -
      (windows.map fun w => if w.Shown none then w.needs else 0).sum)
    (henough : 0 ≤ rows) :
    Sized screenHeight none
      (eachWindow (autoSize rows (windows.map WinInfo.share).sum) 0 0 windows).2 := by
  have hweight : ∀ w ∈ windows, w.isFixed = false → 0 < w.weight := by
    intro w hw hfixed
    have hpos := hpositive w hw
    simp only [WinInfo.Positive, hfixed] at hpos
    exact hpos.1
  have hshare : ∀ x ∈ windows.map WinInfo.share, 0 ≤ x := by
    intro x hx
    obtain ⟨w, hw, rfl⟩ := List.mem_map.mp hx
    have hpos := hweight w hw
    unfold WinInfo.share
    grind
  have htotal : 0 ≤ (windows.map WinInfo.share).sum := List.sum_nonneg hshare
  obtain ⟨-, hless, hall, hshown, hwindows⟩ := autoSize_each (i := 0) henough htotal henough
    fun w hw hfixed => (hweight w hw hfixed).le
  have hmarked : Marked none 0
      (eachWindow (autoSize rows (windows.map WinInfo.share).sum) 0 0 windows).2 :=
    h.congr (autoSize_state windows)
  refine ⟨hmarked, ?_, ?_, ?_, ?_, ?_, ?_⟩
  · intro w' hw' hmax
    obtain ⟨j, hj⟩ := List.mem_iff_getElem?.mp hw'
    cases (hmarked j w' hj).mpr hmax
  · intro w' hw'
    obtain ⟨w, hw, height, rfl, -⟩ := hwindows w' hw'
    exact hdeleted w hw
  · intro w' hw' hshown'
    obtain ⟨w, hw, height, rfl, hsame, hmin⟩ := hwindows w' hw'
    have hpos := hpositive w hw
    have hmin' := hmin hshown'
    unfold WinInfo.Positive at hpos
    grind
  · intro w' hw' hshown' hfixed
    obtain ⟨w, hw, height, rfl, hsame, hmin⟩ := hwindows w' hw'
    exact hmin hshown' hfixed
  · rw [hshown]
    omega
  · rintro ⟨w', hw', hshown', hfixed⟩
    obtain ⟨w, hw, height, rfl, -⟩ := hwindows w' hw'
    -- a window that can grow has a share, so all the rows are shared out
    have hpart : 0 < w.share := by
      rw [WinInfo.share, if_pos ⟨shown_none.mp hshown', hfixed⟩]
      exact hweight w hw hfixed
    have hpos : 0 < (windows.map WinInfo.share).sum :=
      hpart.trans_le (List.single_le_sum hshare _ (List.mem_map_of_mem hw))
    rw [hshown]
    rcases hall hpos with hfull | hfull
    · omega
    · rw [Int.zero_mul, Int.zero_add] at hfull
      have hfull' := le_of_mul_le_mul_right hfull hpos
      omega

/-! ## Creating the windows -/

theorem totalHeight_cons (w : WinInfo) (windows : List WinInfo) :
    totalHeight (w :: windows) = (w.window.map Window.height).getD 0 + totalHeight windows := by
  unfold totalHeight created
  cases hw : w.window <;> simp [hw]

/-- The last pass stacks the windows that are shown. -/
theorem createWindow_each {m : Option Nat} (screenWidth top : Int) (i : Nat)
    {windows : List WinInfo} (h : Marked m i windows) (hdeleted : ∀ w ∈ windows, w.window = none)
    (hpositive : ∀ w ∈ windows, w.Shown m → 0 < w.height) :
    let r := eachWindow (createWindow m screenWidth) i top windows
    Stacked top (created r.2) ∧ totalHeight r.2 = shownRows m windows ∧
      ∀ w' ∈ r.2, ∃ w ∈ windows, w' = { w with window := w'.window } ∧
        ∀ window ∈ w'.window, w.Shown m ∧ window.height = w.height ∧ window.width = screenWidth := by
  induction windows generalizing top i with
  | nil => exact ⟨trivial, rfl, by simp [eachWindow]⟩
  | cons w windows ih =>
      obtain ⟨hmark, hmarks⟩ := marked_cons.mp h
      obtain ⟨hnone, hnones⟩ := List.forall_mem_cons.mp hdeleted
      obtain ⟨hpos, hposs⟩ := List.forall_mem_cons.mp hpositive
      have hbody : createWindow m screenWidth i top w =
          if w.Shown m then (top + w.height, { w with window := some ⟨w.height, screenWidth, top⟩ })
          else (top, w) := by
        have hskip : w.state = .hidden ∨ (m ≠ some i ∧ m.isSome ∧ !w.isPersistent) ↔
            ¬ w.Shown m := by
          unfold WinInfo.Shown
          rw [← hmark]
          cases m <;> grind
        rw [createWindow, if_congr hskip rfl rfl, ite_not]
      rw [eachWindow_cons, hbody]
      simp only [shownRows, List.map_cons, List.sum_cons, totalHeight_cons, List.forall_mem_cons]
      by_cases hshown : w.Shown m
      · obtain ⟨hstacked, htotal, hwindows⟩ := ih (top + w.height) (i + 1) hmarks hnones hposs
        rw [if_pos hshown, if_pos hshown]
        refine ⟨⟨rfl, hpos hshown, hstacked⟩, ?_, ⟨w, List.mem_cons_self, rfl, ?_⟩, ?_⟩
        · rw [htotal]
          rfl
        · rintro window hwindow
          cases hwindow
          exact ⟨hshown, rfl, rfl⟩
        · intro w' hw'
          obtain ⟨v, hv, hkeeps⟩ := hwindows w' hw'
          exact ⟨v, List.mem_cons_of_mem w hv, hkeeps⟩
      · obtain ⟨hstacked, htotal, hwindows⟩ := ih top (i + 1) hmarks hnones hposs
        rw [if_neg hshown, if_neg hshown]
        refine ⟨?_, ?_, ⟨w, List.mem_cons_self, rfl, ?_⟩, ?_⟩
        · simpa [created, hnone] using hstacked
        · rw [htotal, hnone]
          rfl
        · simp [hnone]
        · intro w' hw'
          obtain ⟨v, hv, hkeeps⟩ := hwindows w' hw'
          exact ⟨v, List.mem_cons_of_mem w hv, hkeeps⟩

theorem createWindow_state {m : Option Nat} {screenWidth top : Int} {i : Nat}
    (windows : List WinInfo) :
    (eachWindow (createWindow m screenWidth) i top windows).2.map WinInfo.state =
      windows.map WinInfo.state := by
  apply eachWindow_map
  intro i top w
  unfold createWindow
  split_ifs <;> rfl

theorem Sized.tiled {m : Option Nat} {screenHeight screenWidth : Int} {windows : List WinInfo}
    (h : Sized screenHeight m windows) :
    Tiled screenHeight screenWidth
      (eachWindow (createWindow m screenWidth) 0 0 windows).2 := by
  obtain ⟨hstacked, htotal, hwindows⟩ :=
    createWindow_each screenWidth 0 0 h.marked h.deleted h.positive
  have hmarked : Marked m 0 (eachWindow (createWindow m screenWidth) 0 0 windows).2 :=
    h.marked.congr (createWindow_state windows)
  refine ⟨hstacked, ?_, ?_, ?_, ?_, ?_, ?_⟩
  · intro window hwindow
    obtain ⟨w', hw', hsome⟩ := List.mem_filterMap.mp hwindow
    obtain ⟨w, -, -, hcreated⟩ := hwindows w' hw'
    exact (hcreated window hsome).2.2
  · intro i j v w hv hw hvmax hwmax
    have hi := (hmarked i v hv).mpr hvmax
    have hj := (hmarked j w hw).mpr hwmax
    rw [hi] at hj
    have := Option.some.inj hj
    omega
  · intro w' hw' hmax
    obtain ⟨w, hw, hsame, -⟩ := hwindows w' hw'
    rw [hsame] at hmax ⊢
    exact h.notFixed w hw hmax
  · intro w' hw' window hwindow hfixed
    obtain ⟨w, hw, hsame, hcreated⟩ := hwindows w' hw'
    obtain ⟨hshown, hheight, -⟩ := hcreated window hwindow
    rw [hsame] at hfixed ⊢
    rw [hheight]
    exact h.minHeight w hw hshown hfixed
  · rw [htotal]
    exact h.fits
  · rintro ⟨w', hw', hsome, hfixed⟩
    obtain ⟨window, hwindow⟩ := Option.isSome_iff_exists.mp hsome
    obtain ⟨w, hw, hsame, hcreated⟩ := hwindows w' hw'
    rw [hsame] at hfixed
    rw [htotal]
    exact h.fills ⟨w, hw, (hcreated window hwindow).1, hfixed⟩

/-! ## The result -/

/-- The first pass changes no sizes. -/
theorem findMaximized_positive {m : Option Nat} {i : Nat} {windows : List WinInfo}
    (h : ∀ w ∈ windows, w.Positive) :
    ∀ w ∈ (eachWindow findMaximized i m windows).2, w.Positive := by
  have hsizes : (eachWindow findMaximized i m windows).2.map
      (fun w => { w with state := .normal }) = windows.map fun w => { w with state := .normal } := by
    apply eachWindow_map
    intro i m w
    unfold findMaximized
    split_ifs <;> rfl
  intro w' hw'
  have hmem := List.mem_map_of_mem (f := fun w : WinInfo => { w with state := .normal }) hw'
  rw [hsizes] at hmem
  obtain ⟨w, hw, hsame⟩ := List.mem_map.mp hmem
  have hpositive : ({ w with state := .normal } : WinInfo).Positive := h w hw
  rw [hsame] at hpositive
  exact hpositive

theorem map_modify_settings {f : WinInfo → WinInfo} (hf : ∀ w, (f w).settings = w.settings) (k : Nat)
    (windows : List WinInfo) :
    (windows.modify k f).map WinInfo.settings = windows.map WinInfo.settings := by
  apply List.ext_getElem?
  intro j
  rw [List.getElem?_map, List.getElem?_modify, List.getElem?_map]
  cases windows[j]? with
  | none => rfl
  | some w =>
      by_cases hk : k = j
      · simp [hk, hf]
      · simp [hk]

/-- No pass changes the settings of a window. -/
theorem drawScreen_settings {screenHeight screenWidth : Int} {windows windows' : List WinInfo}
    (h : drawScreen screenHeight screenWidth windows = some windows') :
    windows'.map WinInfo.settings = windows.map WinInfo.settings := by
  have hfind : ∀ i m w, (findMaximized i m w).2.settings = w.settings := by
    intro i m w
    unfold findMaximized
    split_ifs <;> rfl
  have hcalculate : ∀ m i s w, (calculateRows m i s w).2.settings = w.settings := by
    intro m i s w
    unfold calculateRows
    dsimp only
    split_ifs <;> rfl
  have hsize : ∀ available total i used w,
      (autoSize available total i used w).2.settings = w.settings := by
    intro available total i used w
    unfold autoSize
    split_ifs <;> rfl
  have hcreate : ∀ m i top w, (createWindow m screenWidth i top w).2.settings = w.settings := by
    intro m i top w
    unfold createWindow
    split_ifs <;> rfl
  unfold drawScreen at h
  dsimp only at h
  split at h
  · cases h
  · cases h
    rw [eachWindow_map (hcreate _)]
    split
    · rw [map_modify_settings, eachWindow_map (hcalculate _), eachWindow_map hfind]
      intro w
      rfl
    · rw [eachWindow_map (hsize _ _), eachWindow_map (hcalculate _), eachWindow_map hfind]

end Squash.Display
