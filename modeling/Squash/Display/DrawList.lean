import Squash.Display.LineBuffer
import Squash.Playlist.Selection

/-!
# The lists of songs

`draw_list` draws the entries of a queue, one on each row between the column headers and the bottom
border. When there are more entries than rows it starts at a later entry, so that the selection is
near the middle; the selection may be behind the end of a queue that is still being filled.

`InWindow` says what should be seen. Scrolling keeps the selection on a row (`listWindow_shows`), but a
queue that fits is never scrolled, however far ahead its selection is: `drawList_inWindow_iff` has the
exact condition, and `drawList_below_border` is a run of `do_arrow` that leads there.

The border, the headers and the colours are left out.
-/

namespace Squash.Display

open LinkedList

/-! ## `draw_list` -/

def titleSet : List (List Char) := ["title".toList]

def artistSet : List (List Char) := ["artist".toList, "artist_original".toList]

def albumSet : List (List Char) := ["album".toList, "album_original".toList]

/-- A call of `draw_meta_string`. -/
structure MetaCall where
  songInfo : Nat
  keySet : List (List Char)
  top : Int
  left : Int
  width : Int
  deriving DecidableEq, Repr

/-- "Print playlist information", in a window of this width. -/
def metaCalls (winWidth : Int) (songInfo : Nat) (top : Int) : List MetaCall :=
  let colWidth := (winWidth - 8).tdiv 3
  [⟨songInfo, artistSet, top, 2, colWidth⟩, ⟨songInfo, titleSet, top, colWidth + 4, colWidth⟩,
    ⟨songInfo, albumSet, top, 2 * colWidth + 6, colWidth⟩]

/-- A row of the list; the one that is selected has its own colour. -/
structure Row where
  calls : List MetaCall
  isSelected : Bool
  deriving DecidableEq, Repr

/-- What is drawn of a queue with entries. `highlight` is the row of the line behind the selected
entry. -/
structure ListView where
  startIndex : Int
  upArrow : Bool
  downArrow : Bool
  highlight : Option Int
  rows : List Row
  deriving DecidableEq, Repr

inductive ListContent where
  | message (text : Printed)
  | entries (view : ListView)
  deriving DecidableEq, Repr

/-- "Update the number of rows to display": `list_height` and `start_index`. -/
def listWindow (size wantedSize selected listHeight : Int) : Int × Int :=
  if size ≤ listHeight then (size, 0)
  else
    let startIndex := selected - listHeight.tdiv 2
    let maxSize := if size > wantedSize then size else wantedSize
    if startIndex < 0 then (listHeight, 0)
    else if startIndex + listHeight > maxSize then (listHeight, maxSize - listHeight)
    else (listHeight, startIndex)

/-- "Move to the correct queue entry". -/
def skipEntries (H : Heap SongQueueEntry) : Nat → Option Nat → Option (Option Nat)
  | 0, curQueueEntry => some curQueueEntry
  | _ + 1, none => some none
  | n + 1, some a => do
    let cell ← H.read a
    skipEntries H n cell.next

/-- "Print the queue", with `n` rows to go; `selectedRow` is `queue->selected - start_index` when the
list has the focus. -/
def printQueue (winWidth : Int) (H : Heap SongQueueEntry) (selectedRow : Option Int) :
    Nat → Int → Option Nat → Option (List Row)
  | 0, _, _ => some []
  | _ + 1, _, none => some []
  | n + 1, i, some a => do
    let cell ← H.read a
    let rows ← printQueue winWidth H selectedRow n (i + 1) cell.next
    return ⟨metaCalls winWidth cell.val.songInfo (i + 2), selectedRow = some i⟩ :: rows

/-- `draw_list`, for the queue of the window, with the queue after it. -/
def drawList (loading haveFocus : Bool) (wantedSize winHeight winWidth : Int) (q : SongQueue) :
    Option (SongQueue × ListContent) :=
  let listHeight := winHeight - 3
  if q.size ≤ 0 then
    let text := if loading then "-- Database loading...... --" else "-- No Entries in Playlist --"
    some (q, .message ⟨3, winWidth.tdiv 2 - 14, text.toList⟩)
  else do
    let q := q.drawList wantedSize
    let (listHeight, startIndex) := listWindow q.size wantedSize q.selected listHeight
    let selectedRow := if haveFocus then some (q.selected - startIndex) else none
    let curQueueEntry ← skipEntries q.heap startIndex.toNat q.head
    let rows ← printQueue winWidth q.heap selectedRow listHeight.toNat 0 curQueueEntry
    return (q, .entries {
      startIndex
      -- a list that fits has no arrows
      upArrow := decide (startIndex > 0)
      downArrow := decide (startIndex + listHeight < q.size)
      highlight := if q.selected ≥ 0 then selectedRow.map (· + 2) else none
      rows })

/-! ## The property -/

/-- The view of a queue of this size with the entries `entries`, as it should be. -/
structure InWindow (winHeight winWidth : Int) (haveFocus : Bool) (size : Int)
    (entries : List SongQueueEntry) (view : ListView) : Prop where
  start : 0 ≤ view.startIndex
  rows : ∀ (i : Nat) row, view.rows[i]? = some row →
    ∃ entry, entries[view.startIndex.toNat + i]? = some entry ∧
      row.calls = metaCalls winWidth entry.songInfo (i + 2)
  /-- the rows end where there is no more room, or no more entry -/
  complete : (view.rows.length : Int) = winHeight - 3 ∨ (view.rows.length : Int) = size ∨
    entries.length ≤ view.startIndex.toNat + view.rows.length
  inside : ∀ row ∈ view.rows, ∀ call ∈ row.calls, call.top < winHeight - 1
  highlighted : haveFocus = true → ∃ top, view.highlight = some top ∧ 2 ≤ top ∧ top < winHeight - 1

/-! ## Scrolling -/

section Scrolling

variable {size wantedSize selected listHeight : Int}

theorem listWindow_fits (h : size ≤ listHeight) :
    listWindow size wantedSize selected listHeight = (size, 0) := if_pos h

/-- A list that does not fit fills the rows. -/
theorem listWindow_height (h : listHeight < size) :
    (listWindow size wantedSize selected listHeight).1 = listHeight := by
  rw [listWindow, if_neg (by omega)]
  generalize (if size > wantedSize then size else wantedSize) = maxSize
  dsimp only
  split
  · rfl
  · split <;> rfl

/-- **Scrolling keeps the selection on a row**, wherever it is. -/
theorem listWindow_shows (h : listHeight < size) (hrow : 0 < listHeight) (hselected : 0 ≤ selected)
    (hmax : selected < size ∨ selected < wantedSize) :
    let startIndex := (listWindow size wantedSize selected listHeight).2
    0 ≤ startIndex ∧ startIndex ≤ selected ∧ selected < startIndex + listHeight := by
  have hhalf : listHeight.tdiv 2 = listHeight / 2 := Int.tdiv_eq_ediv_of_nonneg hrow.le
  obtain ⟨maxSize, hmaxSize, _, hmax⟩ : ∃ maxSize,
      (if size > wantedSize then size else wantedSize) = maxSize ∧ size ≤ maxSize ∧
        selected < maxSize := by
    refine ⟨_, rfl, ?_, ?_⟩ <;> split <;> omega
  rw [listWindow, if_neg (by omega), hhalf, hmaxSize]
  dsimp only
  split
  · omega
  · split <;> dsimp only <;> omega

/-- The rows and the first entry are in range, wherever the selection is. -/
theorem listWindow_inRange (hrow : 0 < listHeight) (hselected : 0 ≤ selected)
    (hmax : selected < size ∨ selected < wantedSize) :
    0 ≤ (listWindow size wantedSize selected listHeight).2 ∧
      (listWindow size wantedSize selected listHeight).1 ≤ listHeight ∧
      ((listWindow size wantedSize selected listHeight).1 = listHeight ∨
        (listWindow size wantedSize selected listHeight).1 = size) := by
  by_cases hfits : size ≤ listHeight
  · rw [listWindow_fits hfits]
    exact ⟨Int.le_refl 0, hfits, .inr rfl⟩
  · have hheight : (listWindow size wantedSize selected listHeight).1 = listHeight :=
      listWindow_height (by omega)
    have hshows := listWindow_shows (by omega : listHeight < size) hrow hselected hmax
    exact ⟨hshows.1, hheight.le, .inl hheight⟩

end Scrolling

/-! ## The entries -/

section Entries

variable {H : Heap SongQueueEntry} {p : Option Nat} {l : List (Nat × SongQueueEntry)}

theorem skipEntries_eq (h : IsList H p l) (n : Nat) :
    ∃ p', skipEntries H n p = some p' ∧ IsList H p' (l.drop n) := by
  induction n generalizing p l with
  | zero => exact ⟨p, rfl, h⟩
  | succ n ih =>
      cases l with
      | nil =>
          obtain rfl := h.nil_inv
          exact ⟨none, rfl, h⟩
      | cons c l =>
          obtain ⟨rfl, next, hread, hrest⟩ := h.cons_inv
          obtain ⟨p', hskip, hlist⟩ := ih hrest
          refine ⟨p', ?_, hlist⟩
          rw [skipEntries, hread]
          exact hskip

/-- A row for each entry, as long as there are rows. -/
theorem printQueue_eq (winWidth : Int) (selectedRow : Option Int) (h : IsList H p l) (n : Nat)
    (i : Int) :
    ∃ rows, printQueue winWidth H selectedRow n i p = some rows ∧
      rows.length ≤ n ∧ (rows.length = n ∨ l.length ≤ rows.length) ∧
      ∀ (k : Nat) row, rows[k]? = some row → ∃ c, l[k]? = some c ∧
        row.calls = metaCalls winWidth c.2.songInfo (i + k + 2) := by
  induction n generalizing p l i with
  | zero => exact ⟨[], rfl, Nat.le_refl 0, .inl rfl, by simp⟩
  | succ n ih =>
      cases l with
      | nil =>
          obtain rfl := h.nil_inv
          exact ⟨[], rfl, Nat.zero_le _, .inr (Nat.le_refl 0), by simp⟩
      | cons c l =>
          obtain ⟨rfl, next, hread, hrest⟩ := h.cons_inv
          obtain ⟨rows, hprint, hle, hlength, hrows⟩ := ih hrest (i + 1)
          refine ⟨⟨metaCalls winWidth c.2.songInfo (i + 2), selectedRow = some i⟩ :: rows,
            ?_, ?_, ?_, ?_⟩
          · rw [printQueue, hread]
            show (printQueue winWidth H selectedRow n (i + 1) next).bind _ = _
            rw [hprint]
            rfl
          · exact Nat.succ_le_succ hle
          · rw [List.length_cons, List.length_cons]
            omega
          · intro k row hrow
            cases k with
            | zero =>
                cases hrow
                refine ⟨c, rfl, ?_⟩
                rw [Int.natCast_zero, Int.add_zero]
            | succ k =>
                obtain ⟨d, hd, hcalls⟩ := hrows k row hrow
                refine ⟨d, hd, ?_⟩
                rw [hcalls, show i + 1 + (k : Int) + 2 = i + (k + 1 : Nat) + 2 by push_cast; omega]

end Entries

theorem top_of_mem_metaCalls {winWidth top : Int} {songInfo : Nat} {call : MetaCall}
    (h : call ∈ metaCalls winWidth songInfo top) : call.top = top := by
  simp only [metaCalls, List.mem_cons, List.not_mem_nil, or_false] at h
  rcases h with rfl | rfl | rfl <;> rfl

/-! ## The view -/

theorem drawList_selected {q : SongQueue} {wantedSize : Int}
    (h : q.selected < q.size ∨ q.selected < wantedSize) : q.drawList wantedSize = q := by
  refine if_neg ?_
  rintro ⟨-, hsize, hselected⟩
  omega

/-- What is drawn of a queue with entries. -/
theorem drawList_eq {q : SongQueue} {l : List (Nat × SongQueueEntry)} (h : IsList q.heap q.head l)
    (loading haveFocus : Bool) {wantedSize : Int} (winHeight winWidth : Int) (hsize : 1 ≤ q.size)
    (hselected : 0 ≤ q.selected) (hmax : q.selected < q.size ∨ q.selected < wantedSize) :
    ∃ view, drawList loading haveFocus wantedSize winHeight winWidth q = some (q, .entries view) ∧
      view.startIndex = (listWindow q.size wantedSize q.selected (winHeight - 3)).2 ∧
      view.highlight = (if haveFocus then some (q.selected - view.startIndex + 2) else none) ∧
      view.rows.length ≤ (listWindow q.size wantedSize q.selected (winHeight - 3)).1.toNat ∧
      (view.rows.length = (listWindow q.size wantedSize q.selected (winHeight - 3)).1.toNat ∨
        l.length ≤ view.startIndex.toNat + view.rows.length) ∧
      ∀ (i : Nat) row, view.rows[i]? = some row →
        ∃ entry, (l.map Prod.snd)[view.startIndex.toNat + i]? = some entry ∧
          row.calls = metaCalls winWidth entry.songInfo (i + 2) := by
  rw [drawList, if_neg (by omega), drawList_selected hmax]
  dsimp only
  generalize listWindow q.size wantedSize q.selected (winHeight - 3) = window
  obtain ⟨listHeight, startIndex⟩ := window
  obtain ⟨p, hskip, hlist⟩ := skipEntries_eq h startIndex.toNat
  obtain ⟨rows, hprint, hle, hlength, hrows⟩ := printQueue_eq winWidth
    (if haveFocus then some (q.selected - startIndex) else none) hlist listHeight.toNat 0
  rw [hskip]
  show ∃ view, ((printQueue _ _ _ _ _ _).bind _) = _ ∧ _
  rw [hprint]
  rw [List.length_drop] at hlength
  refine ⟨_, rfl, rfl, ?_, hle, ?_, ?_⟩
  · show (if q.selected ≥ 0 then _ else _) = _
    rw [if_pos hselected]
    cases haveFocus <;> rfl
  · show rows.length = listHeight.toNat ∨ l.length ≤ startIndex.toNat + rows.length
    omega
  · intro i row hrow
    obtain ⟨c, hc, hcalls⟩ := hrows i row hrow
    refine ⟨c.2, ?_, by rw [hcalls, Int.zero_add]⟩
    rw [List.getElem?_drop] at hc
    rw [List.getElem?_map]
    exact congrArg (Option.map Prod.snd) hc

/-- **The view is in its window just when the selection is on a row that is there**: a list with the
focus either scrolls, or its selection is not ahead of the rows. -/
theorem drawList_inWindow_iff {q : SongQueue} {l : List (Nat × SongQueueEntry)}
    (h : IsList q.heap q.head l) (loading haveFocus : Bool) {wantedSize winHeight : Int}
    (winWidth : Int) (hsize : 1 ≤ q.size) (hselected : 0 ≤ q.selected)
    (hmax : q.selected < q.size ∨ q.selected < wantedSize) (hheight : 4 ≤ winHeight) :
    (∃ view, drawList loading haveFocus wantedSize winHeight winWidth q = some (q, .entries view) ∧
      InWindow winHeight winWidth haveFocus q.size (l.map Prod.snd) view) ↔
      (haveFocus = true → winHeight - 3 < q.size ∨ q.selected < winHeight - 3) := by
  obtain ⟨view, hdraw, hstart, hhighlight, hle, hlength, hrows⟩ :=
    drawList_eq h loading haveFocus winHeight winWidth hsize hselected hmax
  have hview : (∃ view, drawList loading haveFocus wantedSize winHeight winWidth q =
      some (q, .entries view) ∧ InWindow winHeight winWidth haveFocus q.size (l.map Prod.snd) view) ↔
      InWindow winHeight winWidth haveFocus q.size (l.map Prod.snd) view := by
    rw [hdraw]
    simp
  rw [hview]
  -- all but the highlighted row is right in any case
  have hinRange := listWindow_inRange (by omega : 0 < winHeight - 3) hselected hmax
  rw [← hstart] at hinRange
  have hcomplete : (view.rows.length : Int) = winHeight - 3 ∨ (view.rows.length : Int) = q.size ∨
      (l.map Prod.snd).length ≤ view.startIndex.toNat + view.rows.length := by
    rw [List.length_map]
    omega
  constructor
  · intro hwindow hfocus
    obtain ⟨top, htop, -, hbelow⟩ := hwindow.highlighted hfocus
    rw [hhighlight, if_pos hfocus] at htop
    cases htop
    by_cases hfits : q.size ≤ winHeight - 3
    · rw [listWindow_fits hfits] at hstart
      exact .inr (by omega)
    · exact .inl (by omega)
  · intro hrow
    refine ⟨hinRange.1, hrows, hcomplete, ?_, ?_⟩
    · intro row hmem call hcall
      obtain ⟨i, hi⟩ := List.mem_iff_getElem?.mp hmem
      obtain ⟨entry, -, hcalls⟩ := hrows i row hi
      obtain ⟨hlt, -⟩ := List.getElem?_eq_some_iff.mp hi
      rw [hcalls] at hcall
      rw [top_of_mem_metaCalls hcall]
      omega
    · intro hfocus
      refine ⟨_, hhighlight.trans (if_pos hfocus), ?_⟩
      by_cases hfits : q.size ≤ winHeight - 3
      · rw [listWindow_fits hfits] at hstart
        rcases hrow hfocus with hrow | hrow <;> constructor <;> omega
      · have hshows := listWindow_shows (by omega : winHeight - 3 < q.size) (by omega) hselected
          hmax
        rw [← hstart] at hshows
        constructor <;> omega

/-! ## The arrow keys -/

/-- The arrow keys leave the selection where `draw_list` expects it. -/
theorem doArrow_selected (s : SelectionState) (direction : Direction) (height : Option Int)
    (hfocus : s.focus = .playlist) (hmax : 0 < s.maxSize) :
    0 ≤ (doArrow s direction height).songQueue.selected ∧
      ((doArrow s direction height).songQueue.selected < s.songQueue.size ∨
        (doArrow s direction height).songQueue.selected < s.wantedSize) := by
  have harrow : (doArrow s direction height).songQueue.selected =
      clipSelected (moveSelected direction (listHeight height) s.songQueue.selected s.maxSize)
        s.maxSize := by
    rw [doArrow, hfocus]
    rfl
  rw [harrow]
  generalize moveSelected direction (listHeight height) s.songQueue.selected s.maxSize = moved
  have hclip : 0 ≤ clipSelected moved s.maxSize ∧ clipSelected moved s.maxSize < s.maxSize := by
    unfold clipSelected
    split
    · omega
    · split <;> omega
  generalize clipSelected moved s.maxSize = selected at hclip ⊢
  refine ⟨hclip.1, ?_⟩
  unfold SelectionState.maxSize at hclip
  split at hclip
  · exact .inr hclip.2
  · exact .inl hclip.2

/-- One song is in the playlist, nine are to come; the key for its end selects the last of them, and
five rows of the window leave two to the list. -/
def fillingState : SelectionState where
  focus := .playlist
  songQueue := ⟨[some ⟨⟨7, 0⟩, none⟩], some 0, some 0, 1, 0⟩
  wantedSize := 10
  pastQueue := ⟨[], none, none, 0, 0⟩
  pastWantedSize := 10
  playing := none

theorem drawList_below_border :
    (doArrow fillingState .end_ (some 5)).songQueue.selected = 9 ∧
      ¬ ∃ view, drawList false true 10 5 80 (doArrow fillingState .end_ (some 5)).songQueue =
          some ((doArrow fillingState .end_ (some 5)).songQueue, .entries view) ∧
        InWindow 5 80 true 1 [⟨7, 0⟩] view := by
  refine ⟨by decide, ?_⟩
  rintro ⟨view, hdraw, hwindow⟩
  have hview : drawList false true 10 5 80 (doArrow fillingState .end_ (some 5)).songQueue =
      some ((doArrow fillingState .end_ (some 5)).songQueue,
        .entries ⟨0, false, false, some 11, [⟨metaCalls 80 7 2, false⟩]⟩) := by
    decide
  rw [hview] at hdraw
  cases hdraw
  obtain ⟨top, htop, -, hbelow⟩ := hwindow.highlighted rfl
  cases htop
  exact absurd hbelow (by decide)

theorem drawList_inWindow_iff_filling :
    (∃ view, drawList false true 10 5 80 fillingState.songQueue =
        some (fillingState.songQueue, .entries view) ∧
      InWindow 5 80 true 1 ([(0, ⟨7, 0⟩)].map Prod.snd) view) ↔
      (true = true → (5 : Int) - 3 < 1 ∨ (0 : Int) < 5 - 3) :=
  drawList_inWindow_iff (q := fillingState.songQueue) (l := [(0, ⟨7, 0⟩)])
    (.cons rfl (.nil none)) false true 80 (by decide) (by decide) (by decide) (by decide)

end Squash.Display
