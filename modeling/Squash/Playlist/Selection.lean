import Squash.Playlist.PastQueue
import Squash.Stat.Aggregates

/-!
# The selection

Each of the two queues has an entry that is selected on the display. The selection moves when a key
is pressed and when a list is drawn, while other threads append and take out entries, so it may
point behind the end of its queue. Whoever needs the selected song looks at the selection first, and
then walks to the entry.

The selection stays usable as long as two things do not happen (`always_usable_iff`): `do_arrow` puts
it at -1 when there is nothing to select, and the screens of the EMPEG that show the selected song
walk off the end of the queue when the selection is behind it.
-/

namespace Squash

open LinkedList Transition SongQueue

/-- The part of the program's state that the selection depends on. -/
structure SelectionState where
  /-- `display_info.focus` -/
  focus : Focus
  songQueue : SongQueue
  /-- `song_queue.wanted_size` -/
  wantedSize : Int
  pastQueue : SongQueue
  /-- `past_queue.wanted_size` -/
  pastWantedSize : Int
  /-- `player_info.song` -/
  playing : Option Nat

/-! ## Moving the selection -/

/-- `enum direction_e`. -/
inductive Direction where
  | up | down | pageUp | pageDown | home | end_ | left | right
  deriving DecidableEq, Repr

/-- `ysize` in `do_arrow`; a window that is not there has no height. -/
def listHeight (height : Option Int) : Int :=
  match height with
  | none => 0
  | some height => if height - 3 < 0 then 0 else height - 3

/-- `*selected + delta`. -/
def moveSelected (direction : Direction) (ysize selected maxSize : Int) : Int :=
  match direction with
  | .up => selected - 1
  | .down => selected + 1
  | .pageUp => selected + (-ysize).tdiv 2
  | .pageDown => selected + ysize.tdiv 2
  | .home => 0
  | .end_ => maxSize - 1
  | .left | .right => selected

def clipSelected (selected maxSize : Int) : Int :=
  if selected < 0 then 0 else if selected ≥ maxSize then maxSize - 1 else selected

def SongQueue.arrow (q : SongQueue) (direction : Direction) (height : Option Int) (maxSize : Int) :
    SongQueue :=
  { q with
    selected := clipSelected (moveSelected direction (listHeight height) q.selected maxSize) maxSize }

/-- `*max_size` for the song queue. -/
def SelectionState.maxSize (s : SelectionState) : Int :=
  if s.wantedSize > s.songQueue.size then s.wantedSize else s.songQueue.size

/-- `do_arrow`, with the height of the window that has the focus. -/
def doArrow (s : SelectionState) (direction : Direction) (height : Option Int) : SelectionState :=
  match s.focus with
  | .playlist => { s with songQueue := s.songQueue.arrow direction height s.maxSize }
  | .pastlist => { s with pastQueue := s.pastQueue.arrow direction height s.pastQueue.size }
  | _ => s

/-- What `draw_list` does to the selection of a queue whose window is there. -/
def SongQueue.drawList (q : SongQueue) (wantedSize : Int) : SongQueue :=
  if 0 < q.size ∧ q.size ≥ wantedSize ∧ q.selected ≥ q.size then
    { q with selected := q.size - 1 }
  else q

/-- `draw_list` on the windows that are shown. -/
def drawLists (s : SelectionState) (playlist pastlist : Bool) : SelectionState :=
  { s with
    songQueue := if playlist then s.songQueue.drawList s.wantedSize else s.songQueue
    pastQueue := if pastlist then s.pastQueue.drawList s.pastWantedSize else s.pastQueue }

/-- `do_tab`, up to the drawing. -/
def Focus.next : Focus → Focus
  | .nowPlaying => .playlist
  | .playlist => .pastlist
  | .pastlist => .nowPlaying
  | .other => .other

/-- The left button of the EMPEG, on the screen with the playlist. -/
def SongQueue.selectPrevious (q : SongQueue) : SongQueue :=
  if q.selected > 0 then { q with selected := q.selected - 1 } else q

/-- The right button. -/
def SongQueue.selectNext (q : SongQueue) : SongQueue :=
  if q.selected < q.size - 1 then { q with selected := q.selected + 1 } else q

/-! ## Using the selection -/

/-- The song that `do_song_rating_adjust` and `do_edit_command` work on, by the window that has the
focus. -/
def SelectionState.songInFocus (s : SelectionState) : Option (Option Nat) :=
  match s.focus with
  | .nowPlaying => some s.playing
  | .playlist => s.songQueue.selectedSong
  | .pastlist => s.pastQueue.selectedSong
  | .other => some none

/-- The loop of `draw_empeg_display` that counts up to the selected entry. -/
def seekSelected (H : Heap SongQueueEntry) (selected : Int) :
    Nat → Option Nat → Int → Option (Option Nat)
  | _, none, _ => some none
  | 0, some a, i => if i = selected then some (some a) else none
  | fuel + 1, some a, i =>
    if i = selected then some (some a)
    else do
      let cell ← H.read a
      seekSelected H selected fuel cell.next (i + 1)

/-- The song on the screens `EMPEG_SCREEN_PLAYLIST_SONG_INFO` and
`EMPEG_SCREEN_PLAYLIST_RATE_SONG`. -/
def SongQueue.drawnSong (q : SongQueue) : Option (Option Nat) := do
  let curQueueEntry ← seekSelected q.heap q.selected q.heap.length q.head 0
  let entry ← curQueueEntry
  let cell ← q.heap.read entry
  return some cell.val.songInfo

/-- The entry at index `selected`, when `selected < size`. -/
def SongQueue.selectedEntry (q : SongQueue) : Option SongQueueEntry :=
  if 0 ≤ q.selected ∧ q.selected < q.size then
    (q.heap.values q.heap.length q.head).bind fun entries => entries[q.selected.toNat]?
  else none

/-- The song that is meant by the focus. -/
def SelectionState.songMeant (s : SelectionState) : Option Nat :=
  match s.focus with
  | .nowPlaying => s.playing
  | .playlist => s.songQueue.selectedEntry.map SongQueueEntry.songInfo
  | .pastlist => s.pastQueue.selectedEntry.map SongQueueEntry.songInfo
  | .other => none

/-- A use of the selection: the song that was meant, and the one that was used. A use that follows a
null pointer has none. -/
structure Use where
  meant : Option Nat
  used : Option (Option Nat)
  deriving DecidableEq, Repr

/-! ## Steps -/

inductive SelectionStep where
  | doTab (playlist pastlist : Bool)
  | drawLists (playlist pastlist : Bool)
  | doArrow (direction : Direction) (height : Option Int)
  | selectPrevious
  | selectNext
  | playlistQueueSong (song : Nat) (startPosition : Int)
  | getNextSongInfo
  | doneWithSongInfo (entry : SongQueueEntry)
  | doDelete
  | doRemovePlaylistEntry
  | setWantedSize (wantedSize : Int)
  | setPlaying (song : Option Nat)
  | doSongRatingAdjust
  | doEditCommand
  | drawSongInfo
  | drawRateSong
  deriving DecidableEq, Repr

/-- One step, of either build, and the uses of the selection in it. The program ends where it
follows a null pointer, but for the use, which is reported. -/
def selectionStep (s : SelectionState) : SelectionStep → Option (SelectionState × List Use)
  | .doTab playlist pastlist =>
    some (Squash.drawLists { s with focus := s.focus.next } playlist pastlist, [])
  | .drawLists playlist pastlist => some (Squash.drawLists s playlist pastlist, [])
  | .doArrow direction height => some (Squash.doArrow s direction height, [])
  | .selectPrevious => some ({ s with songQueue := s.songQueue.selectPrevious }, [])
  | .selectNext => some ({ s with songQueue := s.songQueue.selectNext }, [])
  | .playlistQueueSong song startPosition =>
    (s.songQueue.queueSong ⟨song, startPosition⟩).map fun songQueue => ({ s with songQueue }, [])
  | .getNextSongInfo =>
    s.songQueue.getNextSongInfo.map fun r => ({ s with songQueue := r.1 }, [])
  | .doneWithSongInfo entry =>
    (s.pastQueue.doneWithSongInfo s.pastWantedSize entry).map fun pastQueue =>
      ({ s with pastQueue }, [])
  | .doDelete =>
    match s.focus with
    | .playlist => s.songQueue.doDelete.map fun songQueue => ({ s with songQueue }, [])
    | _ => some (s, [])
  | .doRemovePlaylistEntry =>
    s.songQueue.doRemovePlaylistEntry.map fun songQueue => ({ s with songQueue }, [])
  | .setWantedSize wantedSize => some ({ s with wantedSize }, [])
  | .setPlaying playing => some ({ s with playing }, [])
  | .doSongRatingAdjust | .doEditCommand => some (s, [⟨s.songMeant, s.songInFocus⟩])
  | .drawSongInfo | .drawRateSong =>
    some (s, [⟨s.songQueue.selectedEntry.map SongQueueEntry.songInfo, s.songQueue.drawnSong⟩])

/-! ## What a represented queue gives -/

variable {q : SongQueue} {e : Entries}

theorem SongQueue.Represents.select (h : Represents q e) {selected : Int} (hs : 0 ≤ selected) :
    Represents { q with selected } { e with selected := selected.toNat } := by
  obtain ⟨l, hl, hentries⟩ := h.wellFormed
  exact ⟨⟨l, ⟨hl.list, hl.tail, hl.size⟩, hentries⟩, (Int.toNat_of_nonneg hs).symm⟩

theorem SongQueue.Represents.nonneg (h : Represents q e) : 0 ≤ q.selected := by
  rw [h.selected]
  exact Int.natCast_nonneg e.selected

theorem SongQueue.Represents.selectedEntry (h : Represents q e) :
    q.selectedEntry = e.entries[e.selected]? := by
  obtain ⟨l, hl, hentries⟩ := h.wellFormed
  have hvalues := hl.list.values_eq hl.list.length_le
  rw [hentries] at hvalues
  unfold SongQueue.selectedEntry
  rw [h.size, h.selected, hvalues]
  by_cases hlt : e.selected < e.entries.length
  · rw [if_pos (by omega)]
    rfl
  · rw [if_neg (by omega), List.getElem?_eq_none (by omega)]

/-- The loop from the head finds the selected entry. -/
theorem SongQueue.Represents.selectedSong (h : Represents q e) :
    q.selectedSong = some (q.selectedEntry.map SongQueueEntry.songInfo) := by
  rw [h.selectedEntry]
  obtain ⟨l, hl, hentries⟩ := h.wellFormed
  unfold SongQueue.selectedSong
  rw [h.selected, hl.size, ← hentries, List.getElem?_map]
  cases hcell : l[e.selected]? with
  | none =>
      have hle := List.getElem?_eq_none_iff.mp hcell
      rw [if_neg (by omega)]
      rfl
  | some c =>
      obtain ⟨hlt, -⟩ := List.getElem?_eq_some_iff.mp hcell
      obtain ⟨last, hwalk⟩ := walk_getElem? hl.list hcell
      obtain ⟨n, hread⟩ := hl.list.read_of_getElem? hcell
      rw [if_pos (by omega), Int.toNat_natCast, hwalk]
      simp [hread]

theorem seekSelected_eq {H : Heap SongQueueEntry} {p : Option Nat}
    {l : List (Nat × SongQueueEntry)} (h : IsList H p l) {fuel i selected : Nat}
    (hfuel : l.length ≤ fuel) (hi : i ≤ selected) :
    seekSelected H selected fuel p i = some (l[selected - i]?.map Prod.fst) := by
  induction l generalizing p fuel i with
  | nil =>
      obtain rfl := h.nil_inv
      cases fuel <;> rfl
  | cons c l ih =>
      obtain ⟨rfl, n, hread, hrest⟩ := h.cons_inv
      cases fuel with
      | zero => simp at hfuel
      | succ fuel =>
          rw [seekSelected]
          by_cases heq : i = selected
          · subst heq
            simp
          · have hne : ¬ (i : Int) = selected := by omega
            have hindex : selected - i = (selected - (i + 1)) + 1 := by omega
            have hfuel' : l.length ≤ fuel := by simpa using hfuel
            have hi' : i + 1 ≤ selected := by omega
            rw [if_neg hne, hread, hindex, List.getElem?_cons_succ, ← ih hrest hfuel' hi']
            rfl

/-- The screens of the EMPEG find the selected entry too, but only if there is one. -/
theorem SongQueue.Represents.drawnSong (h : Represents q e) :
    q.drawnSong = (q.selectedEntry.map SongQueueEntry.songInfo).map some := by
  rw [h.selectedEntry]
  obtain ⟨l, hl, hentries⟩ := h.wellFormed
  have hseek := seekSelected_eq hl.list hl.list.length_le (Nat.zero_le e.selected)
  unfold SongQueue.drawnSong
  rw [h.selected]
  show (seekSelected q.heap e.selected q.heap.length q.head ((0 : Nat) : Int)).bind _ = _
  rw [hseek, Nat.sub_zero, ← hentries, List.getElem?_map]
  cases hcell : l[e.selected]? with
  | none => rfl
  | some c =>
      obtain ⟨n, hread⟩ := hl.list.read_of_getElem? hcell
      simp [hread]

/-! ## Steps on represented queues -/

theorem clipSelected_nonneg_iff {selected maxSize : Int} :
    0 ≤ clipSelected selected maxSize ↔ 0 < maxSize ∨ selected < 0 := by
  unfold clipSelected
  split
  · omega
  · split <;> omega

theorem SongQueue.Represents.arrow (h : Represents q e) {direction : Direction}
    {height : Option Int} {maxSize : Int}
    (hs : 0 < maxSize ∨ moveSelected direction (listHeight height) q.selected maxSize < 0) :
    ∃ e', Represents (q.arrow direction height maxSize) e' :=
  ⟨_, h.select (clipSelected_nonneg_iff.mpr hs)⟩

theorem SongQueue.Represents.drawList (h : Represents q e) (wantedSize : Int) :
    ∃ e', Represents (q.drawList wantedSize) e' := by
  unfold SongQueue.drawList
  split
  · next hclip => exact ⟨_, h.select (by omega)⟩
  · exact ⟨e, h⟩

theorem SongQueue.Represents.selectPrevious (h : Represents q e) :
    ∃ e', Represents q.selectPrevious e' := by
  unfold SongQueue.selectPrevious
  split
  · next hpos => exact ⟨_, h.select (by omega)⟩
  · exact ⟨e, h⟩

theorem SongQueue.Represents.selectNext (h : Represents q e) :
    ∃ e', Represents q.selectNext e' := by
  unfold SongQueue.selectNext
  split
  · have hnonneg := h.nonneg
    exact ⟨_, h.select (by omega)⟩
  · exact ⟨e, h⟩

/-- The operations of the song queue. -/
theorem SongQueue.Represents.operate (h : Represents q e) (o : Operation) {q' : SongQueue}
    (hq' : q.operate o = some q') : ∃ e', Represents q' e' := by
  obtain ⟨q'', hq'', hrep⟩ := operate_represents q e o h
  rw [hq'] at hq''
  cases hq''
  exact ⟨_, hrep⟩

theorem SongQueue.Represents.doneWithSongInfo (h : Represents q e) {wantedSize : Int}
    {entry : SongQueueEntry} {q' : SongQueue}
    (hq' : q.doneWithSongInfo wantedSize entry = some q') : ∃ e', Represents q' e' := by
  obtain ⟨l, hl, hentries⟩ := h.wellFormed
  have hwanted : 0 < wantedSize := by
    by_contra hle
    rw [doneWithSongInfo_zero hl (Int.not_lt.mp hle)] at hq'
    cases hq'
  obtain ⟨q'', l', hdone, hwell, -, hsame⟩ := doneWithSongInfo_wellFormed hl hwanted entry
  rw [hq'] at hdone
  cases hdone
  exact ⟨⟨l'.map Prod.snd, e.selected⟩, ⟨l', hwell, rfl⟩, hsame.trans h.selected⟩

/-! ## Whole runs -/

/-- The selections are not negative, and every use was of the song that was meant. -/
def Usable (s : SelectionState × List Use) : Prop :=
  0 ≤ s.1.songQueue.selected ∧ 0 ≤ s.1.pastQueue.selected ∧
    ∀ use ∈ s.2, use.used = some use.meant

/-- An arrow key does not move the selection to the end of a list that has no end, and the screens of
the EMPEG that show the selected song are drawn only while there is one. -/
def KeepsSelection (s : SelectionState × List Use) : SelectionStep → Prop
  | .doArrow direction height =>
    match s.1.focus with
    | .playlist => 0 < s.1.maxSize ∨
      moveSelected direction (listHeight height) s.1.songQueue.selected s.1.maxSize < 0
    | .pastlist => 0 < s.1.pastQueue.size ∨
      moveSelected direction (listHeight height) s.1.pastQueue.selected s.1.pastQueue.size < 0
    | _ => True
  | .drawSongInfo | .drawRateSong => s.1.songQueue.selected < s.1.songQueue.size
  | _ => True

/-- Both queues are lists with a selection, and the uses were right. -/
structure SelectionInv (s : SelectionState × List Use) : Prop where
  songQueue : ∃ e, Represents s.1.songQueue e
  pastQueue : ∃ e, Represents s.1.pastQueue e
  uses : ∀ use ∈ s.2, use.used = some use.meant

theorem SelectionInv.usable {s : SelectionState × List Use} (h : SelectionInv s) : Usable s := by
  obtain ⟨e, he⟩ := h.songQueue
  obtain ⟨e', he'⟩ := h.pastQueue
  exact ⟨he.nonneg, he'.nonneg, h.uses⟩

variable {s t : SelectionState} {uses : List Use}

/-- A step that does not use the selection. -/
theorem SelectionInv.quiet (h : SelectionInv (s, uses))
    (hsong : ∃ e, Represents t.songQueue e) (hpast : ∃ e, Represents t.pastQueue e) :
    SelectionInv (t, uses ++ []) := by
  rw [List.append_nil]
  exact ⟨hsong, hpast, h.uses⟩

/-- The song queue goes on, the past queue stays. -/
theorem SelectionInv.operate (h : SelectionInv (s, uses)) (o : Operation) {q : SongQueue}
    (hq : s.songQueue.operate o = some q) :
    SelectionInv ({ s with songQueue := q }, uses ++ []) := by
  obtain ⟨e, he⟩ := h.songQueue
  apply h.quiet
  · exact he.operate o hq
  · exact h.pastQueue

theorem SelectionInv.drawLists (h : SelectionInv (s, uses)) (playlist pastlist : Bool) :
    (∃ e, Represents (Squash.drawLists s playlist pastlist).songQueue e) ∧
      ∃ e, Represents (Squash.drawLists s playlist pastlist).pastQueue e := by
  obtain ⟨e, he⟩ := h.songQueue
  obtain ⟨e', he'⟩ := h.pastQueue
  constructor
  · cases playlist with
    | true => exact he.drawList s.wantedSize
    | false => exact ⟨e, he⟩
  · cases pastlist with
    | true => exact he'.drawList s.pastWantedSize
    | false => exact ⟨e', he'⟩

theorem SelectionInv.doArrow (h : SelectionInv (s, uses)) {direction : Direction}
    {height : Option Int} (hkeeps : KeepsSelection (s, uses) (.doArrow direction height)) :
    (∃ e, Represents (Squash.doArrow s direction height).songQueue e) ∧
      ∃ e, Represents (Squash.doArrow s direction height).pastQueue e := by
  obtain ⟨e, he⟩ := h.songQueue
  obtain ⟨e', he'⟩ := h.pastQueue
  simp only [KeepsSelection] at hkeeps
  unfold Squash.doArrow
  -- only the queue in focus changes
  cases hfocus : s.focus with
  | nowPlaying => exact ⟨⟨e, he⟩, ⟨e', he'⟩⟩
  | playlist =>
      rw [hfocus] at hkeeps
      exact ⟨he.arrow hkeeps, ⟨e', he'⟩⟩
  | pastlist =>
      rw [hfocus] at hkeeps
      exact ⟨⟨e, he⟩, he'.arrow hkeeps⟩
  | other => exact ⟨⟨e, he⟩, ⟨e', he'⟩⟩

/-- A use of the song that was meant. -/
theorem SelectionInv.use (h : SelectionInv (s, uses)) {use : Use}
    (hright : use.used = some use.meant) : SelectionInv (s, uses ++ [use]) := by
  refine ⟨h.songQueue, h.pastQueue, ?_⟩
  intro use' huse'
  rcases List.mem_append.mp huse' with hold | hnew
  · exact h.uses use' hold
  · exact List.mem_singleton.mp hnew ▸ hright

/-- **`do_song_rating_adjust` and `do_edit_command` find the song that is meant**, or none. -/
theorem SelectionInv.songInFocus (h : SelectionInv (s, uses)) :
    s.songInFocus = some s.songMeant := by
  obtain ⟨e, he⟩ := h.songQueue
  obtain ⟨e', he'⟩ := h.pastQueue
  unfold SelectionState.songInFocus SelectionState.songMeant
  cases s.focus with
  | nowPlaying => rfl
  | playlist => exact he.selectedSong
  | pastlist => exact he'.selectedSong
  | other => rfl

/-- The screens of the EMPEG find it exactly when there is one. -/
theorem SelectionInv.drawnSong_iff (h : SelectionInv (s, uses)) :
    s.songQueue.drawnSong = some (s.songQueue.selectedEntry.map SongQueueEntry.songInfo) ↔
      s.songQueue.selected < s.songQueue.size := by
  obtain ⟨e, he⟩ := h.songQueue
  rw [he.drawnSong, he.selectedEntry, he.selected, he.size, Int.ofNat_lt]
  cases hentry : e.entries[e.selected]? with
  | none =>
      have hle := List.getElem?_eq_none_iff.mp hentry
      exact iff_of_false nofun (Nat.not_lt.mpr hle)
  | some entry =>
      obtain ⟨hlt, -⟩ := List.getElem?_eq_some_iff.mp hentry
      exact iff_of_true rfl hlt

/-- **Every step that keeps the selection keeps the invariant.** -/
theorem SelectionInv.step {s s' : SelectionState × List Use} {l : SelectionStep}
    (h : SelectionInv s) (hkeeps : KeepsSelection s l)
    (hs' : observe selectionStep s l = some s') : SelectionInv s' := by
  obtain ⟨s, uses⟩ := s
  obtain ⟨t, new, hstep, rfl⟩ := observe_eq_some.mp hs'
  have hsong := h.songQueue
  have hpast := h.pastQueue
  cases l with
  | doTab playlist pastlist =>
      cases hstep
      have htab : SelectionInv ({ s with focus := s.focus.next }, uses) := ⟨hsong, hpast, h.uses⟩
      obtain ⟨hsong', hpast'⟩ := htab.drawLists playlist pastlist
      exact h.quiet hsong' hpast'
  | drawLists playlist pastlist =>
      cases hstep
      obtain ⟨hsong', hpast'⟩ := h.drawLists playlist pastlist
      exact h.quiet hsong' hpast'
  | doArrow direction height =>
      cases hstep
      obtain ⟨hsong', hpast'⟩ := h.doArrow hkeeps
      exact h.quiet hsong' hpast'
  | selectPrevious =>
      cases hstep
      obtain ⟨e, he⟩ := hsong
      exact h.quiet he.selectPrevious hpast
  | selectNext =>
      cases hstep
      obtain ⟨e, he⟩ := hsong
      exact h.quiet he.selectNext hpast
  | playlistQueueSong song startPosition =>
      obtain ⟨q, hq, heq⟩ := Option.map_eq_some_iff.mp hstep
      cases heq
      exact h.operate (.playlistQueueSong song startPosition) hq
  | getNextSongInfo =>
      obtain ⟨r, hr, heq⟩ := Option.map_eq_some_iff.mp hstep
      cases heq
      apply h.operate .getNextSongInfo
      rw [SongQueue.operate, hr]
      rfl
  | doneWithSongInfo entry =>
      obtain ⟨e, he⟩ := hpast
      obtain ⟨q, hq, heq⟩ := Option.map_eq_some_iff.mp hstep
      cases heq
      exact h.quiet hsong (he.doneWithSongInfo hq)
  | doDelete =>
      simp only [selectionStep] at hstep
      split at hstep
      · obtain ⟨q, hq, heq⟩ := Option.map_eq_some_iff.mp hstep
        cases heq
        exact h.operate .doDelete hq
      · cases hstep
        exact h.quiet hsong hpast
  | doRemovePlaylistEntry =>
      obtain ⟨q, hq, heq⟩ := Option.map_eq_some_iff.mp hstep
      cases heq
      exact h.operate .doRemovePlaylistEntry hq
  | setWantedSize wantedSize =>
      cases hstep
      exact h.quiet hsong hpast
  | setPlaying playing =>
      cases hstep
      exact h.quiet hsong hpast
  | doSongRatingAdjust =>
      cases hstep
      exact h.use h.songInFocus
  | doEditCommand =>
      cases hstep
      exact h.use h.songInFocus
  | drawSongInfo =>
      cases hstep
      exact h.use (h.drawnSong_iff.mpr hkeeps)
  | drawRateSong =>
      cases hstep
      exact h.use (h.drawnSong_iff.mpr hkeeps)

/-- A step that does not keep the selection shows at once. -/
theorem SelectionInv.break {s s' : SelectionState × List Use} {l : SelectionStep}
    (h : SelectionInv s) (hkeeps : ¬ KeepsSelection s l)
    (hs' : observe selectionStep s l = some s') : ¬ Usable s' := by
  obtain ⟨s, uses⟩ := s
  obtain ⟨t, new, hstep, rfl⟩ := observe_eq_some.mp hs'
  intro husable
  obtain ⟨hsong, hpast, huses⟩ := husable
  cases l with
  | doArrow direction height =>
      cases hstep
      apply hkeeps
      simp only [KeepsSelection]
      cases hfocus : s.focus with
      | nowPlaying => trivial
      | playlist =>
          simp only [Squash.doArrow, hfocus] at hsong
          exact clipSelected_nonneg_iff.mp hsong
      | pastlist =>
          simp only [Squash.doArrow, hfocus] at hpast
          exact clipSelected_nonneg_iff.mp hpast
      | other => trivial
  | drawSongInfo =>
      cases hstep
      have huse := huses _ (List.mem_append_right uses (List.mem_singleton_self _))
      apply hkeeps
      exact h.drawnSong_iff.mp huse
  | drawRateSong =>
      cases hstep
      have huse := huses _ (List.mem_append_right uses (List.mem_singleton_self _))
      apply hkeeps
      exact h.drawnSong_iff.mp huse
  | _ => exact hkeeps trivial

/-- The queues are empty and their first places are selected. `wanted_size` of the song queue is
not set before the songs are known. -/
def initialSelection (focus : Focus) (pastWantedSize : Int) : SelectionState :=
  ⟨focus, SongQueue.empty, 0, SongQueue.empty, pastWantedSize, none⟩

theorem selectionInv_initial (focus : Focus) (pastWantedSize : Int) :
    SelectionInv (initialSelection focus pastWantedSize, []) :=
  ⟨⟨_, represents_empty⟩, ⟨_, represents_empty⟩, nofun⟩

/-- **The selection is always usable, exactly as long as the steps keep it.** -/
theorem always_usable_iff (focus : Focus) (pastWantedSize : Int) (steps : List SelectionStep) :
    Always (observe selectionStep) Usable (initialSelection focus pastWantedSize, []) steps ↔
      Guarded (observe selectionStep) KeepsSelection (initialSelection focus pastWantedSize, [])
        steps :=
  always_iff_guarded (fun _ h => h.usable) (fun _ _ _ h hkeeps hs' => h.step hkeeps hs')
    (fun _ _ _ h hkeeps hs' => h.break hkeeps hs') (selectionInv_initial focus pastWantedSize) steps

/-- The down key with the past queue in focus, before any song was played: -1 is less than the size
of the empty queue, and the editor is started for the song of a null entry. -/
theorem not_usable_down :
    ¬ Always (observe selectionStep) Usable (initialSelection .nowPlaying 10, [])
      [.doTab true false, .doTab false true, .doArrow .down (some 20), .doEditCommand] := by
  intro h
  have hdown := Always.at_prefix
    [SelectionStep.doTab true false, .doTab false true, .doArrow .down (some 20)] h rfl
  exact absurd hdown.2.1 (by decide)

end Squash
