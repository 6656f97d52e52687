import Squash.Foundations.Transition
import Squash.Playlist.SongQueue

/-!
# The song queue is a list

`song_queue` is relinked by hand in four places: `playlist_queue_song` appends, the player takes the
first entry, and `do_delete` and `do_remove_playlist_entry` take out the selected one, wherever it
is. Each of them does to a well formed queue what it should do to the list of its entries, and
follows no null or dangling pointer; so does every sequence of them (`queueRun_refines`).
-/

namespace Squash

open LinkedList Transition

namespace SongQueue

variable {q : SongQueue} {l : List (Nat × SongQueueEntry)}

/-! ## Taking out the selected entry -/

/-- The loop finds an entry and the one before it. -/
theorem walk_eq {H : Heap SongQueueEntry} {p : Option Nat} {a : Nat} {v : SongQueueEntry}
    {before behind : List (Nat × SongQueueEntry)}
    (h : IsList H p (before ++ (a, v) :: behind)) (last : Option Nat) :
    walk H before.length p last = some (some a, (lastPtr before).or last) := by
  induction before generalizing p last with
  | nil =>
      obtain ⟨rfl, -⟩ := h.cons_inv
      rfl
  | cons c before ih =>
      obtain ⟨rfl, n, hread, hrest⟩ := h.cons_inv
      have hlast : (lastPtr before).or (some c.1) = (lastPtr (c :: before)).or last := by
        cases before <;> simp [lastPtr, List.getLast?_cons]
      rw [List.length_cons, walk]
      show (H.read c.1).bind (fun cell => walk H before.length cell.next (some c.1)) = _
      rw [hread]
      show walk H before.length n (some c.1) = _
      rw [ih hrest, hlast]

theorem walk_getElem? {H : Heap SongQueueEntry} {p : Option Nat} (h : IsList H p l) {i : Nat}
    {c : Nat × SongQueueEntry} (hc : l[i]? = some c) :
    ∃ last, walk H i p none = some (some c.1, last) := by
  obtain ⟨hlt, rfl⟩ := List.getElem?_eq_some_iff.mp hc
  have hsplit : l.take i ++ l[i] :: l.drop (i + 1) = l := by
    rw [List.getElem_cons_drop, List.take_append_drop]
  have hwalk := walk_eq (hsplit ▸ h) none
  rw [List.length_take_of_le (Nat.le_of_lt hlt)] at hwalk
  exact ⟨_, hwalk⟩

/-- An entry leaves the queue, the others stay. -/
theorem removeSelected_wellFormed {a : Nat} {v : SongQueueEntry}
    {before behind : List (Nat × SongQueueEntry)}
    (h : WellFormed q (before ++ (a, v) :: behind)) (hselected : q.selected = before.length) :
    ∃ q', q.removeSelected = some (q', v.songInfo) ∧ WellFormed q' (before ++ behind) ∧
      q'.selected = q.selected := by
  have hwalk : walk q.heap q.selected.toNat q.head none = some (some a, lastPtr before) := by
    rw [hselected, Int.toNat_natCast, walk_eq h.list, Option.or_none]
  have hnd := h.list.nodup
  have hsize : q.size - 1 = ((before ++ behind).length : Nat) := by
    have hsize := h.size
    simp only [List.length_append, List.length_cons] at hsize ⊢
    omega
  -- the tail moves exactly when the entry was the last one
  have htail : (if some a = q.tail then lastPtr before else q.tail) =
      lastPtr (before ++ behind) := by
    rw [h.tail, lastPtr_append_cons]
    cases behind with
    | nil => simp [lastPtr]
    | cons c behind =>
        have hne : some a ≠ lastPtr ((a, v) :: c :: behind) := by
          intro heq
          have hlast : lastPtr (c :: behind) = some a := heq.symm
          simp only [List.map_append, List.map_cons, List.nodup_append, List.nodup_cons] at hnd
          exact hnd.2.1.1 (mem_of_lastPtr hlast)
        rw [if_neg hne, lastPtr_append_cons]
        rfl
  rcases List.eq_nil_or_concat' before with rfl | ⟨before, ⟨b, w⟩, rfl⟩
  · have hhead : q.head = some a := h.list.cons_inv.1
    obtain ⟨H', n, hread, hfree, -, hlist⟩ := h.list.free_head
    refine ⟨⟨H', n, lastPtr behind, q.size - 1, q.selected⟩, ?_, ⟨hlist, rfl, hsize⟩, rfl⟩
    have htail' : (if some a = q.tail then none else q.tail) = lastPtr behind := htail
    rw [lastPtr_nil, hhead] at hwalk
    simp [removeSelected, hwalk, hread, hhead, hfree, htail']
  · have hassoc : before ++ [(b, w)] ++ (a, v) :: behind =
        before ++ (b, w) :: (a, v) :: behind := by
      simp
    have hlist := h.list
    rw [hassoc] at hlist
    -- the first entry is another one
    have hhead : some a ≠ q.head := by
      obtain ⟨c, rest, hcons⟩ := List.exists_cons_of_ne_nil
        (List.append_ne_nil_of_right_ne_nil before (List.cons_ne_nil (b, w) []))
      have hlist' := h.list
      rw [hcons, List.cons_append] at hlist' hnd
      rw [hlist'.cons_inv.1]
      intro heq
      obtain rfl : a = c.1 := Option.some.inj heq
      exact (List.nodup_cons.mp hnd).1 (by simp)
    obtain ⟨n, H', H'', hread, hset, hfree, hlist'⟩ := hlist.unlink
    refine ⟨⟨H'', q.head, lastPtr (before ++ [(b, w)] ++ behind), q.size - 1, q.selected⟩, ?_,
      ⟨by simpa using hlist', rfl, hsize⟩, rfl⟩
    rw [lastPtr_snoc] at hwalk htail
    simp [removeSelected, hwalk, hread, hset, hfree, hhead, htail]

/-! ## Taking the first entry -/

/-- `get_next_song_info`: the queue afterwards, and the entry for `*song` and `*start_position`. -/
def getNextSongInfo (q : SongQueue) : Option (SongQueue × Option SongQueueEntry) :=
  if q.size ≤ 0 then some (q, none)
  else do
    let entry ← q.head
    let cell ← q.heap.read entry
    let (head, tail) := if q.head = q.tail then (none, none) else (cell.next, q.tail)
    let heap ← q.heap.free entry
    return (⟨heap, head, tail, q.size - 1, q.selected⟩, some cell.val)

theorem getNextSongInfo_wellFormed (h : WellFormed q l) :
    ∃ q', q.getNextSongInfo = some (q', (l.map Prod.snd).head?) ∧ WellFormed q' l.tail ∧
      q'.selected = q.selected := by
  cases l with
  | nil =>
      have hsize : q.size = 0 := h.size
      exact ⟨q, by simp [getNextSongInfo, hsize], h, rfl⟩
  | cons c l =>
      obtain ⟨a, v⟩ := c
      have hhead : q.head = some a := h.list.cons_inv.1
      have hsize : q.size = l.length + 1 := by simpa using h.size
      have hpos : ¬ q.size ≤ 0 := by omega
      obtain ⟨H', n, hread, hfree, -, hlist⟩ := h.list.free_head
      have hnext : (if some a = q.tail then (none, none) else (n, q.tail)) = (n, lastPtr l) := by
        rw [h.tail]
        cases l with
        | nil =>
            obtain rfl : n = none := hlist.nil_inv
            simp [lastPtr]
        | cons c l =>
            have hne : some a ≠ lastPtr ((a, v) :: c :: l) := by
              intro heq
              have hlast : lastPtr (c :: l) = some a := heq.symm
              exact (List.nodup_cons.mp h.list.nodup).1 (mem_of_lastPtr hlast)
            rw [if_neg hne]
            rfl
      refine ⟨⟨H', n, lastPtr l, q.size - 1, q.selected⟩, ?_, ⟨hlist, rfl, by simp [hsize]⟩, rfl⟩
      rw [getNextSongInfo, if_neg hpos, hhead]
      simp [hread, hfree, hnext]

/-! ## The operations -/

inductive Operation where
  | playlistQueueSong (song : Nat) (startPosition : Int)
  | getNextSongInfo
  | select (selected : Nat)
  | doDelete
  | doRemovePlaylistEntry
  deriving DecidableEq, Repr

/-- What `do_delete` does to the queue when it is in focus. -/
def doDelete (q : SongQueue) : Option SongQueue :=
  if q.selected < q.size ∧ q.selected ≥ 0 then q.removeSelected.map Prod.fst else some q

/-- What `do_remove_playlist_entry` does to the queue. -/
def doRemovePlaylistEntry (q : SongQueue) : Option SongQueue :=
  if q.selected < q.size then q.removeSelected.map Prod.fst else some q

/-- One operation. The selection may be moved to any place in between. -/
def operate (q : SongQueue) : Operation → Option SongQueue
  | .playlistQueueSong song startPosition => q.queueSong ⟨song, startPosition⟩
  | .getNextSongInfo => q.getNextSongInfo.map Prod.fst
  | .select selected => some { q with selected }
  | .doDelete => q.doDelete
  | .doRemovePlaylistEntry => q.doRemovePlaylistEntry

/-- What the queue is for: a list of entries, one of which is selected. -/
structure Entries where
  entries : List SongQueueEntry
  selected : Nat
  deriving DecidableEq, Repr

/-- The same operations on the list. -/
def Entries.operate (e : Entries) : Operation → Entries
  | .playlistQueueSong song startPosition =>
    { e with entries := e.entries ++ [⟨song, startPosition⟩] }
  | .getNextSongInfo => { e with entries := e.entries.tail }
  | .select selected => { e with selected }
  | .doDelete | .doRemovePlaylistEntry => { e with entries := e.entries.eraseIdx e.selected }

/-- The queue stands for the list. -/
structure Represents (q : SongQueue) (e : Entries) : Prop where
  wellFormed : ∃ l, WellFormed q l ∧ l.map Prod.snd = e.entries
  selected : q.selected = e.selected

def empty : SongQueue := ⟨[], none, none, 0, 0⟩

theorem represents_empty : Represents empty ⟨[], 0⟩ :=
  ⟨⟨[], ⟨.nil none, rfl, rfl⟩, rfl⟩, rfl⟩

theorem Represents.size {e : Entries} (h : Represents q e) : q.size = e.entries.length := by
  obtain ⟨l, hl, hentries⟩ := h.wellFormed
  rw [hl.size, ← hentries, List.length_map]

/-- Taking out the selected entry, if there is one. -/
theorem Represents.removeSelected {e : Entries} (h : Represents q e) :
    ∃ q', (if q.selected < q.size then q.removeSelected.map Prod.fst else some q) = some q' ∧
      Represents q' { e with entries := e.entries.eraseIdx e.selected } := by
  obtain ⟨l, hl, hentries⟩ := h.wellFormed
  have hlength : l.length = e.entries.length := by rw [← hentries, List.length_map]
  by_cases hlt : e.selected < l.length
  · have hselected : q.selected < q.size := by
      rw [h.selected, hl.size]
      exact Int.ofNat_lt.mpr hlt
    -- the list around the selected entry
    have hsplit : l = l.take e.selected ++ l[e.selected] :: l.drop (e.selected + 1) := by
      rw [List.getElem_cons_drop, List.take_append_drop]
    have hbefore : q.selected = (l.take e.selected).length := by
      rw [h.selected, List.length_take_of_le (Nat.le_of_lt hlt)]
    rw [hsplit] at hl
    obtain ⟨q', hremove, hwell, hsame⟩ := removeSelected_wellFormed hl hbefore
    refine ⟨q', ?_, ⟨_, hwell, ?_⟩, hsame.trans h.selected⟩
    · rw [if_pos hselected, hremove]
      rfl
    · rw [← hentries, List.eraseIdx_eq_take_drop_succ, List.map_append, List.map_take,
        List.map_drop]
  · have hselected : ¬ q.selected < q.size := by
      rw [h.selected, hl.size]
      omega
    refine ⟨q, if_neg hselected, ⟨l, hl, ?_⟩, h.selected⟩
    show _ = e.entries.eraseIdx e.selected
    rw [List.eraseIdx_of_length_le (by omega), hentries]

theorem queueSong_selected {q' : SongQueue} {entry : SongQueueEntry}
    (h : q.queueSong entry = some q') : q'.selected = q.selected := by
  cases htail : q.tail with
  | none =>
      simp only [queueSong, htail] at h
      cases h
      rfl
  | some tail =>
      simp only [queueSong, htail] at h
      obtain ⟨heap, -, hq'⟩ := Option.bind_eq_some_iff.mp h
      cases hq'
      rfl

/-- **Each operation follows the list.** -/
theorem operate_represents (q : SongQueue) (e : Entries) (o : Operation) (h : Represents q e) :
    ∃ q', q.operate o = some q' ∧ Represents q' (e.operate o) := by
  obtain ⟨l, hl, hentries⟩ := h.wellFormed
  cases o with
  | playlistQueueSong song startPosition =>
      obtain ⟨q', hqueue, hwell⟩ := queueSong_wellFormed hl ⟨song, startPosition⟩
      have hsame := queueSong_selected hqueue
      refine ⟨q', hqueue, ⟨_, hwell, ?_⟩, hsame.trans h.selected⟩
      rw [List.map_append, hentries]
      rfl
  | getNextSongInfo =>
      obtain ⟨q', hnext, hwell, hsame⟩ := getNextSongInfo_wellFormed hl
      refine ⟨q', ?_, ⟨_, hwell, ?_⟩, hsame.trans h.selected⟩
      · rw [operate, hnext]
        rfl
      · rw [List.map_tail, hentries]
        rfl
  | select selected => exact ⟨_, rfl, ⟨l, ⟨hl.list, hl.tail, hl.size⟩, hentries⟩, rfl⟩
  | doDelete =>
      have hnonneg : q.selected ≥ 0 := by
        rw [h.selected]
        exact Int.natCast_nonneg e.selected
      have hdelete : q.operate .doDelete =
          if q.selected < q.size then q.removeSelected.map Prod.fst else some q := by
        simp [operate, doDelete, hnonneg]
      rw [hdelete]
      exact h.removeSelected
  | doRemovePlaylistEntry => exact h.removeSelected

/-- **The song queue refines a list.** Every sequence of operations on the empty queue happens, and
what hangs from `head` then are the entries of the list; `size` is their number, `head` and `tail`
are null exactly when there are none, and otherwise `tail` is the last of them. -/
theorem queueRun_refines (os : List Operation) :
    ∃ q l, run operate empty os = some q ∧ IsList q.heap q.head l ∧
      l.map Prod.snd = (os.foldl Entries.operate ⟨[], 0⟩).entries ∧
      q.size = l.length ∧ (q.head = none ↔ q.size = 0) ∧ (q.tail = none ↔ q.size = 0) ∧
      ∀ a, q.tail = some a → ∃ v, l.getLast? = some (a, v) ∧ q.heap.read a = some ⟨v, none⟩ := by
  obtain ⟨q, hrun, hq⟩ := run_simulates operate_represents represents_empty os
  obtain ⟨l, hl, hentries⟩ := hq.wellFormed
  have hzero : q.size = 0 ↔ l = [] := by
    rw [hl.size, Int.natCast_eq_zero, List.length_eq_zero_iff]
  refine ⟨q, l, hrun, hl.list, hentries, hl.size, ?_, ?_, ?_⟩
  · rw [hzero]
    exact hl.list.null_iff
  · rw [hzero, hl.tail, lastPtr, Option.map_eq_none_iff, List.getLast?_eq_none_iff]
  · intro a htail
    rcases List.eq_nil_or_concat' l with rfl | ⟨before, ⟨b, v⟩, rfl⟩
    · rw [hl.tail] at htail
      cases htail
    · rw [hl.tail, lastPtr_snoc] at htail
      cases htail
      obtain ⟨p, -, hlast⟩ := hl.list.split
      obtain ⟨-, n, hread, hnil⟩ := hlast.cons_inv
      obtain rfl := hnil.nil_inv
      exact ⟨v, List.getLast?_concat, hread⟩

end SongQueue

end Squash
