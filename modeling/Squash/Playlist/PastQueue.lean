import Squash.Foundations.Transition
import Squash.Playlist.Refinement
import Mathlib.Data.List.Induction

/-!
# The past queue

`done_with_song_info` puts a song at the front of `past_queue`, and cuts the queue to its wanted
size. It keeps the newest songs (`doneWithSongInfo_wellFormed`). With a wanted size of zero it
follows the null pointer that the loop leaves for the last entry (`doneWithSongInfo_zero`).
`pastQueue_keepsLatest_iff` is about any number of songs.
-/

namespace Squash

open LinkedList Transition

namespace SongQueue

variable {q : SongQueue} {l : List (Nat × SongQueueEntry)}

/-- `done_with_song_info`. The start position is what is in the memory allocated. -/
def doneWithSongInfo (q : SongQueue) (wantedSize : Int) (entry : SongQueueEntry) :
    Option SongQueue := do
  let (heap, newEntry) := q.heap.malloc ⟨entry, q.head⟩
  if q.size + 1 > wantedSize then do
    let (queueEntry, queueLastEntry) ← walk heap wantedSize.toNat (some newEntry) none
    let tail ← queueLastEntry
    let heap ← heap.setNext tail none
    let heap ← heap.freeFrom heap.length queueEntry
    return ⟨heap, if wantedSize = 0 then none else some newEntry, some tail, wantedSize, q.selected⟩
  else
    return ⟨heap, some newEntry, if q.tail = none then some newEntry else q.tail, q.size + 1,
      q.selected⟩

theorem doneWithSongInfo_zero (h : WellFormed q l) {wantedSize : Int} (hwanted : wantedSize ≤ 0)
    (entry : SongQueueEntry) : q.doneWithSongInfo wantedSize entry = none := by
  have hsize := h.size
  have hfull : q.size + 1 > wantedSize := by omega
  have hloop : wantedSize.toNat = 0 := Int.toNat_of_nonpos hwanted
  simp [doneWithSongInfo, hfull, hloop, walk]

/-- Of too many entries, the loop finds the first that goes and the last that stays. The list is cut
between the two, and what goes is freed. -/
theorem cut_wellFormed {H : Heap SongQueueEntry} {p : Option Nat} (h : IsList H p l) {n : Nat}
    (hlt : n + 1 < l.length) :
    ∃ gone last H' H'', walk H (n + 1) p none = some (some gone, some last) ∧
      H.setNext last none = some H' ∧ H'.freeFrom H'.length (some gone) = some H'' ∧
      IsList H'' p (l.take (n + 1)) ∧ lastPtr (l.take (n + 1)) = some last := by
  -- the entries that stay, the last of them apart
  obtain ⟨stay, ⟨last, v⟩, hstay⟩ : ∃ stay c, l.take (n + 1) = stay ++ [c] := by
    apply (List.eq_nil_or_concat' (l.take (n + 1))).resolve_left
    apply List.ne_nil_of_length_pos
    rw [List.length_take_of_le (Nat.le_of_lt hlt)]
    exact Nat.succ_pos n
  have hlength : (stay ++ [(last, v)]).length = n + 1 := by
    rw [← hstay, List.length_take_of_le (Nat.le_of_lt hlt)]
  have hsplit : l = stay ++ [(last, v)] ++ l[n + 1] :: l.drop (n + 1 + 1) := by
    rw [← hstay, List.getElem_cons_drop, List.take_append_drop]
  have hlist := h
  rw [hsplit] at hlist
  have hwalk := walk_eq hlist none
  rw [hlength, lastPtr_snoc] at hwalk
  rw [List.append_assoc] at hlist
  have hfuel : (l[n + 1] :: l.drop (n + 1 + 1)).length ≤ H.length := by
    have hle := hlist.length_le
    simp only [List.length_append, List.length_cons] at hle ⊢
    omega
  obtain ⟨next, H', H'', hread, hset, hfree, hcut⟩ := IsList.cutBehind hlist hfuel
  have hnext : next = some l[n + 1].1 := by
    obtain ⟨p', -, hrest⟩ := hlist.split
    obtain ⟨-, next', hread', hrest⟩ := hrest.cons_inv
    rw [hread] at hread'
    cases hread'
    exact hrest.cons_inv.1
  rw [hnext, ← Heap.length_of_setNext hset] at hfree
  rw [← hstay] at hcut
  refine ⟨l[n + 1].1, last, H', H'', hwalk, hset, hfree, hcut, ?_⟩
  rw [hstay]
  exact lastPtr_snoc stay last v

/-- The queue holds the newest songs, as many as wanted. -/
theorem doneWithSongInfo_wellFormed (h : WellFormed q l) {wantedSize : Int}
    (hwanted : 0 < wantedSize) (entry : SongQueueEntry) :
    ∃ q' l', q.doneWithSongInfo wantedSize entry = some q' ∧ WellFormed q' l' ∧
      l'.map Prod.snd = (entry :: l.map Prod.snd).take wantedSize.toNat ∧
      q'.selected = q.selected := by
  have hsize := h.size
  have hpush := h.list.push entry
  by_cases hfull : q.size + 1 > wantedSize
  · obtain ⟨n, hn⟩ : ∃ n : Nat, wantedSize = n + 1 := ⟨(wantedSize - 1).toNat, by omega⟩
    have hlt : n + 1 < ((q.heap.length, entry) :: l).length := by
      rw [List.length_cons]
      omega
    have hloop : wantedSize.toNat = n + 1 := by omega
    have hzero : ¬ wantedSize = 0 := by omega
    obtain ⟨gone, last, H', H'', hwalk, hset, hfree, hcut, hlast⟩ := cut_wellFormed hpush hlt
    refine ⟨⟨H'', some q.heap.length, some last, wantedSize, q.selected⟩, _, ?_,
      ⟨hcut, hlast.symm, ?_⟩, ?_, rfl⟩
    · simp only [doneWithSongInfo, Heap.malloc_snd, hfull, hzero, if_true, if_false]
      rw [hloop, hwalk]
      simp only [Option.bind_eq_bind, Option.bind_some, hset, hfree]
      rfl
    · rw [List.length_take_of_le (Nat.le_of_lt hlt)]
      exact hn
    · rw [List.map_take, hloop]
      rfl
  · have hroom : ((q.heap.length, entry) :: l).length ≤ wantedSize.toNat := by
      rw [List.length_cons]
      omega
    refine ⟨⟨(q.heap.malloc ⟨entry, q.head⟩).1, some q.heap.length,
      if q.tail = none then some q.heap.length else q.tail, q.size + 1, q.selected⟩,
      (q.heap.length, entry) :: l, ?_, ⟨hpush, ?_, ?_⟩, ?_, rfl⟩
    · simp [doneWithSongInfo, hfull]
    · show (if q.tail = none then some q.heap.length else q.tail) = _
      rw [h.tail]
      cases l with
      | nil => rfl
      | cons c l => simp [lastPtr, List.getLast?_cons]
    · simp [hsize]
    · rw [List.take_of_length_le (by simpa using hroom)]
      rfl

/-! ## Runs -/

/-- `done_with_song_info` for one song after the other, from the empty queue. -/
def pastQueue (wantedSize : Int) (songs : List SongQueueEntry) : Option SongQueue :=
  run (fun q song => q.doneWithSongInfo wantedSize song) empty songs

/-- The queue after `songs`: as many of them as wanted, the newest first. -/
structure KeepsLatest (wantedSize : Int) (songs : List SongQueueEntry) (q : SongQueue) : Prop where
  list : ∃ l, WellFormed q l ∧ l.map Prod.snd = songs.reverse.take wantedSize.toNat
  tail_next : ∀ tail, q.tail = some tail → ∃ cell, q.heap.read tail = some cell ∧ cell.next = none
  empty_head : q.tail = none → q.head = none

theorem WellFormed.tail_next (h : WellFormed q l) {tail : Nat} (htail : q.tail = some tail) :
    ∃ cell, q.heap.read tail = some cell ∧ cell.next = none := by
  obtain rfl | ⟨l, ⟨a, v⟩, rfl⟩ := List.eq_nil_or_concat' l
  · rw [h.tail] at htail
    cases htail
  · rw [h.tail, lastPtr_snoc] at htail
    cases htail
    obtain ⟨p, -, hlast⟩ := h.list.split
    obtain ⟨-, next, hread, hend⟩ := hlast.cons_inv
    exact ⟨_, hread, hend.nil_inv⟩

theorem WellFormed.head_of_tail (h : WellFormed q l) (htail : q.tail = none) : q.head = none := by
  apply h.list.null_iff.mpr
  rw [h.tail] at htail
  obtain rfl | ⟨l, c, rfl⟩ := List.eq_nil_or_concat' l
  · rfl
  · rw [lastPtr_snoc] at htail
    cases htail

/-- Cutting after every song keeps the same songs as cutting once. -/
theorem foldl_take_eq (n : Nat) (songs : List SongQueueEntry) :
    songs.foldl (fun kept song => (song :: kept).take n) [] = songs.reverse.take n := by
  induction songs using List.reverseRecOn with
  | nil => rw [List.reverse_nil, List.take_nil]; rfl
  | append_singleton songs song ih =>
      rw [List.foldl_append, ih, List.reverse_append]
      cases n with
      | zero => rfl
      | succ n => simp [List.take_take]

/-- With room for a song, every run goes through. -/
theorem pastQueue_keepsLatest {wantedSize : Int} (hwanted : 0 < wantedSize)
    (songs : List SongQueueEntry) :
    ∃ q, pastQueue wantedSize songs = some q ∧ KeepsLatest wantedSize songs q := by
  have hstep : ∀ (q : SongQueue) (kept : List SongQueueEntry) (song : SongQueueEntry),
      (∃ l, WellFormed q l ∧ l.map Prod.snd = kept) →
      ∃ q', q.doneWithSongInfo wantedSize song = some q' ∧
        ∃ l, WellFormed q' l ∧ l.map Prod.snd = (song :: kept).take wantedSize.toNat := by
    rintro q kept song ⟨l, hl, rfl⟩
    obtain ⟨q', l', hq', hl', hkept, -⟩ := doneWithSongInfo_wellFormed hl hwanted song
    exact ⟨q', hq', l', hl', hkept⟩
  have hempty : WellFormed empty [] := ⟨.nil none, rfl, rfl⟩
  obtain ⟨q, hq, l, hl, hkept⟩ := run_simulates hstep ⟨[], hempty, rfl⟩ songs
  exact ⟨q, hq, ⟨l, hl, hkept.trans (foldl_take_eq _ _)⟩, fun _ => hl.tail_next, hl.head_of_tail⟩

/-- **When the past queue keeps the most recent songs.** After each song of every sequence, the queue
holds the newest songs, as many as wanted, and no null pointer was followed: this is so exactly when
at least one song is wanted, or there is none. -/
theorem pastQueue_keepsLatest_iff (wantedSize : Nat) (songs : List SongQueueEntry) :
    (∀ pre, pre <+: songs → ∃ q, pastQueue wantedSize pre = some q ∧ KeepsLatest wantedSize pre q) ↔
      0 < wantedSize ∨ songs = [] := by
  constructor
  · intro hall
    by_contra hno
    obtain ⟨hzero, hsongs⟩ := not_or.mp hno
    obtain ⟨song, rest, rfl⟩ := List.exists_cons_of_ne_nil hsongs
    obtain ⟨q, hq, -⟩ := hall [song] ⟨rest, rfl⟩
    have hnone : empty.doneWithSongInfo wantedSize song = none :=
      doneWithSongInfo_zero ⟨.nil none, rfl, rfl⟩ (by omega) song
    rw [pastQueue, run_cons, hnone] at hq
    cases hq
  · rintro (hwanted | rfl) pre hpre
    · exact pastQueue_keepsLatest (by omega) pre
    · obtain rfl := List.prefix_nil.mp hpre
      have hempty : WellFormed empty [] := ⟨.nil none, rfl, rfl⟩
      exact ⟨empty, rfl, ⟨[], hempty, by simp⟩, fun _ => hempty.tail_next, hempty.head_of_tail⟩

/-- With no song wanted, the first song makes the queue follow a null pointer. -/
theorem pastQueue_none : ¬ ∃ q, pastQueue 0 [⟨0, 0⟩] = some q ∧ KeepsLatest 0 [⟨0, 0⟩] q := by
  rintro ⟨q, hq, -⟩
  have hnone : pastQueue 0 [⟨0, 0⟩] = none := by decide
  rw [hnone] at hq
  cases hq

end SongQueue

end Squash
