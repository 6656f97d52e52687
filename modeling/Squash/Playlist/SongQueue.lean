import Squash.Database.Song
import Squash.Foundations.LinkedList

/-!
# The song queues

`song_queue` and `past_queue` are linked lists with a `head`, a `tail`, a `size` and the entry that
is `selected` on the display. An entry refers to a song by its index in `database_info.songs`. A
dereference of a null or dangling pointer is `none`.

`playlist_queue_song` keeps a queue well formed (`queueSong_wellFormed`).
-/

namespace Squash

open LinkedList

/-- `song_queue_entry_t`, without `next`. -/
structure SongQueueEntry where
  songInfo : Nat
  startPosition : Int
  deriving DecidableEq, Repr

/-- `song_queue_t`, with the heap its entries live in. -/
structure SongQueue where
  heap : Heap SongQueueEntry
  head : Option Nat
  tail : Option Nat
  size : Int
  selected : Int
  deriving DecidableEq, Repr

namespace SongQueue

/-- The loop to the selected entry: it and the entry before it. -/
def walk (H : Heap SongQueueEntry) :
    Nat → Option Nat → Option Nat → Option (Option Nat × Option Nat)
  | 0, queueEntry, queueLastEntry => some (queueEntry, queueLastEntry)
  | n + 1, queueEntry, _ => do
    let entry ← queueEntry
    let cell ← H.read entry
    walk H n cell.next queueEntry

/-- The song of the selected entry, null if the selection lies behind the end of the queue. -/
def selectedSong (q : SongQueue) : Option (Option Nat) :=
  if q.selected < q.size then do
    let (queueEntry, _) ← walk q.heap q.selected.toNat q.head none
    let entry ← queueEntry
    let cell ← q.heap.read entry
    return some cell.val.songInfo
  else some none

/-- Take the selected entry out of the queue; its song is given feedback. -/
def removeSelected (q : SongQueue) : Option (SongQueue × Nat) := do
  let (queueEntry, queueLastEntry) ← walk q.heap q.selected.toNat q.head none
  let entry ← queueEntry
  let cell ← q.heap.read entry
  let heap ← match queueLastEntry with
    | none => some q.heap
    | some last => q.heap.setNext last cell.next
  let head := if queueEntry = q.head then cell.next else q.head
  let tail := if queueEntry = q.tail then queueLastEntry else q.tail
  let heap ← heap.free entry
  return (⟨heap, head, tail, q.size - 1, q.selected⟩, cell.val.songInfo)

/-- `playlist_queue_song`, when the song is loaded. -/
def queueSong (q : SongQueue) (entry : SongQueueEntry) : Option SongQueue := do
  let (heap, newEntry) := q.heap.malloc ⟨entry, none⟩
  let head := if q.head = none then some newEntry else q.head
  let heap ← match q.tail with
    | none => some heap
    | some tail => heap.setNext tail (some newEntry)
  return ⟨heap, head, some newEntry, q.size + 1, q.selected⟩

/-- The entries `l` hang from `head`, `tail` is the last of them and `size` their number. -/
structure WellFormed (q : SongQueue) (l : List (Nat × SongQueueEntry)) : Prop where
  list : IsList q.heap q.head l
  tail : q.tail = lastPtr l
  size : q.size = l.length

theorem queueSong_wellFormed {q : SongQueue} {l : List (Nat × SongQueueEntry)}
    (h : WellFormed q l) (entry : SongQueueEntry) :
    ∃ q', q.queueSong entry = some q' ∧ WellFormed q' (l ++ [(q.heap.length, entry)]) := by
  rcases List.eq_nil_or_concat' l with rfl | ⟨l, ⟨a, v⟩, rfl⟩
  · have hhead : q.head = none := h.list.null_iff.mpr rfl
    have htail : q.tail = none := h.tail
    have hsize : q.size = 0 := h.size
    refine ⟨⟨(q.heap.malloc ⟨entry, none⟩).1, some q.heap.length, some q.heap.length, q.size + 1,
      q.selected⟩, by simp [queueSong, hhead, htail], ?_, rfl, ?_⟩
    · exact .cons (Heap.read_malloc_new _ _) (.nil none)
    · simp [hsize]
  · have hhead : q.head ≠ none := by
      intro hnull
      simpa using h.list.null_iff.mp hnull
    have htail : q.tail = some a := h.tail.trans (lastPtr_snoc l a v)
    obtain ⟨heap, hset, hlist⟩ := IsList.snoc h.list (w := entry)
    refine ⟨⟨heap, q.head, some q.heap.length, q.size + 1, q.selected⟩, ?_, hlist, ?_, ?_⟩
    · simp [queueSong, hhead, htail, hset]
    · exact (lastPtr_snoc _ _ _).symm
    · have hsize := h.size
      simp only [List.length_append, List.length_singleton] at hsize ⊢
      omega

end SongQueue

/-- `playlist_queue_song`. `ensure_song_fully_loaded` ends the program when a decoder cannot open
the song's file, and leaves the queues alone otherwise. -/
def playlistQueueSong (fullyLoads : SongInfo → Bool) (songs : List SongInfo) (q : SongQueue)
    (song : Nat) (startPosition : Int) : Option SongQueue := do
  let songInfo ← songs[song]?
  if fullyLoads songInfo then q.queueSong ⟨song, startPosition⟩ else none

end Squash
