import Squash.Player.Invariant
import Squash.Playlist.FullyLoaded
import Squash.Playlist.PastQueue
import Mathlib.Data.List.Perm.Basic

/-!
# The way of a song through the program

A song is put into `song_queue` by the playlist manager or by `load_state`; the player takes it from
there, and puts it into `past_queue` when it is done with it. The user may take a song out of the
queue before. All of this goes on at once: a step of the model is what one thread does to a queue
under its lock, or any other step of the player and the decoder.

Whatever the order of the steps is, no song gets lost and none is played that was not queued
(`always_carried`), and the player and the queues never follow a null or dangling pointer
(`always_goesOn`).
-/

namespace Squash.Pipeline

open LinkedList SongQueue Transition
open Player (Song PlayState PlayerPc PlayerThread Wf)

variable {π : Type}

/-! ## The system -/

structure State (π : Type) where
  player : Player.State π
  /-- `database_info.songs`. The counters that `feedback` changes are of no interest here. -/
  songs : List SongRecord
  songQueue : SongQueue
  pastQueue : SongQueue

/-- When the threads are started: the database is there, and both queues are empty. -/
def start (songs : List SongRecord) : State π := ⟨Player.init, songs, empty, empty⟩

/-- A step of the threads. The last one is any step of the player and the decoder that has nothing to
do with the queues. -/
inductive Label (π : Type) where
  | playlistQueueSong (song : Nat) (startPosition : Int)
  | select (selected : Nat)
  | doDelete
  | doRemovePlaylistEntry
  | noSong
  | nextSong (opens soundOpens : Bool)
  /-- The `start_position` of the new entry is what is in the memory allocated. -/
  | afterSong (startPosition : Int)
  | player (l : Player.Step π)
  deriving DecidableEq, Repr

/-- What becomes of songs. -/
inductive Event where
  | queued (entry : SongQueueEntry)
  | removed (song : Nat)
  | started (entry : SongQueueEntry)
  | retired (song : Nat)
  deriving DecidableEq, Repr

/-- The player looks at a queue. -/
def usesQueue : Player.Step π → Bool
  | .noSong | .beforeSong .. | .afterSong => true
  | _ => false

/-- What the player reads through the pointer to a song. A type that is not loaded is -1, and no
index into `song_functions`. -/
def State.song (s : State π) (i : Nat) : Option Song := do
  let record ← s.songs[i]?
  let songType ← record.songType
  return ⟨i, songType, record.playLength⟩

/-- Take the selected entry out of the queue. -/
def State.remove (s : State π) : Option (State π × List Event) := do
  let (songQueue, song) ← s.songQueue.removeSelected
  return ({ s with songQueue }, [.removed song])

/-- One step. It does not happen when its thread is somewhere else, or the process is gone, or a
pointer leads nowhere. -/
def step (loader : TypedLoader) (wantedSize : Int) (s : State π) (l : Label π) :
    Option (State π × List Event) :=
  if s.player.player.pc.alive = false then none
  else
    match l with
    | .playlistQueueSong song startPosition => do
      let record ← s.songs[song]?
      let record ← ensureSongFullyLoaded loader.toSongLoader record
      let songQueue ← s.songQueue.queueSong ⟨song, startPosition⟩
      return ({ s with songs := s.songs.set song record, songQueue },
        [.queued ⟨song, startPosition⟩])
    | .select selected => some ({ s with songQueue := { s.songQueue with selected } }, [])
    | .doDelete =>
      if s.songQueue.selected < s.songQueue.size ∧ s.songQueue.selected ≥ 0 then s.remove
      else some (s, [])
    | .doRemovePlaylistEntry =>
      if s.songQueue.selected < s.songQueue.size then s.remove else some (s, [])
    | .noSong =>
      if s.songQueue.size ≤ 0 then
        (Player.step s.player .noSong).map fun r => ({ s with player := r.1 }, [])
      else none
    | .nextSong opens soundOpens =>
      if s.songQueue.size ≤ 0 then none
      else do
        let (songQueue, entry) ← s.songQueue.getNextSongInfo
        let entry ← entry
        let song ← s.song entry.songInfo
        let (player, _) ←
          Player.step s.player (.beforeSong song entry.startPosition opens soundOpens)
        return ({ s with player, songQueue }, [.started entry])
    | .afterSong startPosition => do
      let (player, _) ← Player.step s.player .afterSong
      let song ← s.player.player.curSong
      let pastQueue ← s.pastQueue.doneWithSongInfo wantedSize ⟨song.id, startPosition⟩
      return ({ s with player, pastQueue }, [.retired song.id])
    | .player l =>
      if usesQueue l then none
      else (Player.step s.player l).map fun r => ({ s with player := r.1 }, [])

/-! ## The property -/

/-- The books of a run: the songs that each kind of event was about, in the order of the events. -/
structure Books where
  queued : List SongQueueEntry
  removed : List Nat
  started : List SongQueueEntry
  retired : List Nat
  deriving DecidableEq, Repr

def Books.enter (b : Books) : Event → Books
  | .queued entry => { b with queued := b.queued ++ [entry] }
  | .removed song => { b with removed := b.removed ++ [song] }
  | .started entry => { b with started := b.started ++ [entry] }
  | .retired song => { b with retired := b.retired ++ [song] }

def books (t : List Event) : Books := t.foldl Books.enter ⟨[], [], [], []⟩

/-- The song that the player has started and is not done with. A player that has halted keeps its
song for ever. -/
def inHand (p : PlayerThread π) : Option Nat :=
  match p.pc, p.playState with
  | .halted _, _ | _, .inSong | _, .afterSong => p.curSong.map Song.id
  | _, .beforeSong => none

/-- The entries of the queue, from the first to the last. -/
def Holds (q : SongQueue) (entries : List SongQueueEntry) : Prop :=
  ∃ l, WellFormed q l ∧ l.map Prod.snd = entries

/-- Of all that was queued, what was not started and was not removed waits. -/
structure Kept (waiting : List SongQueueEntry) (b : Books) : Prop where
  /-- The songs come in the order in which they were queued. -/
  order : (b.started ++ waiting).Sublist b.queued
  /-- None is missing, and none is there twice. -/
  all : ((b.started ++ waiting).map SongQueueEntry.songInfo ++ b.removed).Perm
    (b.queued.map SongQueueEntry.songInfo)

/-- What has become of the songs that were queued. -/
structure Carried (wantedSize : Int) (s : State π) (b : Books) : Prop where
  waiting : ∃ entries, Holds s.songQueue entries ∧ Kept entries b
  /-- The player is done with all songs that it started but the one in its hands. -/
  played : b.started.map SongQueueEntry.songInfo =
    b.retired ++ (inHand s.player.player).toList
  /-- The newest of these are in the past queue, the newest first. -/
  past : ∃ entries, Holds s.pastQueue entries ∧
    entries.map SongQueueEntry.songInfo = b.retired.reverse.take wantedSize.toNat

/-! ## The player -/

section Player

variable {p : PlayerThread π} {s s' : Player.State π} {es : List (Player.Event π)}

theorem inHand_of_ne_halted (h : ∀ lockHeld, p.pc ≠ .halted lockHeld) :
    inHand p = if p.playState = .beforeSong then none else p.curSong.map Song.id := by
  cases hplay : p.playState <;> cases hpc : p.pc <;> simp [inHand, hplay, hpc]
  all_goals exact absurd hpc (h _)

/-- Away from the queues the player keeps the song that it has. -/
theorem inHand_move {l : Player.Step π} (hs : Wf s) (h : Player.Move s l s' es)
    (hl : usesQueue l = false) : inHand s'.player = inHand s.player := by
  cases h with
  | decode | sectionIdle | sectionFrame | wake => rfl
  | skip hpc =>
      rw [Player.execCommand_skip, inHand_of_ne_halted hpc.plain.ne_halted, inHand_of_ne_halted]
      · cases hplay : s.player.playState <;> simp
      · intro lockHeld
        dsimp only
        split <;> exact nofun
  | stopInSong hpc hin =>
      rw [Player.execCommand_stop_inSong hin, inHand_of_ne_halted hpc.plain.ne_halted,
        inHand_of_ne_halted (by exact nofun)]
  | stopIdle hpc hin =>
      rw [Player.execCommand_stop_idle hin, inHand_of_ne_halted hpc.plain.ne_halted,
        inHand_of_ne_halted (by exact nofun)]
  | quiet _ _ _ hfrom _ hpc hsong hplay =>
      rw [inHand_of_ne_halted hfrom.ne_halted, inHand_of_ne_halted hpc.ne_halted, hsong, hplay]
  | noFrame hpc hplay | take hpc hplay => simp [inHand, hpc, hplay]
  | ends hpc hends => simp [inHand, hpc, hs.taking (.inr ⟨_, hpc⟩)]
  | unknownType | openFails | opens | retire => cases hl

/-- The player is looking for a song to start. -/
def WantsSong (p : PlayerThread π) : Prop :=
  (p.pc = .dispatch ∨ p.pc = .waitSong) ∧ p.playState = .beforeSong

/-- The player is going to give its song away. -/
def GivesSong (p : PlayerThread π) : Prop := p.pc = .dispatch ∧ p.playState = .afterSong

theorem WantsSong.step_beforeSong (h : WantsSong s.player) (song : Song) (start : Int)
    (opens soundOpens : Bool) :
    Player.step s (.beforeSong song start opens soundOpens) =
      some (Player.startSong s song start opens soundOpens) := by
  obtain ⟨hpc | hpc, hplay⟩ := h <;> simp only [Player.step, hpc, hplay]

theorem wantsSong_of_step {song : Song} {start : Int} {opens soundOpens : Bool}
    (h : Player.step s (.beforeSong song start opens soundOpens) = some (s', es)) :
    WantsSong s.player := by
  cases hpc : s.player.pc <;> cases hplay : s.player.playState <;>
    simp only [Player.step, hpc, hplay, reduceCtorEq] at h
  · exact ⟨.inl hpc, hplay⟩
  · exact ⟨.inr hpc, hplay⟩

theorem GivesSong.step_afterSong (h : GivesSong s.player) :
    Player.step s .afterSong =
      some ({ s with player := { s.player with pc := .top, playState := .beforeSong } },
        [.retired s.player.curSong]) := by
  simp only [Player.step, h.1, h.2]

theorem givesSong_of_step (h : Player.step s .afterSong = some (s', es)) : GivesSong s.player := by
  cases hpc : s.player.pc <;> cases hplay : s.player.playState <;>
    simp only [Player.step, hpc, hplay, reduceCtorEq] at h
  exact ⟨hpc, hplay⟩

/-- The player starts a song with nothing in its hands. -/
theorem WantsSong.inHand (h : WantsSong s.player) : inHand s.player = none := by
  obtain ⟨hpc | hpc, hplay⟩ := h <;> simp only [Pipeline.inHand, hpc, hplay]

theorem inHand_startSong (song : Song) (start : Int) (opens soundOpens : Bool) :
    Pipeline.inHand (Player.startSong s song start opens soundOpens).1.player = some song.id := by
  by_cases htype : song.songType = .unknown
  · rw [Player.startSong_unknown htype]
    rfl
  · cases opens with
    | false =>
        rw [Player.startSong_fails htype]
        rfl
    | true =>
        rw [Player.startSong_opens htype]
        cases soundOpens <;> rfl

/-- It gives away the song in its hands. -/
theorem GivesSong.inHand (h : GivesSong s.player) (hs : Wf s) :
    ∃ song, s.player.curSong = some song ∧ Pipeline.inHand s.player = some song.id := by
  cases hsong : s.player.curSong with
  | none =>
      have hplay := hs.noSong hsong
      rw [h.2] at hplay
      cases hplay
  | some song => exact ⟨song, rfl, by simp [Pipeline.inHand, h.1, h.2, hsong]⟩

end Player

/-! ## The books -/

section Books

variable {waiting : List SongQueueEntry} {b : Books}

@[simp] theorem books_nil : books [] = ⟨[], [], [], []⟩ := rfl

@[simp] theorem books_snoc (t : List Event) (e : Event) : books (t ++ [e]) = (books t).enter e := by
  rw [books, List.foldl_append]
  rfl

theorem kept_nil : Kept [] ⟨[], [], [], []⟩ := ⟨.slnil, .nil⟩

theorem Kept.queued (h : Kept waiting b) (entry : SongQueueEntry) :
    Kept (waiting ++ [entry]) (b.enter (.queued entry)) := by
  refine ⟨?_, ?_⟩
  · show (b.started ++ (waiting ++ [entry])).Sublist (b.queued ++ [entry])
    rw [← List.append_assoc]
    exact h.order.append_right [entry]
  · apply List.perm_iff_count.mpr
    intro song
    have hcount := h.all.count_eq song
    simp only [Books.enter, List.map_append, List.count_append] at hcount ⊢
    omega

theorem Kept.started {entry : SongQueueEntry} (h : Kept (entry :: waiting) b) :
    Kept waiting (b.enter (.started entry)) := by
  have hlist : b.started ++ entry :: waiting = b.started ++ [entry] ++ waiting := by simp
  exact ⟨hlist ▸ h.order, hlist ▸ h.all⟩

theorem Kept.removed {i : Nat} {entry : SongQueueEntry} (h : Kept waiting b)
    (hi : waiting[i]? = some entry) :
    Kept (waiting.eraseIdx i) (b.enter (.removed entry.songInfo)) := by
  obtain ⟨hlt, rfl⟩ := List.getElem?_eq_some_iff.mp hi
  refine ⟨((List.eraseIdx_sublist waiting i).append_left b.started).trans h.order, ?_⟩
  apply List.perm_iff_count.mpr
  intro song
  have hcount := h.all.count_eq song
  have herase := ((List.getElem_cons_eraseIdx_perm hlt).map SongQueueEntry.songInfo).count_eq song
  rw [List.map_cons, ← List.singleton_append, List.count_append] at herase
  simp only [Books.enter, List.map_append, List.count_append] at hcount ⊢
  omega

end Books

/-! ## The queues -/

/-- The song taken out is the one of the selected entry. -/
theorem removeSelected_represents {q : SongQueue} {e : Entries} (h : Represents q e)
    (hlt : q.selected < q.size) :
    ∃ q' entry, q.removeSelected = some (q', entry.songInfo) ∧
      e.entries[e.selected]? = some entry ∧
      Represents q' { e with entries := e.entries.eraseIdx e.selected } := by
  obtain ⟨l, hl, hentries⟩ := h.wellFormed
  have hlt' : e.selected < l.length := by
    have hsize := hl.size
    have hselected := h.selected
    omega
  have hsplit : l = l.take e.selected ++ l[e.selected] :: l.drop (e.selected + 1) := by
    rw [List.getElem_cons_drop, List.take_append_drop]
  have hbefore : q.selected = (l.take e.selected).length := by
    rw [h.selected, List.length_take_of_le (Nat.le_of_lt hlt')]
  rw [hsplit] at hl
  obtain ⟨q', hremove, hwell, hsame⟩ := removeSelected_wellFormed hl hbefore
  refine ⟨q', l[e.selected].2, hremove, ?_, ⟨_, hwell, ?_⟩, hsame.trans h.selected⟩
  · rw [← hentries, List.getElem?_map, List.getElem?_eq_getElem hlt']
    rfl
  · rw [← hentries, List.eraseIdx_eq_take_drop_succ, List.map_append, List.map_take, List.map_drop]

/-- The player gets the first entry. -/
theorem getNextSongInfo_represents {q : SongQueue} {e : Entries} {entry : SongQueueEntry}
    {rest : List SongQueueEntry} (h : Represents q e) (hentries : e.entries = entry :: rest) :
    ∃ q', q.getNextSongInfo = some (q', some entry) ∧
      Represents q' { e with entries := rest } := by
  obtain ⟨l, hl, hmap⟩ := h.wellFormed
  obtain ⟨q', hnext, hwell, hsame⟩ := getNextSongInfo_wellFormed hl
  rw [hmap, hentries] at hnext
  refine ⟨q', hnext, ⟨_, hwell, ?_⟩, hsame.trans h.selected⟩
  rw [List.map_tail, hmap, hentries]
  rfl

theorem queueSong_represents {q : SongQueue} {e : Entries} (h : Represents q e)
    (entry : SongQueueEntry) :
    ∃ q', q.queueSong entry = some q' ∧
      Represents q' { e with entries := e.entries ++ [entry] } := by
  exact operate_represents q e (.playlistQueueSong entry.songInfo entry.startPosition) h

/-- The type of the song is loaded. -/
def Loaded (songs : List SongRecord) (i : Nat) : Prop :=
  ∃ record type, songs[i]? = some record ∧ record.songType = some type

/-- A song that is loaded is there for the player. -/
theorem Loaded.song {s : State π} {i : Nat} (h : Loaded s.songs i) :
    ∃ song, s.song i = some song ∧ song.id = i := by
  obtain ⟨record, type, hrecord, htype⟩ := h
  exact ⟨⟨i, type, record.playLength⟩, by simp [State.song, hrecord, htype], rfl⟩

theorem song_id {s : State π} {i : Nat} {song : Song} (h : s.song i = some song) : song.id = i := by
  obtain ⟨record, -, hrest⟩ := Option.bind_eq_some_iff.mp h
  obtain ⟨type, -, hsong⟩ := Option.bind_eq_some_iff.mp hrest
  cases hsong
  rfl

section Set

variable {songs : List SongRecord} {i : Nat} {record : SongRecord} {type : SongType}

theorem loaded_set_self (hi : i < songs.length) (htype : record.songType = some type) :
    Loaded (songs.set i record) i :=
  ⟨record, type, by rw [List.getElem?_set_self hi], htype⟩

/-- Loading one song leaves the others loaded. -/
theorem Loaded.set {j : Nat} (h : Loaded songs j) (htype : record.songType = some type) :
    Loaded (songs.set i record) j := by
  obtain ⟨old, oldType, hold, hknown⟩ := h
  by_cases hij : i = j
  · subst hij
    obtain ⟨hi, -⟩ := List.getElem?_eq_some_iff.mp hold
    exact loaded_set_self hi htype
  · exact ⟨old, oldType, by rw [List.getElem?_set_ne hij, hold], hknown⟩

end Set

/-! ## What every step keeps -/

structure Inv (wantedSize : Int) (s : State π) (b : Books) : Prop where
  wf : Wf s.player
  waiting : ∃ e, Represents s.songQueue e ∧ Kept e.entries b ∧
    ∀ entry ∈ e.entries, Loaded s.songs entry.songInfo
  played : b.started.map SongQueueEntry.songInfo = b.retired ++ (inHand s.player.player).toList
  past : ∃ entries, Holds s.pastQueue entries ∧
    entries.map SongQueueEntry.songInfo = b.retired.reverse.take wantedSize.toNat

theorem inv_start (wantedSize : Int) (songs : List SongRecord) :
    Inv wantedSize (start songs : State π) (books []) where
  wf := Player.wf_init
  waiting := ⟨⟨[], 0⟩, represents_empty, kept_nil, nofun⟩
  played := rfl
  past := ⟨[], ⟨[], ⟨.nil none, rfl, rfl⟩, rfl⟩, by simp⟩

theorem Inv.carried {wantedSize : Int} {s : State π} {b : Books} (h : Inv wantedSize s b) :
    Carried wantedSize s b := by
  obtain ⟨e, hrep, hkept, -⟩ := h.waiting
  exact ⟨⟨e.entries, hrep.wellFormed, hkept⟩, h.played, h.past⟩

section Step

variable {loader : TypedLoader} {wantedSize : Int} {s s' : State π} {b : Books} {es : List Event}

theorem Inv.queueSong {record record' : SongRecord} {songQueue : SongQueue} {song : Nat}
    {startPosition : Int} (hs : Inv wantedSize s b) (hrecord : s.songs[song]? = some record)
    (hload : ensureSongFullyLoaded loader.toSongLoader record = some record')
    (hqueue : s.songQueue.queueSong ⟨song, startPosition⟩ = some songQueue) :
    Inv wantedSize { s with songs := s.songs.set song record', songQueue }
      (b.enter (.queued ⟨song, startPosition⟩)) := by
  obtain ⟨e, hrep, hkept, hloaded⟩ := hs.waiting
  obtain ⟨type, htype⟩ := ensureSongFullyLoaded_songType hload
  obtain ⟨hlt, -⟩ := List.getElem?_eq_some_iff.mp hrecord
  obtain ⟨q', hq', hrep'⟩ := queueSong_represents hrep ⟨song, startPosition⟩
  cases hqueue.symm.trans hq'
  refine ⟨hs.wf, ⟨_, hrep', hkept.queued _, ?_⟩, hs.played, hs.past⟩
  intro entry hentry
  rcases List.mem_append.mp hentry with hold | hnew
  · exact (hloaded entry hold).set htype
  · obtain rfl := List.mem_singleton.mp hnew
    exact loaded_set_self hlt htype

theorem Inv.remove (hs : Inv wantedSize s b) (hlt : s.songQueue.selected < s.songQueue.size)
    (h : s.remove = some (s', es)) : ∃ song, es = [.removed song] ∧
      Inv wantedSize s' (b.enter (.removed song)) := by
  obtain ⟨e, hrep, hkept, hloaded⟩ := hs.waiting
  obtain ⟨q', entry, hremove, hentry, hrep'⟩ := removeSelected_represents hrep hlt
  rw [State.remove, hremove] at h
  cases h
  refine ⟨_, rfl, hs.wf, ⟨_, hrep', hkept.removed hentry, ?_⟩, hs.played, hs.past⟩
  intro entry hentry
  exact hloaded entry (List.mem_of_mem_eraseIdx hentry)

theorem Inv.select (hs : Inv wantedSize s b) (selected : Nat) :
    Inv wantedSize { s with songQueue := { s.songQueue with selected } } b := by
  obtain ⟨e, ⟨⟨l, hl, hentries⟩, -⟩, hkept, hloaded⟩ := hs.waiting
  exact ⟨hs.wf, ⟨{ e with selected }, ⟨⟨l, ⟨hl.list, hl.tail, hl.size⟩, hentries⟩, rfl⟩, hkept,
    hloaded⟩, hs.played, hs.past⟩

/-- The player goes on without looking at the queues. -/
theorem Inv.player {l : Player.Step π} {player : Player.State π} {pes : List (Player.Event π)}
    (hs : Inv wantedSize s b) (h : Player.step s.player l = some (player, pes))
    (hhand : Player.Move s.player l player pes → inHand player.player = inHand s.player.player) :
    Inv wantedSize { s with player } b := by
  have hmove := Player.step_move hs.wf.decoder h
  exact ⟨Player.wf_move hs.wf hmove, hs.waiting, by rw [hs.played, hhand hmove], hs.past⟩

theorem Inv.nextSong {songQueue : SongQueue} {entry : SongQueueEntry} {song : Song}
    {opens soundOpens : Bool} {player : Player.State π} {pes : List (Player.Event π)}
    (hs : Inv wantedSize s b) (hqueue : s.songQueue.getNextSongInfo = some (songQueue, some entry))
    (hsong : s.song entry.songInfo = some song)
    (h : Player.step s.player (.beforeSong song entry.startPosition opens soundOpens) =
      some (player, pes)) :
    Inv wantedSize { s with player, songQueue } (b.enter (.started entry)) := by
  obtain ⟨e, hrep, hkept, hloaded⟩ := hs.waiting
  have hwants := wantsSong_of_step h
  have hmove := Player.step_move hs.wf.decoder h
  rw [hwants.step_beforeSong] at h
  have hhand : inHand player.player = some entry.songInfo := by
    have hplayer : player = _ := (congrArg Prod.fst (Option.some.inj h)).symm
    rw [hplayer, inHand_startSong, song_id hsong]
  -- the queue was not empty
  obtain ⟨rest, hrest⟩ : ∃ rest, e.entries = entry :: rest := by
    obtain ⟨l, hl, hentries⟩ := hrep.wellFormed
    obtain ⟨q', hnext, -⟩ := getNextSongInfo_wellFormed hl
    rw [hqueue, hentries] at hnext
    cases hcase : e.entries with
    | nil => simp [hcase] at hnext
    | cons first rest =>
        simp only [hcase, List.head?_cons, Option.some.injEq, Prod.mk.injEq] at hnext
        exact ⟨rest, by rw [hnext.2]⟩
  obtain ⟨q', hnext, hrep'⟩ := getNextSongInfo_represents hrep hrest
  cases hqueue.symm.trans hnext
  rw [hrest] at hkept hloaded
  refine ⟨Player.wf_move hs.wf hmove, ⟨_, hrep', hkept.started, ?_⟩, ?_, hs.past⟩
  · intro other hother
    exact hloaded other (List.mem_cons_of_mem _ hother)
  · have hplayed := hs.played
    rw [hwants.inHand, Option.toList_none, List.append_nil] at hplayed
    show (b.started ++ [entry]).map _ = _
    rw [hhand, List.map_append, hplayed]
    rfl

theorem Inv.afterSong {pastQueue : SongQueue} {song : Song} {startPosition : Int}
    {player : Player.State π} {pes : List (Player.Event π)} (hs : Inv wantedSize s b)
    (hwanted : 0 < wantedSize) (h : Player.step s.player .afterSong = some (player, pes))
    (hsong : s.player.player.curSong = some song)
    (hqueue : s.pastQueue.doneWithSongInfo wantedSize ⟨song.id, startPosition⟩ = some pastQueue) :
    Inv wantedSize { s with player, pastQueue } (b.enter (.retired song.id)) := by
  obtain ⟨e, hrep, hkept, hloaded⟩ := hs.waiting
  have hgives := givesSong_of_step h
  have hmove := Player.step_move hs.wf.decoder h
  rw [hgives.step_afterSong] at h
  cases h
  refine ⟨Player.wf_move hs.wf hmove, ⟨e, hrep, ⟨hkept.order, hkept.all⟩, hloaded⟩, ?_, ?_⟩
  · obtain ⟨song', hsong', hhand⟩ := hgives.inHand hs.wf
    cases hsong.symm.trans hsong'
    show b.started.map _ = b.retired ++ [song.id] ++ []
    rw [hs.played, hhand, List.append_nil]
    rfl
  · obtain ⟨entries, ⟨l, hl, rfl⟩, hpast⟩ := hs.past
    obtain ⟨q', l', hq', hl', hentries, -⟩ :=
      doneWithSongInfo_wellFormed hl hwanted ⟨song.id, startPosition⟩
    cases hqueue.symm.trans hq'
    refine ⟨_, ⟨l', hl', rfl⟩, ?_⟩
    show _ = (b.retired ++ [song.id]).reverse.take wantedSize.toNat
    obtain ⟨n, hn⟩ : ∃ n, wantedSize.toNat = n + 1 := ⟨wantedSize.toNat - 1, by omega⟩
    rw [hentries, List.map_take, List.map_cons, hpast, hn]
    simp [List.take_take]

/-- **Every step keeps the books.** -/
theorem inv_step {l : Label π} {t : List Event} (hwanted : 0 < wantedSize)
    (hs : Inv wantedSize s (books t)) (h : step loader wantedSize s l = some (s', es)) :
    Inv wantedSize s' (books (t ++ es)) := by
  have hsame : Inv wantedSize s (books (t ++ [])) := by rwa [List.append_nil]
  cases halive : s.player.player.pc.alive with
  | false => simp [step, halive] at h
  | true =>
  simp only [step, halive, Bool.true_eq_false, if_false] at h
  cases l with
  | playlistQueueSong song startPosition =>
      obtain ⟨record, hrecord, h⟩ := Option.bind_eq_some_iff.mp h
      obtain ⟨record', hload, h⟩ := Option.bind_eq_some_iff.mp h
      obtain ⟨songQueue, hqueue, h⟩ := Option.bind_eq_some_iff.mp h
      cases h
      rw [books_snoc]
      exact hs.queueSong hrecord hload hqueue
  | select selected =>
      cases h
      exact hsame.select selected
  | doDelete =>
      dsimp only at h
      split at h
      · next hguard =>
          obtain ⟨song, rfl, hs'⟩ := hs.remove hguard.1 h
          rwa [books_snoc]
      · cases h
        exact hsame
  | doRemovePlaylistEntry =>
      dsimp only at h
      split at h
      · next hguard =>
          obtain ⟨song, rfl, hs'⟩ := hs.remove hguard h
          rwa [books_snoc]
      · cases h
        exact hsame
  | noSong =>
      dsimp only at h
      split at h
      · obtain ⟨⟨player, pes⟩, hstep, hr⟩ := Option.map_eq_some_iff.mp h
        cases hr
        refine hsame.player hstep ?_
        intro hmove
        cases hmove with
        | quiet _ _ _ hfrom _ hpc hsong hplay =>
            rw [inHand_of_ne_halted hfrom.ne_halted, inHand_of_ne_halted hpc.ne_halted, hsong,
              hplay]
      · cases h
  | nextSong opens soundOpens =>
      dsimp only at h
      split at h
      · cases h
      · obtain ⟨⟨songQueue, first⟩, hqueue, h⟩ := Option.bind_eq_some_iff.mp h
        obtain ⟨entry, hentry, h⟩ := Option.bind_eq_some_iff.mp h
        obtain ⟨song, hsong, h⟩ := Option.bind_eq_some_iff.mp h
        obtain ⟨⟨player, pes⟩, hstep, h⟩ := Option.bind_eq_some_iff.mp h
        cases h
        obtain rfl : first = some entry := hentry
        rw [books_snoc]
        exact hs.nextSong hqueue hsong hstep
  | afterSong startPosition =>
      obtain ⟨⟨player, pes⟩, hstep, h⟩ := Option.bind_eq_some_iff.mp h
      obtain ⟨song, hsong, h⟩ := Option.bind_eq_some_iff.mp h
      obtain ⟨pastQueue, hqueue, h⟩ := Option.bind_eq_some_iff.mp h
      cases h
      rw [books_snoc]
      exact hs.afterSong hwanted hstep hsong hqueue
  | player l =>
      dsimp only at h
      split at h
      · cases h
      · next huse =>
          obtain ⟨⟨player, pes⟩, hstep, hr⟩ := Option.map_eq_some_iff.mp h
          cases hr
          exact hsame.player hstep fun hmove =>
            inHand_move hs.wf hmove (Bool.eq_false_iff.mpr huse)

theorem always_inv (loader : TypedLoader) {wantedSize : Int} (hwanted : 0 < wantedSize)
    (songs : List SongRecord) (ls : List (Label π)) :
    Always (observe (step loader wantedSize))
      (fun st => Inv wantedSize st.1 (books st.2)) ((start songs, []) : State π × List Event) ls := by
  have hstep : ∀ (st : State π × List Event) (l : Label π) (st' : State π × List Event),
      Inv wantedSize st.1 (books st.2) → observe (step loader wantedSize) st l = some st' →
      Inv wantedSize st'.1 (books st'.2) := by
    intro st l st' hs h
    obtain ⟨s', es, hstep, rfl⟩ := observe_eq_some.mp h
    exact inv_step hwanted hs hstep
  exact always_of_step (fun _ h => h) hstep (inv_start wantedSize songs) ls

end Step

/-! ## No step fails -/

/-- Where the player or another thread comes to a queue, it finds what it looks for. -/
structure GoesOn (loader : TypedLoader) (wantedSize : Int) (s : State π) : Prop where
  /-- A song can be queued if its file can be loaded. -/
  queueSong : s.player.player.pc.alive = true → ∀ song record record' startPosition,
    s.songs[song]? = some record →
    ensureSongFullyLoaded loader.toSongLoader record = some record' →
    ∃ s', step loader wantedSize s (.playlistQueueSong song startPosition) =
      some (s', [.queued ⟨song, startPosition⟩])
  doDelete : s.player.player.pc.alive = true → ∃ r, step loader wantedSize s .doDelete = some r
  doRemovePlaylistEntry : s.player.player.pc.alive = true →
    ∃ r, step loader wantedSize s .doRemovePlaylistEntry = some r
  /-- The player starts the first song that waits, if there is one. -/
  nextSong : WantsSong s.player.player → 0 < s.songQueue.size → ∀ opens soundOpens,
    ∃ s' entry, step loader wantedSize s (.nextSong opens soundOpens) = some (s', [.started entry])
  /-- The song that the player has finished is put into the past queue. -/
  afterSong : GivesSong s.player.player → ∀ startPosition,
    ∃ s' song, step loader wantedSize s (.afterSong startPosition) = some (s', [.retired song])

section Progress

variable {loader : TypedLoader} {wantedSize : Int} {s : State π} {b : Books}

theorem WantsSong.alive {p : PlayerThread π} (h : WantsSong p) : p.pc.alive = true := by
  obtain ⟨hpc | hpc, -⟩ := h <;> rw [hpc] <;> rfl

theorem GivesSong.alive {p : PlayerThread π} (h : GivesSong p) : p.pc.alive = true := by
  rw [h.1]
  rfl

theorem Inv.remove_isSome (hs : Inv wantedSize s b)
    (hlt : s.songQueue.selected < s.songQueue.size) : ∃ r, s.remove = some r := by
  obtain ⟨e, hrep, -⟩ := hs.waiting
  obtain ⟨q', entry, hremove, -⟩ := removeSelected_represents hrep hlt
  exact ⟨_, by rw [State.remove, hremove]; rfl⟩

theorem Inv.goesOn (hwanted : 0 < wantedSize) (hs : Inv wantedSize s b) :
    GoesOn loader wantedSize s := by
  obtain ⟨e, hrep, hkept, hloaded⟩ := hs.waiting
  refine ⟨?_, ?_, ?_, ?_, ?_⟩
  · intro halive song record record' startPosition hrecord hload
    obtain ⟨q', hqueue, -⟩ := queueSong_represents hrep ⟨song, startPosition⟩
    exact ⟨_, by simp [step, halive, hrecord, hload, hqueue]; rfl⟩
  · intro halive
    simp only [step, halive, Bool.true_eq_false, if_false]
    split
    · next hguard => exact hs.remove_isSome hguard.1
    · exact ⟨_, rfl⟩
  · intro halive
    simp only [step, halive, Bool.true_eq_false, if_false]
    split
    · next hguard => exact hs.remove_isSome hguard
    · exact ⟨_, rfl⟩
  · intro hwants hsize opens soundOpens
    have hne : e.entries ≠ [] := by
      intro hnil
      rw [hrep.size, hnil] at hsize
      exact Int.lt_irrefl 0 hsize
    obtain ⟨entry, rest, hrest⟩ := List.exists_cons_of_ne_nil hne
    obtain ⟨q', hnext, -⟩ := getNextSongInfo_represents hrep hrest
    obtain ⟨song, hsong, -⟩ := (hloaded entry (by simp [hrest])).song
    have hplayer := hwants.step_beforeSong song entry.startPosition opens soundOpens
    refine ⟨{ s with
      player := (Player.startSong s.player song entry.startPosition opens soundOpens).1
      songQueue := q' }, entry, ?_⟩
    simpa [step, hwants.alive, hnext, hsong, hplayer] using hsize
  · intro hgives startPosition
    obtain ⟨song, hsong, -⟩ := hgives.inHand hs.wf
    obtain ⟨entries, ⟨l, hl, -⟩, -⟩ := hs.past
    obtain ⟨q', l', hq', -⟩ := doneWithSongInfo_wellFormed hl hwanted ⟨song.id, startPosition⟩
    refine ⟨{ s with
      player := { s.player with
        player := { s.player.player with pc := .top, playState := .beforeSong } }
      pastQueue := q' }, song.id, ?_⟩
    simp [step, hgives.alive, hgives.step_afterSong, hsong, hq']

end Progress

/-! ## Runs -/

/-- A loader that takes every file for music of a minute. -/
def loaderOne : TypedLoader where
  getSongType _ _ := .flac
  loadMeta song := some { song with metaKeys := some [] }
  calcDuration _ _ := some 60000
  loadMeta_songType := by
    rintro song _ type ⟨⟩ htype
    exact htype

def songOne : SongRecord := .loadFile (fun _ => "/music".toList) "a.flac".toList

def runOne : List (Label Unit) :=
  [.playlistQueueSong 0 0, .playlistQueueSong 0 5, .player (.command .play), .player .endCommands,
    .nextSong true true, .select 0, .doDelete, .player .decoderSection,
    .player (.decode ⟨none, 0, 0⟩), .player .decoderSection, .player .endCommands, .player .inSong,
    .player .useFrame, .player .endCommands, .afterSong 0]

/-- **No song gets lost on its way.** In every run, whatever the user and the threads do, the songs
that were queued are those that were started, those that wait and those that were removed; the player
starts them in the order in which they were queued; and the past queue has the newest of those that
the player is done with. -/
theorem always_carried (loader : TypedLoader) {wantedSize : Int} (hwanted : 0 < wantedSize)
    (songs : List SongRecord) (ls : List (Label π)) :
    Always (observe (step loader wantedSize))
      (fun st => Carried wantedSize st.1 (books st.2)) ((start songs, []) : State π × List Event) ls :=
  (always_inv loader hwanted songs ls).mono fun _ h => h.carried

/-- A song is queued, played to its end and given to the past queue, while another one is queued and
removed. -/
theorem always_carried_two :
    ∃ st, run (observe (step loaderOne 1)) ((start [songOne] : State Unit), []) runOne = some st ∧
      Carried 1 st.1 (books st.2) ∧ (books st.2).retired = [0] := by
  refine ⟨_, rfl, ?_, rfl⟩
  exact (always_carried loaderOne (by decide) [songOne] runOne).at_end rfl

end Squash.Pipeline
