import Squash.Stat.Aggregates
import Squash.Stat.Loading

/-!
# The running sums when `start_song_picker` is interrupted

On the EMPEG the loop of `start_song_picker` drops the lock before each song, and `feedback` and
`do_song_rating_adjust` may come in between. They take away the old weight of their song even if the
loop has not added it yet; the loop adds the new one later, so the difference is counted twice.

An `EarlyChange` is such a change of a song that is not summed. The sums are a recount in the end if
and only if the early changes cancel (`always_recount_iff_cancels`).
-/

namespace Squash

open RunningSum Transition

/-! ## Steps -/

/-- `next` is the song that the loop is about to add; null when the function has returned. -/
structure PickerState where
  store : Store
  next : Option Nat

/-- A change to a song that is not summed yet: its statistics before the call, and the arguments. -/
inductive EarlyChange where
  | feedback (stat : StatInfo) (direction : Int)
  | songRatingAdjust (stat : StatInfo) (relative : Bool) (amount : Int)

inductive PickerStep where
  | iterate
  | feedback (i : Nat) (direction : Int)
  | songRatingAdjust (song : Option Nat) (relative : Bool) (amount : Int)

namespace PickerState

/-- Go on until the lock is dropped, before song `n`, or until the end. -/
def resume (s : Store) (n : Nat) : PickerState :=
  if n < s.databaseInfo.songs.length then ⟨s, some n⟩
  else ⟨{ s with databaseInfo := { s.databaseInfo with statsLoaded := true } }, none⟩

def start (s : Store) : PickerState :=
  resume { s with databaseInfo := s.databaseInfo.clearSums } 0

/-- How many songs are summed. -/
def summed (s : PickerState) : Nat := s.next.getD s.store.databaseInfo.songs.length

end PickerState

/-- One step, with the early change that it makes. -/
def pickerStep (config : Config) (s : PickerState) :
    PickerStep → Option (PickerState × List EarlyChange)
  | .iterate => do
    let n ← s.next
    let song ← s.store.databaseInfo.songs[n]?
    return (.resume
      { s.store with databaseInfo := s.store.databaseInfo.addSong config song.stat } (n + 1), [])
  | .feedback i direction => do
    let song ← s.store.databaseInfo.songs[i]?
    let store ← Squash.feedback config s.store i direction
    return ({ s with store }, if i < s.summed then [] else [.feedback song.stat direction])
  | .songRatingAdjust none _ _ => some (s, [])
  | .songRatingAdjust (some i) relative amount => do
    let song ← s.store.databaseInfo.songs[i]?
    let store ← Squash.songRatingAdjust config s.store (some i) relative amount
    return ({ s with store },
      if i < s.summed then [] else [.songRatingAdjust song.stat relative amount])

/-! ## Early changes -/

namespace EarlyChange

def before : EarlyChange → StatInfo
  | .feedback stat _ => stat
  | .songRatingAdjust stat _ _ => stat

def after : EarlyChange → StatInfo
  | .feedback stat direction => stat.feedback direction
  | .songRatingAdjust stat relative amount => stat.adjust relative amount

def isFeedback : EarlyChange → Bool
  | .feedback _ _ => true
  | .songRatingAdjust _ _ _ => false

/-- How much the change makes the sums wrong. -/
def excess (config : Config) (e : EarlyChange) : Sums :=
  e.after.weight config - e.before.weight config

def ratingChange (config : Config) (e : EarlyChange) : ℚ :=
  getRating config e.after - getRating config e.before

def sqrRatingChange (config : Config) (e : EarlyChange) : ℚ :=
  getRating config e.after * getRating config e.after -
    getRating config e.before * getRating config e.before

end EarlyChange

/-- There was no early feedback, and the early changes of manual ratings left the sum of the ratings
and the sum of their squares as they were. -/
structure Cancels (config : Config) (t : List EarlyChange) : Prop where
  noFeedback : ∀ e ∈ t, e.isFeedback = false
  rating : (t.map (EarlyChange.ratingChange config)).sum = 0
  sqrRating : (t.map (EarlyChange.sqrRatingChange config)).sum = 0

def drift (config : Config) (t : List EarlyChange) : Sums :=
  (t.map (EarlyChange.excess config)).sum

variable {config : Config} {s : PickerState} {store : Store} {t : List EarlyChange} {i n : Nat}

/-- The drift is that of the ratings, of their squares, and of the counts. -/
theorem drift_ratings (config : Config) (t : List EarlyChange) :
    (drift config t).1 = (t.map (EarlyChange.ratingChange config)).sum ∧
      (drift config t).2.1 = (t.map (EarlyChange.sqrRatingChange config)).sum := by
  induction t with
  | nil => exact ⟨rfl, rfl⟩
  | cons e t ih =>
      unfold drift at ih ⊢
      simp only [List.map_cons, List.sum_cons, Prod.fst_add, Prod.snd_add, ih]
      exact ⟨rfl, rfl⟩

/-- Every early feedback counts one play or one skip too many. -/
theorem drift_counts (config : Config) (t : List EarlyChange) :
    (drift config t).2.2.1 + (drift config t).2.2.2.2.1 = t.countP EarlyChange.isFeedback := by
  induction t with
  | nil => rfl
  | cons e t ih =>
      have hone : (e.excess config).2.2.1 + (e.excess config).2.2.2.2.1 =
          if e.isFeedback then 1 else 0 := by
        cases e with
        | feedback stat direction =>
            by_cases hdir : direction < 0
            · simp [EarlyChange.excess, EarlyChange.after, EarlyChange.before, StatInfo.weight,
                StatInfo.feedback, EarlyChange.isFeedback, hdir]
            · simp [EarlyChange.excess, EarlyChange.after, EarlyChange.before, StatInfo.weight,
                StatInfo.feedback, EarlyChange.isFeedback, hdir]
        | songRatingAdjust stat relative amount =>
            simp [EarlyChange.excess, EarlyChange.after, EarlyChange.before, StatInfo.weight,
              StatInfo.adjust, EarlyChange.isFeedback]
      unfold drift at ih ⊢
      rw [List.countP_cons, List.map_cons, List.sum_cons]
      push_cast
      rw [← ih, ← hone]
      simp only [Prod.fst_add, Prod.snd_add]
      ring

/-- A manual rating does not change the counts. -/
theorem drift_of_noFeedback (h : ∀ e ∈ t, e.isFeedback = false) :
    (drift config t).2.2 = 0 := by
  induction t with
  | nil => rfl
  | cons e t ih =>
      have hrest := ih fun d hd => h d (List.mem_cons_of_mem e hd)
      unfold drift at hrest ⊢
      rw [List.map_cons, List.sum_cons, Prod.snd_add, Prod.snd_add, hrest, add_zero]
      cases e with
      | feedback stat direction =>
          exact absurd (h _ List.mem_cons_self) (by simp [EarlyChange.isFeedback])
      | songRatingAdjust stat relative amount =>
          simp [EarlyChange.excess, EarlyChange.after, EarlyChange.before, StatInfo.weight,
            StatInfo.adjust]

theorem drift_eq_zero_iff : drift config t = 0 ↔ Cancels config t := by
  obtain ⟨hrating, hsqr⟩ := drift_ratings config t
  constructor
  · intro h
    refine ⟨?_, ?_, ?_⟩
    · have hcount := drift_counts config t
      rw [h] at hcount
      have hzero : t.countP EarlyChange.isFeedback = 0 := by simpa using hcount.symm
      simpa using List.countP_eq_zero.mp hzero
    · rw [← hrating, h]
      rfl
    · rw [← hsqr, h]
      rfl
  · intro h
    exact Prod.ext (hrating.trans h.rating)
      (Prod.ext (hsqr.trans h.sqrRating) (drift_of_noFeedback h.noFeedback))

/-! ## The invariant -/

/-- The sums are those of the songs summed so far, and the early changes too many. -/
structure PickerInv (config : Config) (a : PickerState × List EarlyChange) : Prop where
  accounted : Accounted config a.1.store a.1.summed (drift config a.2)
  finished : a.1.next = none → a.1.store.databaseInfo.statsLoaded = true

theorem pickerInv_resume (h : Accounted config store n (drift config t))
    (hn : n ≤ store.databaseInfo.songs.length) : PickerInv config (.resume store n, t) := by
  unfold PickerState.resume
  split
  · exact ⟨h, nofun⟩
  · next hge =>
      obtain rfl : n = store.databaseInfo.songs.length := by omega
      exact ⟨h, fun _ => rfl⟩

theorem pickerInv_start (config : Config) (store : Store) :
    PickerInv config (.start store, []) := by
  apply pickerInv_resume _ (Nat.zero_le _)
  show (0 : Sums) = prefixSum _ _ 0 + 0
  rw [prefixSum_zero, add_zero]

theorem pickerInv_iterate {song : SongInfo} (h : PickerInv config (s, t)) (hnext : s.next = some n)
    (hsong : s.store.databaseInfo.songs[n]? = some song) :
    PickerInv config (.resume
      { s.store with databaseInfo := s.store.databaseInfo.addSong config song.stat } (n + 1),
      t) := by
  have hacc := h.accounted
  rw [PickerState.summed, hnext] at hacc
  obtain ⟨hlt, -⟩ := List.getElem?_eq_some_iff.mp hsong
  exact pickerInv_resume (hacc.addSong hsong) hlt

/-- A song changes while the loop is at work. -/
theorem pickerInv_change {db : DatabaseInfo} {song : SongInfo} {e : EarlyChange}
    (h : PickerInv config (s, t)) (hsong : s.store.databaseInfo.songs[i]? = some song)
    (hbefore : e.before = song.stat)
    (hdb : s.store.databaseInfo.Reweighed config db song.stat e.after) :
    PickerInv config
      ({ s with
          store := saveSong config
            (({ s.store with databaseInfo := db }).setSong i { song with stat := e.after }) i },
        t ++ if i < s.summed then [] else [e]) := by
  obtain ⟨hlength, hloaded⟩ := hdb.saved (i := i)
  refine ⟨?_, fun hnext => ?_⟩
  · show Accounted config _ (s.next.getD _) _
    rw [hlength]
    apply Accounted.saveSong
    split
    · next hlt =>
        rw [List.append_nil]
        exact h.accounted.reweighed_of_lt hsong hdb hlt
    · next hge =>
        have hacc := h.accounted.reweighed_of_le hdb (Nat.le_of_not_lt hge)
        rw [drift, List.map_append, List.sum_append, List.map_singleton, List.sum_singleton]
        rwa [← hbefore] at hacc
  · exact hloaded.trans (h.finished hnext)

theorem pickerInv_step {a b : PickerState × List EarlyChange} {l : PickerStep}
    (h : PickerInv config a) (hb : observe (pickerStep config) a l = some b) :
    PickerInv config b := by
  obtain ⟨s, t⟩ := a
  obtain ⟨s', es, hs', rfl⟩ := observe_eq_some.mp hb
  cases l with
  | iterate =>
      obtain ⟨n, hnext, hs'⟩ := Option.bind_eq_some_iff.mp hs'
      obtain ⟨song, hsong, hs'⟩ := Option.bind_eq_some_iff.mp hs'
      cases hs'
      rw [List.append_nil]
      exact pickerInv_iterate h hnext hsong
  | feedback i direction =>
      obtain ⟨song, hsong, hs'⟩ := Option.bind_eq_some_iff.mp hs'
      obtain ⟨store, hstore, hs'⟩ := Option.bind_eq_some_iff.mp hs'
      cases hs'
      obtain ⟨song', db, hsong', hdb, rfl⟩ := feedback_inv hstore
      obtain rfl : song = song' := Option.some.inj (hsong.symm.trans hsong')
      exact pickerInv_change (e := .feedback song.stat direction) h hsong rfl hdb
  | songRatingAdjust target relative amount =>
      cases target with
      | none =>
          cases hs'
          rw [List.append_nil]
          exact h
      | some i =>
          obtain ⟨song, hsong, hs'⟩ := Option.bind_eq_some_iff.mp hs'
          obtain ⟨store, hstore, hs'⟩ := Option.bind_eq_some_iff.mp hs'
          cases hs'
          obtain ⟨song', db, hsong', hdb, rfl⟩ := songRatingAdjust_inv hstore
          obtain rfl : song = song' := Option.some.inj (hsong.symm.trans hsong')
          exact pickerInv_change (e := .songRatingAdjust song.stat relative amount) h hsong rfl
            hdb

/-! ## The result -/

/-- **When the function has returned, the sums are a recount exactly if the early changes
cancel.** -/
theorem always_recount_iff_cancels (config : Config) (store : Store) (steps : List PickerStep) :
    Always (observe (pickerStep config))
      (fun a => a.1.next = none → a.1.store.databaseInfo.statsLoaded = true ∧
        (Recount config a.1.store.databaseInfo ↔ Cancels config a.2))
      (.start store, []) steps := by
  have hrecount : ∀ a, PickerInv config a → a.1.next = none →
      a.1.store.databaseInfo.statsLoaded = true ∧
        (Recount config a.1.store.databaseInfo ↔ Cancels config a.2) := by
    intro a h hnext
    have hacc := h.accounted
    rw [PickerState.summed, hnext] at hacc
    exact ⟨h.finished hnext, (accounted_length_iff hacc).trans drift_eq_zero_iff⟩
  apply always_of_step hrecount
  · intro a l b h hb
    exact pickerInv_step h hb
  · exact pickerInv_start config store

/-- A database with one song that was never played, and no files. -/
def oneSong : Store :=
  (loadDbFilenames (fun _ => "/music".toList) ["song".toList] fun _ => none).store

/-- The song is played to its end before the loop comes to it: two plays are counted. -/
theorem not_recount_early_feedback :
    ¬ ∀ (config : Config) (store : Store) (steps : List PickerStep),
      Always (observe (pickerStep config))
        (fun a => a.1.next = none → Recount config a.1.store.databaseInfo)
        (.start store, []) steps := by
  intro h
  have hend := (h ⟨false, 0⟩ oneSong [.feedback 0 1, .iterate]).at_end rfl rfl
  exact absurd hend.playSum (by decide)

end Squash
