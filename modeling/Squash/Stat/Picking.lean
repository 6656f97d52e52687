import Squash.Foundations.Countdown
import Squash.Stat.Rating

/-!
# How `pick_song` avoids repeats

A song that `normal_test` accepts is returned only if its `repeat_counter` has come down to 0, and
starts again from 10 then. So the counter goes around modulo 11 with every accepted draw of the song
(`acceptSong_after`), and the draws of one song are a countdown: between two times that it is
returned it is accepted ten times for nothing.

The turns of the loop are the events of a trace that goes over any number of calls.
`pickSong_repeat_avoidance` is the result about it; `pickSong_eq_some_iff` relates the trace to
`pickSong`.
-/

namespace Squash

open Transition

/-! ## The turns of the loop -/

/-- What becomes of a candidate: it is rejected by `normal_test`, counted down, or returned. -/
inductive Turn where
  | rejected (candidate : Nat)
  | counted (candidate : Nat)
  | returned (candidate : Nat)
  deriving DecidableEq, Repr

def Turn.candidate : Turn → Nat
  | .rejected candidate | .counted candidate | .returned candidate => candidate

/-- `normal_test` accepts song `i`. -/
def Turn.accepts (i : Nat) : Turn → Bool
  | .rejected _ => false
  | .counted candidate | .returned candidate => candidate == i

def Turn.returns (i : Nat) : Turn → Bool
  | .returned candidate => candidate == i
  | _ => false

/-- `(int)((double)database_info.song_count * rand() / (RAND_MAX + 1.0))`. -/
def Draw.candidate (draw : Draw) (songCount : Nat) : Nat := songCount * draw.rand / (randMax + 1)

/-- What `pick_song` does to an accepted song: whether it returns it, and the song afterwards. -/
def acceptSong (song : SongInfo) : Bool × SongInfo :=
  if song.stat.repeatCounter = 0 then
    (true, { song with stat := { song.stat with changed := true, repeatCounter := 10 } })
  else
    (false, { song with
      stat := { song.stat with changed := true, repeatCounter := song.stat.repeatCounter - 1 } })

/-- `pick_song` with the turns it takes. -/
def pickTurns (db : DatabaseInfo) : List Draw → Option (DatabaseInfo × List Turn)
  | [] => none
  | draw :: draws =>
    let candidate := draw.candidate db.songs.length
    match db.songs[candidate]? with
    | none => none
    | some song =>
      if draw.accepted then
        let db := { db with songs := db.songs.set candidate (acceptSong song).2 }
        if (acceptSong song).1 then some (db, [.returned candidate])
        else (pickTurns db draws).map fun r => (r.1, .counted candidate :: r.2)
      else (pickTurns db draws).map fun r => (r.1, .rejected candidate :: r.2)

/-- **What a call returns is the song of its last turn**, and the only one it returns. -/
theorem pickSong_eq_some_iff {db db' : DatabaseInfo} {draws : List Draw} {i : Nat} :
    pickSong db draws = some (db', i) ↔
      ∃ turns, pickTurns db draws = some (db', turns ++ [.returned i]) ∧
        ∀ j, .returned j ∉ turns := by
  induction draws generalizing db with
  | nil => simp [pickSong, pickTurns]
  | cons draw draws ih =>
      -- a turn that does not return its song goes on with the other draws
      have hgoesOn : ∀ (db : DatabaseInfo) (turn : Turn), (∀ j, turn ≠ .returned j) →
          (pickSong db draws = some (db', i) ↔
            ∃ turns, (pickTurns db draws).map (fun r => (r.1, turn :: r.2)) =
              some (db', turns ++ [.returned i]) ∧ ∀ j, .returned j ∉ turns) := by
        intro db turn hturn
        rw [ih]
        constructor
        · rintro ⟨turns, hturns, hnone⟩
          refine ⟨turn :: turns, by rw [hturns]; rfl, ?_⟩
          intro j hj
          rcases List.mem_cons.mp hj with hj | hj
          · exact hturn j hj.symm
          · exact hnone j hj
        · rintro ⟨turns, hturns, hnone⟩
          obtain ⟨r, hr, heq⟩ := Option.map_eq_some_iff.mp hturns
          simp only [Prod.mk.injEq] at heq
          obtain ⟨rfl, heq⟩ := heq
          cases turns with
          | nil => exact absurd (List.cons_eq_cons.mp heq).1 (hturn i)
          | cons t turns =>
              rw [List.cons_append] at heq
              obtain ⟨-, hrest⟩ := List.cons_eq_cons.mp heq
              refine ⟨turns, ?_, fun j hj => hnone j (List.mem_cons_of_mem t hj)⟩
              rw [hr, ← hrest]
      rw [pickSong, pickTurns]
      simp only [Draw.candidate]
      cases db.songs[db.songs.length * draw.rand / (randMax + 1)]? with
      | none => simp
      | some song =>
          by_cases haccepted : draw.accepted = true
          · by_cases hzero : song.stat.repeatCounter = 0
            · simp only [haccepted, hzero, acceptSong, if_true, Option.some.injEq, Prod.mk.injEq]
              constructor
              · rintro ⟨hdb, rfl⟩
                exact ⟨[], ⟨hdb, rfl⟩, nofun⟩
              · rintro ⟨turns, ⟨hdb, hturns⟩, -⟩
                obtain ⟨-, hturn⟩ := List.append_singleton_inj.mp ((List.nil_append _).trans hturns)
                exact ⟨hdb, Turn.returned.inj hturn⟩
            · simp only [haccepted, hzero, acceptSong, if_true, if_false, Bool.false_eq_true]
              exact hgoesOn _ _ nofun
          · simp only [haccepted, if_false, Bool.false_eq_true]
            exact hgoesOn _ _ nofun

/-! ## One song -/

/-- A song that was accepted `n` times. -/
def SongInfo.afterAccepts (song : SongInfo) (n : Nat) : SongInfo :=
  { song with
    stat := { song.stat with
      repeatCounter := (song.stat.repeatCounter - n) % 11
      changed := song.stat.changed || decide (0 < n) } }

/-- The repeat counter is one that `pick_song` leaves. -/
def SongInfo.CounterInRange (song : SongInfo) : Prop :=
  0 ≤ song.stat.repeatCounter ∧ song.stat.repeatCounter ≤ 10

theorem counterInRange_after (song : SongInfo) (n : Nat) :
    (song.afterAccepts n).CounterInRange := by
  simp only [SongInfo.CounterInRange, SongInfo.afterAccepts]
  omega

theorem afterAccepts_zero {song : SongInfo} (h : song.CounterInRange) :
    song.afterAccepts 0 = song := by
  obtain ⟨basename, filename, plays, skips, counter, rating, changed⟩ := song
  obtain ⟨hlow, hhigh⟩ := h
  have hcounter : (counter - (0 : Nat)) % 11 = counter := by
    simp only at hlow hhigh
    omega
  simp only [SongInfo.afterAccepts, hcounter, Nat.lt_irrefl, decide_false, Bool.or_false]

/-- **An accepted draw counts down modulo 11**, and returns the song when it gets to 0. -/
theorem acceptSong_after (song : SongInfo) (n : Nat) :
    acceptSong (song.afterAccepts n) =
      (decide ((11 : Int) ∣ song.stat.repeatCounter - n), song.afterAccepts (n + 1)) := by
  have hzero : (song.afterAccepts n).stat.repeatCounter = 0 ↔
      (11 : Int) ∣ song.stat.repeatCounter - n := by
    simp only [SongInfo.afterAccepts]
    omega
  unfold acceptSong
  by_cases hreturn : (11 : Int) ∣ song.stat.repeatCounter - n
  · have hnext : (song.stat.repeatCounter - (n + 1 : Nat)) % 11 = 10 := by omega
    rw [if_pos (hzero.mpr hreturn)]
    simp only [SongInfo.afterAccepts, hreturn, hnext, decide_true, Nat.succ_pos, Bool.or_true]
  · have hnext : (song.stat.repeatCounter - (n + 1 : Nat)) % 11 =
        (song.stat.repeatCounter - n) % 11 - 1 := by omega
    rw [if_neg (mt hzero.mp hreturn)]
    simp only [SongInfo.afterAccepts, hreturn, hnext, decide_true, decide_false, Nat.succ_pos,
      Bool.or_true]

/-! ## All the songs -/

/-- What a trace of turns has done to a database. -/
structure PickTrace (db : DatabaseInfo) (s : DatabaseInfo × List Turn) : Prop where
  length : s.1.songs.length = db.songs.length
  candidates : ∀ turn ∈ s.2, turn.candidate < db.songs.length
  /-- Each song counts its own accepted draws. -/
  songs : ∀ (i : Nat) (a : SongInfo), db.songs[i]? = some a →
    s.1.songs[i]? = some (a.afterAccepts (s.2.countP (Turn.accepts i)))
  ticks : ∀ (i : Nat) (a : SongInfo), db.songs[i]? = some a →
    Countdown.Keeps (Turn.accepts i) (Turn.returns i) a.stat.repeatCounter 11 s.2

def DatabaseInfo.CountersInRange (db : DatabaseInfo) : Prop :=
  ∀ song ∈ db.songs, song.CounterInRange

theorem pickTrace_start {db : DatabaseInfo} (h : db.CountersInRange) : PickTrace db (db, []) where
  length := rfl
  candidates := nofun
  songs := fun i a ha => by
    rw [List.countP_nil, afterAccepts_zero (h a (List.mem_of_getElem? ha))]
    exact ha
  ticks := fun _ _ _ => lawful_nil

/-- A draw that is rejected changes nothing. -/
theorem PickTrace.reject {db s : DatabaseInfo} {turns : List Turn} {k : Nat}
    (h : PickTrace db (s, turns)) (hk : k < s.songs.length) :
    PickTrace db (s, turns ++ [.rejected k]) where
  length := h.length
  candidates := by
    intro turn hturn
    rcases List.mem_append.mp hturn with hturn | hturn
    · exact h.candidates turn hturn
    · rw [List.mem_singleton.mp hturn, ← h.length]
      exact hk
  songs := by simpa [Turn.accepts] using h.songs
  ticks := fun i a ha => lawful_snoc.mpr ⟨h.ticks i a ha, nofun, nofun⟩

/-- The turn of an accepted draw. -/
def acceptTurn (k : Nat) (returned : Bool) : Turn := if returned then .returned k else .counted k

@[simp] theorem acceptTurn_candidate (k : Nat) (returned : Bool) :
    (acceptTurn k returned).candidate = k := by
  cases returned <;> rfl

@[simp] theorem acceptTurn_accepts (k i : Nat) (returned : Bool) :
    (acceptTurn k returned).accepts i = (k == i) := by
  cases returned <;> rfl

@[simp] theorem acceptTurn_returns (k i : Nat) (returned : Bool) :
    (acceptTurn k returned).returns i = (returned && k == i) := by
  cases returned <;> rfl

/-- A draw that is accepted counts for its own song only. -/
theorem PickTrace.accept {db s : DatabaseInfo} {turns : List Turn} {k : Nat} {song : SongInfo}
    (h : PickTrace db (s, turns)) (hsong : s.songs[k]? = some song) :
    PickTrace db ({ s with songs := s.songs.set k (acceptSong song).2 },
      turns ++ [acceptTurn k (acceptSong song).1]) := by
  obtain ⟨hk, -⟩ := List.getElem?_eq_some_iff.mp hsong
  have hk' : k < db.songs.length := h.length ▸ hk
  have hown : ∀ a, db.songs[k]? = some a →
      acceptSong song = (decide ((11 : Int) ∣ a.stat.repeatCounter - turns.countP (Turn.accepts k)),
        a.afterAccepts (turns.countP (Turn.accepts k) + 1)) := by
    intro a ha
    rw [← acceptSong_after, ← Option.some.inj ((h.songs k a ha).symm.trans hsong)]
  constructor
  · exact List.length_set.trans h.length
  · intro turn hturn
    rcases List.mem_append.mp hturn with hturn | hturn
    · exact h.candidates turn hturn
    · rw [List.mem_singleton.mp hturn, acceptTurn_candidate]
      exact hk'
  · intro i a ha
    by_cases hi : i = k
    · subst hi
      rw [List.getElem?_set_self hk, hown a ha]
      simp
    · rw [List.getElem?_set_ne (Ne.symm hi), h.songs i a ha]
      simp [Ne.symm hi]
  · intro i a ha
    refine lawful_snoc.mpr ⟨h.ticks i a ha, ?_, ?_⟩
    · simp
    · by_cases hi : i = k
      · subst hi
        simp [hown a ha]
      · simp [Ne.symm hi]

/-- A call of `pick_song`. -/
theorem PickTrace.pickTurns {db s s' : DatabaseInfo} {past turns : List Turn} {draws : List Draw}
    (h : PickTrace db (s, past)) (hcall : pickTurns s draws = some (s', turns)) :
    PickTrace db (s', past ++ turns) := by
  induction draws generalizing s past turns with
  | nil => cases hcall
  | cons draw draws ih =>
      rw [Squash.pickTurns] at hcall
      split at hcall
      · cases hcall
      · next song hsong =>
          obtain ⟨hk, -⟩ := List.getElem?_eq_some_iff.mp hsong
          have haccept := h.accept hsong
          split at hcall
          · split at hcall
            · next hreturn =>
                cases hcall
                simpa [hreturn, acceptTurn] using haccept
            · next hreturn =>
                obtain ⟨r, hr, heq⟩ := Option.map_eq_some_iff.mp hcall
                cases heq
                simpa [hreturn, acceptTurn] using ih haccept hr
          · obtain ⟨r, hr, heq⟩ := Option.map_eq_some_iff.mp hcall
            cases heq
            simpa using ih (h.reject hk) hr

/-- Any number of calls. -/
theorem pickTrace_run {db : DatabaseInfo} (h : db.CountersInRange) {calls : List (List Draw)}
    {s : DatabaseInfo × List Turn} (hrun : run (observe pickTurns) (db, []) calls = some s) :
    PickTrace db s := by
  refine (always_of_step (fun _ hs => hs) ?_ (pickTrace_start h) calls).at_end hrun
  intro s draws s' hs hstep
  obtain ⟨t, turns, hcall, rfl⟩ := observe_eq_some.mp hstep
  exact hs.pickTurns hcall

/-! ## The result -/

theorem candidate_lt {draw : Draw} {songCount : Nat} (hrand : draw.rand ≤ randMax)
    (hsongs : 1 ≤ songCount) : draw.candidate songCount < songCount := by
  unfold Draw.candidate
  rw [Nat.div_lt_iff_lt_mul (Nat.succ_pos _)]
  exact Nat.mul_lt_mul_of_pos_left (Nat.lt_succ_of_le hrand) hsongs

theorem PickTrace.countersInRange {db : DatabaseInfo} {s : DatabaseInfo × List Turn}
    (h : PickTrace db s) : s.1.CountersInRange := by
  intro song hsong
  obtain ⟨i, hi⟩ := List.mem_iff_getElem?.mp hsong
  have hlt : i < db.songs.length := by
    rw [← h.length]
    exact (List.getElem?_eq_some_iff.mp hi).1
  have hafter := h.songs i _ (List.getElem?_eq_getElem hlt)
  rw [← Option.some.inj (hafter.symm.trans hi)]
  exact counterInRange_after _ _

/-- The draws of a song between two times that it is returned. -/
theorem PickTrace.spaced {db s : DatabaseInfo} {i : Nat} {before between after : List Turn}
    (h : PickTrace db (s, before ++ .returned i :: between ++ .returned i :: after))
    (hbetween : .returned i ∉ between) : between.count (.counted i) = 10 := by
  have hi : i < db.songs.length :=
    h.candidates (.returned i) (by simp)
  have hmiss : ∀ turn ∈ between, ¬ turn.returns i = true := by
    intro turn hturn hreturns
    cases turn with
    | returned k =>
        obtain rfl : k = i := by simpa [Turn.returns] using hreturns
        exact hbetween hturn
    | rejected k => cases hreturns
    | counted k => cases hreturns
  have hcount := Countdown.countP_between (h.ticks i _ (List.getElem?_eq_getElem hi)) (by omega) rfl
    (x := .returned i) (y := .returned i) (by simp [Turn.returns]) (by simp [Turn.returns]) hmiss
  -- no turn in between returns the song, so the accepted ones count it down
  have hsame : between.countP (Turn.accepts i) = between.count (.counted i) := by
    apply List.countP_congr
    intro turn hturn
    have hnot := hmiss turn hturn
    cases turn with
    | returned k => simpa [Turn.returns, Turn.accepts] using hnot
    | rejected k => simp [Turn.accepts]
    | counted k => simp [Turn.accepts]
  omega

/-- The accepted songs, and no others, are counted down and marked as changed. -/
theorem PickTrace.touched {db s : DatabaseInfo} {turns : List Turn} (hcounters : db.CountersInRange)
    (h : PickTrace db (s, turns)) {i : Nat} {a : SongInfo} (ha : db.songs[i]? = some a) :
    ∃ b, s.songs[i]? = some b ∧ ((∀ turn ∈ turns, turn.accepts i = false) → b = a) ∧
      ((∃ turn ∈ turns, turn.accepts i = true) → b.stat.changed = true ∧
        b.stat.repeatCounter = (a.stat.repeatCounter - turns.countP (Turn.accepts i)) % 11) := by
  refine ⟨_, h.songs i a ha, ?_, ?_⟩
  · intro hnone
    have hcount : turns.countP (Turn.accepts i) = 0 := by
      rw [List.countP_eq_zero]
      intro turn hturn
      simp [hnone turn hturn]
    rw [hcount, afterAccepts_zero (hcounters a (List.mem_of_getElem? ha))]
  · intro hsome
    have hpos : 0 < turns.countP (Turn.accepts i) := List.countP_pos_iff.mpr hsome
    exact ⟨by simp [SongInfo.afterAccepts, hpos], rfl⟩

/-- **Repeats are avoided.** However the draws fall in any number of calls, every candidate is a
song, the counters are in range after every call, a song that is returned twice was accepted exactly
ten times in between without being returned, and the songs that were accepted at least once, and
only these, are counted down and marked as changed. -/
theorem pickSong_repeat_avoidance (db : DatabaseInfo) (calls : List (List Draw))
    (hsongs : 1 ≤ db.songs.length) (hcounters : db.CountersInRange)
    (hrand : ∀ draws ∈ calls, ∀ draw ∈ draws, draw.rand ≤ randMax) :
    (∀ draws ∈ calls, ∀ draw ∈ draws, draw.candidate db.songs.length < db.songs.length) ∧
      ∀ db' turns, run (observe pickTurns) (db, []) calls = some (db', turns) →
        db'.songs.length = db.songs.length ∧
        (∀ turn ∈ turns, turn.candidate < db.songs.length) ∧
        db'.CountersInRange ∧
        (∀ i before between after, turns = before ++ .returned i :: between ++ .returned i :: after →
          .returned i ∉ between → between.count (.counted i) = 10) ∧
        ∀ (i : Nat) (a : SongInfo), db.songs[i]? = some a → ∃ b, db'.songs[i]? = some b ∧
          ((∀ turn ∈ turns, turn.accepts i = false) → b = a) ∧
          ((∃ turn ∈ turns, turn.accepts i = true) → b.stat.changed = true ∧
            b.stat.repeatCounter =
              (a.stat.repeatCounter - turns.countP (Turn.accepts i)) % 11) := by
  refine ⟨fun draws hdraws draw hdraw => candidate_lt (hrand draws hdraws draw hdraw) hsongs, ?_⟩
  intro db' turns hrun
  have htrace := pickTrace_run hcounters hrun
  refine ⟨htrace.length, htrace.candidates, htrace.countersInRange, ?_, ?_⟩
  · rintro i before between after rfl hbetween
    exact htrace.spaced hbetween
  · intro i a ha
    exact htrace.touched hcounters ha

/-- One song, which is returned at once and then after ten more draws. -/
theorem pickSong_repeat_avoidance_one_song :
    ∃ db' turns,
      run (observe pickTurns)
        (⟨[⟨fun _ => [], [], ⟨0, 0, 0, -1, false⟩⟩], true, 0, 0, 0, 0, 0, 0⟩, [])
        [[⟨5, true⟩], List.replicate 11 ⟨9, true⟩] = some (db', turns) ∧
      db'.CountersInRange ∧
      turns = .returned 0 :: List.replicate 10 (.counted 0) ++ [.returned 0] := by
  refine ⟨_, _, rfl, ?_, rfl⟩
  refine ((pickSong_repeat_avoidance
    ⟨[⟨fun _ => [], [], ⟨0, 0, 0, -1, false⟩⟩], true, 0, 0, 0, 0, 0, 0⟩
    [[⟨5, true⟩], List.replicate 11 ⟨9, true⟩] (Nat.le_refl 1) ?_ ?_).2 _ _ rfl).2.2.1
  · intro song hsong
    rw [List.mem_singleton.mp hsong]
    exact ⟨by decide, by decide⟩
  · decide

end Squash
