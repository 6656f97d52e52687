import Mathlib.Data.List.DropRight
import Squash.Foundations.Transition
import Squash.State.Load

/-!
# The arrays behind the state file

`load_state_callback` writes to `raw_songs` and `window_states` where earlier keys tell it to, and
`load_state` reads `raw_songs` from where the last `current_entry` tells it to. `stateAccesses` lists
all of these accesses for the pairs that a file holds.

The callback itself never leaves `raw_songs`, which grows before it is written to. The rest depends
on the file (`stateAccesses_within_iff`): a `window_state` needs a `window_number` that there is, an
`entry_position` needs an `entry_filename`, and the last `current_entry` must not be negative. Then
`load_state` also finds the file names that it looks for (`exists_filename`).
-/

namespace Squash

open Transition

/-! ## The keys and what they access -/

/-- A key of the state file with a value. -/
structure StatePair where
  key : List Char
  value : List Char
  deriving DecidableEq, Repr

def StatePair.call (pair : StatePair) : AddData := ⟨none, pair.key, some pair.value⟩

/-- The keys that `load_state_callback` knows. -/
inductive StateKey where
  | entryFilename | entryPosition | currentEntry | windowNumber | windowState
  deriving DecidableEq, Repr

/-- The comparisons of `load_state_callback`. -/
def stateKey (key : List Char) : Option StateKey :=
  if strncasecmp "entry_filename".toList key 16 then some .entryFilename
  else if strncasecmp "entry_position".toList key 16 then some .entryPosition
  else if strncasecmp "current_entry".toList key 15 then some .currentEntry
  else if strncasecmp "window_number".toList key 14 then some .windowNumber
  else if strncasecmp "window_state".toList key 13 then some .windowState
  else none

/-- `raw_songs[ i ].filename`, if it was assigned. -/
def StateInfo.filename (info : StateInfo) (i : Int) : Option (Option (List Char)) :=
  if i < 0 then none else info.rawSongs[i.toNat]?.bind RawSong.filename

/-- An access to an array of `state_info`. -/
inductive StateAccess where
  /-- `raw_songs[ index ]`, of `alloc` cells. -/
  | rawSongs (index : Int) (alloc : Nat)
  /-- `window_states[ index ]`. -/
  | windowStates (index : Int)
  /-- `load_state` reads `raw_songs[ index ].filename`, when `count` of the cells are in use. -/
  | loaded (index : Int) (count : Nat) (filename : Option (Option (List Char)))
  deriving DecidableEq, Repr

/-- The accesses of the callback, once `squash_ensure_alloc` is done. -/
def StateInfo.callbackAccesses (pass : StateInfo) (key : List Char) : List StateAccess :=
  match stateKey key with
  | some .entryFilename | some .entryPosition =>
    [.rawSongs pass.rawSongCount pass.rawSongs.length]
  | some .windowState => [.windowStates pass.curWindowNumber]
  | some .currentEntry | some .windowNumber | none => []

/-- Reading one raw song. -/
def StateInfo.readAccesses (info : StateInfo) (i : Int) : List StateAccess :=
  [.rawSongs i info.rawSongs.length, .loaded i info.rawSongCount (info.filename i)]

/-- The accesses of `load_state` when the file is read: the window states are copied, the songs from
the current one on are queued, and all file names are freed. -/
def StateInfo.loadAccesses (info : StateInfo) : List StateAccess :=
  (List.range winCount).map (fun i : Nat => .windowStates i) ++
    (List.range info.pending).flatMap (fun k : Nat => info.readAccesses (info.currentSong + k)) ++
    (List.range info.rawSongCount).flatMap fun i : Nat => info.readAccesses i

/-- The accesses that the rest of the pairs leads to. A callback that leaves an array ends it. -/
def StateInfo.accesses : StateInfo → List StatePair → List StateAccess
  | info, [] => info.loadAccesses
  | info, pair :: pairs =>
    info.ensureAlloc.callbackAccesses pair.key ++
      match loadStateCallback info pair.call with
      | some info => info.accesses pairs
      | none => []

/-- The accesses of `load_state`, for the pairs of the state file. -/
def stateAccesses (pairs : List StatePair) : List StateAccess := StateInfo.init.accesses pairs

/-- The value of some `entry_filename`. -/
def IsNamedIn (pairs : List StatePair) (filename : Option (List Char)) : Prop :=
  ∃ pair ∈ pairs, stateKey pair.key = some .entryFilename ∧ filename = some pair.value

/-- What an access should be. -/
def StateAccess.Within (pairs : List StatePair) : StateAccess → Prop
  | .rawSongs index alloc => 0 ≤ index ∧ index < alloc
  | .windowStates index => 0 ≤ index ∧ index < winCount
  | .loaded index count filename =>
    (0 ≤ index ∧ index < count) ∧ ∃ text, filename = some text ∧ IsNamedIn pairs text

/-! ## What a file should be -/

/-- The value of the last pair with a key, or 0, which all of them start from. -/
def lastValue (key : StateKey) (pairs : List StatePair) : Int :=
  match pairs.reverse.find? fun pair => stateKey pair.key = some key with
  | some pair => Decimal.parse pair.value
  | none => 0

/-- There is an `entry_filename` behind the last `entry_position`. -/
def Named (pairs : List StatePair) : Prop :=
  ∃ pair ∈ pairs.rtakeWhile fun pair => stateKey pair.key ≠ some .entryPosition,
    stateKey pair.key = some .entryFilename

/-- A state of a window is for one that there is. -/
def WindowFits (past : List StatePair) (pair : StatePair) : Prop :=
  stateKey pair.key = some .windowState →
    0 ≤ lastValue .windowNumber past ∧ lastValue .windowNumber past < winCount

/-- A position is for a file name. -/
def PositionFits (past : List StatePair) (pair : StatePair) : Prop :=
  stateKey pair.key = some .entryPosition → Named past

/-- A state file that leads to no access outside of the arrays. -/
structure StateFileFits (pairs : List StatePair) : Prop where
  windows : Lawful WindowFits pairs
  positions : Lawful PositionFits pairs
  currentEntry : 0 ≤ lastValue .currentEntry pairs

theorem lastValue_snoc (key : StateKey) (pairs : List StatePair) (pair : StatePair) :
    lastValue key (pairs ++ [pair]) =
      if stateKey pair.key = some key then Decimal.parse pair.value else lastValue key pairs := by
  rw [lastValue, List.reverse_append, List.reverse_singleton, List.singleton_append, List.find?_cons]
  by_cases h : stateKey pair.key = some key <;> simp [h, lastValue]

theorem named_snoc (pairs : List StatePair) (pair : StatePair) :
    Named (pairs ++ [pair]) ↔ stateKey pair.key ≠ some .entryPosition ∧
      (stateKey pair.key = some .entryFilename ∨ Named pairs) := by
  rw [Named, List.rtakeWhile_concat]
  by_cases h : stateKey pair.key = some .entryPosition
  · simp [h]
  · simp only [h, ne_eq, not_false_eq_true, decide_true, if_true, true_and]
    constructor
    · rintro ⟨name, hname, hkey⟩
      rcases List.mem_append.mp hname with hold | hnew
      · exact .inr ⟨name, hold, hkey⟩
      · obtain rfl := List.mem_singleton.mp hnew
        exact .inl hkey
    · rintro (hkey | ⟨name, hold, hkey⟩)
      · exact ⟨pair, List.mem_append_right _ (List.mem_singleton_self pair), hkey⟩
      · exact ⟨name, List.mem_append_left _ hold, hkey⟩

/-! ## What is collected -/

/-- Another cell behind those in use. -/
def StateInfo.setCell (info : StateInfo) (cell : RawSong) : StateInfo :=
  { info with rawSongs := info.rawSongs.set info.rawSongCount cell }

/-- One more cell is in use. -/
def StateInfo.useCell (info : StateInfo) : StateInfo :=
  { info with rawSongCount := info.rawSongCount + 1 }

section Cells

variable {info : StateInfo} {n : Nat}

theorem filename_natCast : info.filename n = info.rawSongs[n]?.bind RawSong.filename := by
  rw [StateInfo.filename, if_neg (by omega), Int.toNat_natCast]

/-- New cells have no file names. -/
theorem filename_ensureAlloc (i : Int) : info.ensureAlloc.filename i = info.filename i := by
  obtain ⟨n, hn⟩ := ensureAlloc_eq info
  rw [hn, StateInfo.filename, StateInfo.filename]
  split
  · rfl
  by_cases hold : i.toNat < info.rawSongs.length
  · rw [List.getElem?_append_left hold]
  · rw [List.getElem?_append_right (Nat.not_lt.mp hold),
      List.getElem?_eq_none (Nat.not_lt.mp hold), List.getElem?_replicate]
    split <;> rfl

theorem setRawSong_setCell (h : info.rawSongCount < info.rawSongs.length)
    (rawSong : RawSong → RawSong) :
    info.setRawSong rawSong =
      some (info.setCell (rawSong info.rawSongs[info.rawSongCount])) :=
  setRawSong_eq rfl (List.getElem?_eq_getElem h) rawSong

theorem length_setCell (cell : RawSong) :
    (info.setCell cell).rawSongs.length = info.rawSongs.length := List.length_set

theorem rawSongCount_setCell (cell : RawSong) :
    (info.setCell cell).rawSongCount = info.rawSongCount := rfl

theorem rawSongCount_useCell : info.useCell.rawSongCount = info.rawSongCount + 1 := rfl

theorem filename_useCell (i : Int) : info.useCell.filename i = info.filename i := rfl

theorem filename_setCell (h : info.rawSongCount < info.rawSongs.length) (cell : RawSong) (i : Int) :
    (info.setCell cell).filename i =
      if i = info.rawSongCount then cell.filename else info.filename i := by
  by_cases heq : i = info.rawSongCount
  · rw [if_pos heq, heq, filename_natCast, StateInfo.setCell, List.getElem?_set_self h]
    rfl
  · rw [if_neg heq, StateInfo.filename, StateInfo.filename]
    split
    · rfl
    · rw [StateInfo.setCell, List.getElem?_set_ne (by omega)]

end Cells

/-- What the callback has collected from some pairs. -/
structure Collected (pairs : List StatePair) (info : StateInfo) : Prop where
  count_le : info.rawSongCount ≤ info.rawSongs.length
  currentSong : info.currentSong = lastValue .currentEntry pairs
  curWindowNumber : info.curWindowNumber = lastValue .windowNumber pairs
  /-- A file name that was assigned is the value of a pair. -/
  source : ∀ i text, info.filename i = some text → IsNamedIn pairs text
  /-- The cells in use have file names unless a position came without one. -/
  used : (∀ i : Nat, i < info.rawSongCount → (info.filename i).isSome) ↔ Lawful PositionFits pairs
  /-- The next cell has one if it was named since. -/
  next : (info.filename info.rawSongCount).isSome ↔ Named pairs
  unused : ∀ i : Int, info.rawSongCount < i → info.filename i = none

theorem collected_init : Collected [] StateInfo.init where
  count_le := Nat.le_refl 0
  currentSong := rfl
  curWindowNumber := rfl
  source i text h := by
    rw [StateInfo.filename] at h
    split at h <;> cases h
  used := iff_of_true (fun i hi => absurd hi (Nat.not_lt_zero i)) lawful_nil
  next := by
    refine iff_of_false (by decide) ?_
    rintro ⟨pair, hmem, -⟩
    cases hmem
  unused i hi := by
    rw [StateInfo.filename]
    split <;> rfl

section Step

variable {pairs : List StatePair} {pair : StatePair} {info : StateInfo}

theorem IsNamedIn.snoc {text : Option (List Char)} (h : IsNamedIn pairs text) :
    IsNamedIn (pairs ++ [pair]) text := by
  obtain ⟨name, hmem, hname⟩ := h
  exact ⟨name, List.mem_append_left _ hmem, hname⟩

theorem Collected.currentSong_snoc (h : Collected pairs info)
    (hkey : stateKey pair.key ≠ some .currentEntry) :
    info.currentSong = lastValue .currentEntry (pairs ++ [pair]) := by
  rw [lastValue_snoc, if_neg hkey]
  exact h.currentSong

theorem Collected.curWindowNumber_snoc (h : Collected pairs info)
    (hkey : stateKey pair.key ≠ some .windowNumber) :
    info.curWindowNumber = lastValue .windowNumber (pairs ++ [pair]) := by
  rw [lastValue_snoc, if_neg hkey]
  exact h.curWindowNumber

/-- `squash_ensure_alloc` collects nothing. -/
theorem Collected.ensureAlloc (h : Collected pairs info) : Collected pairs info.ensureAlloc := by
  refine ⟨?_, ?_, ?_, ?_, ?_, ?_, ?_⟩
  · rw [ensureAlloc_rawSongCount]
    exact Nat.le_of_lt (rawSongCount_lt_ensureAlloc h.count_le)
  · rw [ensureAlloc_currentSong]
    exact h.currentSong
  · rw [ensureAlloc_curWindowNumber]
    exact h.curWindowNumber
  · simpa only [filename_ensureAlloc] using h.source
  · simpa only [filename_ensureAlloc, ensureAlloc_rawSongCount] using h.used
  · simpa only [filename_ensureAlloc, ensureAlloc_rawSongCount] using h.next
  · simpa only [filename_ensureAlloc, ensureAlloc_rawSongCount] using h.unused

/-- A key that is not about the raw songs. -/
theorem Collected.keep (h : Collected pairs info) {info' : StateInfo}
    (hname : stateKey pair.key ≠ some .entryFilename)
    (hposition : stateKey pair.key ≠ some .entryPosition)
    (hsongs : info'.rawSongs = info.rawSongs) (hcount : info'.rawSongCount = info.rawSongCount)
    (hcurrent : info'.currentSong = lastValue .currentEntry (pairs ++ [pair]))
    (hwindow : info'.curWindowNumber = lastValue .windowNumber (pairs ++ [pair])) :
    Collected (pairs ++ [pair]) info' := by
  have hfilename : ∀ i, info'.filename i = info.filename i := by
    intro i
    rw [StateInfo.filename, hsongs, StateInfo.filename]
  refine ⟨?_, hcurrent, hwindow, ?_, ?_, ?_, ?_⟩
  · rw [hsongs, hcount]
    exact h.count_le
  · intro i text htext
    rw [hfilename] at htext
    exact (h.source i text htext).snoc
  · simp only [hfilename, hcount, lawful_snoc, h.used]
    exact ⟨fun hall => ⟨hall, fun hkey => absurd hkey hposition⟩, And.left⟩
  · rw [hfilename, hcount, h.next, named_snoc]
    simp [hname, hposition]
  · simpa only [hfilename, hcount] using h.unused

theorem Collected.entryFilename (h : Collected pairs info)
    (hlt : info.rawSongCount < info.rawSongs.length)
    (hkey : stateKey pair.key = some .entryFilename) (position : Option Int) :
    Collected (pairs ++ [pair]) (info.setCell ⟨some (some pair.value), position⟩) := by
  have hfilename := filename_setCell hlt ⟨some (some pair.value), position⟩
  have hused : ∀ i : Nat, i < info.rawSongCount →
      (info.setCell ⟨some (some pair.value), position⟩).filename i = info.filename i := by
    intro i hi
    rw [hfilename, if_neg (by omega)]
  refine ⟨?_, ?_, ?_, ?_, ?_, ?_, ?_⟩
  · rw [length_setCell, rawSongCount_setCell]
    exact Nat.le_of_lt hlt
  · exact h.currentSong_snoc (by grind)
  · exact h.curWindowNumber_snoc (by grind)
  · intro i text htext
    rw [hfilename] at htext
    split at htext
    · obtain rfl := Option.some.inj htext
      exact ⟨pair, List.mem_append_right _ (List.mem_singleton_self pair), hkey, rfl⟩
    · exact (h.source i text htext).snoc
  · rw [lawful_snoc, ← h.used]
    constructor
    · intro hall
      refine ⟨fun i hi => hused i hi ▸ hall i hi, ?_⟩
      intro hposition
      rw [hkey] at hposition
      cases hposition
    · rintro ⟨hall, -⟩ i hi
      rw [hused i hi]
      exact hall i hi
  · rw [hfilename, rawSongCount_setCell, if_pos rfl, named_snoc]
    simp [hkey]
  · intro i hi
    rw [rawSongCount_setCell] at hi
    rw [hfilename, if_neg (Int.ne_of_gt hi)]
    exact h.unused i hi

/-- A position makes the cell used, with or without a file name. -/
theorem Collected.entryPosition (h : Collected pairs info)
    (hlt : info.rawSongCount < info.rawSongs.length)
    (hkey : stateKey pair.key = some .entryPosition) (position : Option Int) :
    Collected (pairs ++ [pair])
      (info.setCell { info.rawSongs[info.rawSongCount] with position }).useCell := by
  have hfilename : ∀ i,
      (info.setCell { info.rawSongs[info.rawSongCount] with position }).useCell.filename i =
        info.filename i := by
    intro i
    rw [filename_useCell, filename_setCell hlt]
    split
    · next heq =>
        rw [heq, filename_natCast, List.getElem?_eq_getElem hlt]
        rfl
    · rfl
  refine ⟨?_, ?_, ?_, ?_, ?_, ?_, ?_⟩
  · rw [rawSongCount_useCell, rawSongCount_setCell]
    exact hlt.trans_eq (length_setCell _).symm
  · exact h.currentSong_snoc (by grind)
  · exact h.curWindowNumber_snoc (by grind)
  · intro i text htext
    rw [hfilename] at htext
    exact (h.source i text htext).snoc
  · rw [lawful_snoc, ← h.used, PositionFits, ← h.next, rawSongCount_useCell, rawSongCount_setCell]
    simp only [hfilename]
    constructor
    · intro hall
      exact ⟨fun i hi => hall i (Nat.lt_succ_of_lt hi), fun _ => hall _ (Nat.lt_succ_self _)⟩
    · rintro ⟨hall, hlast⟩ i hi
      rcases Nat.lt_succ_iff_lt_or_eq.mp hi with hi | rfl
      · exact hall i hi
      · exact hlast hkey
  · rw [hfilename, named_snoc, rawSongCount_useCell, rawSongCount_setCell]
    refine iff_of_false ?_ fun hnamed => hnamed.1 hkey
    rw [h.unused _ (by omega)]
    exact Bool.false_ne_true
  · intro i hi
    rw [rawSongCount_useCell, rawSongCount_setCell] at hi
    rw [hfilename]
    exact h.unused i (by omega)

theorem loadStateCallback_eq (info : StateInfo) (pair : StatePair) :
    loadStateCallback info pair.call =
      match stateKey pair.key with
      | some .entryFilename => info.ensureAlloc.setRawSong fun _ => ⟨some (some pair.value), some 0⟩
      | some .entryPosition => (info.ensureAlloc.setRawSong fun rawSong =>
          { rawSong with position := some (Decimal.parse pair.value) }).bind
            fun pass => some pass.useCell
      | some .currentEntry =>
        some { info.ensureAlloc with currentSong := Decimal.parse pair.value }
      | some .windowNumber =>
        some { info.ensureAlloc with curWindowNumber := Decimal.parse pair.value }
      | some .windowState => info.ensureAlloc.setWindowState (Decimal.parse pair.value)
      | none => some info.ensureAlloc := by
  show loadStateCallback info ⟨none, pair.key, some pair.value⟩ = _
  unfold loadStateCallback stateKey
  simp only [Option.bind_eq_bind, Option.bind_some]
  repeat' split
  all_goals first | rfl | simp_all

/-- **The accesses of a callback are in range** as far as the window is one that there is. -/
theorem Collected.callback_within_iff (h : Collected pairs info) (all : List StatePair) :
    (∀ access ∈ info.ensureAlloc.callbackAccesses pair.key, access.Within all) ↔
      WindowFits pairs pair := by
  have hlt : info.ensureAlloc.rawSongCount < info.ensureAlloc.rawSongs.length := by
    rw [ensureAlloc_rawSongCount]
    exact rawSongCount_lt_ensureAlloc h.count_le
  have hcell : (StateAccess.rawSongs info.ensureAlloc.rawSongCount
      info.ensureAlloc.rawSongs.length).Within all := ⟨by omega, by omega⟩
  rw [StateInfo.callbackAccesses, WindowFits, ← h.ensureAlloc.curWindowNumber]
  cases hkey : stateKey pair.key with
  | none => simp
  | some key =>
      cases key with
      | entryFilename | entryPosition => simpa using hcell
      | currentEntry | windowNumber => simp
      | windowState => simp [StateAccess.Within]

/-- **One pair.** -/
theorem Collected.step (h : Collected pairs info) (hwindow : WindowFits pairs pair) :
    ∃ info', loadStateCallback info pair.call = some info' ∧
      Collected (pairs ++ [pair]) info' := by
  have hlt : info.ensureAlloc.rawSongCount < info.ensureAlloc.rawSongs.length := by
    rw [ensureAlloc_rawSongCount]
    exact rawSongCount_lt_ensureAlloc h.count_le
  have hpass := h.ensureAlloc
  rw [loadStateCallback_eq]
  cases hkey : stateKey pair.key with
  | none =>
      exact ⟨_, rfl, hpass.keep (by grind) (by grind) rfl rfl (hpass.currentSong_snoc (by grind))
        (hpass.curWindowNumber_snoc (by grind))⟩
  | some key =>
      cases key with
      | entryFilename => exact ⟨_, setRawSong_setCell hlt _, hpass.entryFilename hlt hkey _⟩
      | entryPosition =>
          refine ⟨_, ?_, hpass.entryPosition hlt hkey (some (Decimal.parse pair.value))⟩
          simp only [setRawSong_setCell hlt, Option.bind_some]
      | currentEntry =>
          refine ⟨_, rfl, hpass.keep (by grind) (by grind) rfl rfl ?_
            (hpass.curWindowNumber_snoc (by grind))⟩
          rw [lastValue_snoc, if_pos hkey]
      | windowNumber =>
          refine ⟨_, rfl, hpass.keep (by grind) (by grind) rfl rfl
            (hpass.currentSong_snoc (by grind)) ?_⟩
          rw [lastValue_snoc, if_pos hkey]
      | windowState =>
          have hrange := hwindow hkey
          rw [← hpass.curWindowNumber] at hrange
          exact ⟨_, dif_pos hrange, hpass.keep (by grind) (by grind) rfl rfl
            (hpass.currentSong_snoc (by grind)) (hpass.curWindowNumber_snoc (by grind))⟩

theorem Collected.read_within_iff (h : Collected pairs info) (i : Int) :
    (∀ access ∈ info.readAccesses i, access.Within pairs) ↔
      (0 ≤ i ∧ i < info.rawSongCount) ∧ (info.filename i).isSome := by
  simp only [StateInfo.readAccesses, List.forall_mem_cons, List.not_mem_nil, false_implies,
    implies_true, and_true, StateAccess.Within]
  have hle := h.count_le
  constructor
  · rintro ⟨-, hrange, text, htext, -⟩
    exact ⟨hrange, by rw [htext]; rfl⟩
  · rintro ⟨hrange, hsome⟩
    obtain ⟨text, htext⟩ := Option.isSome_iff_exists.mp hsome
    exact ⟨⟨hrange.1, by omega⟩, hrange, text, htext, h.source i text htext⟩

/-- **What `load_state` reads** is there if every position had a name and the current entry is not
negative. -/
theorem Collected.load_within_iff (h : Collected pairs info) :
    (∀ access ∈ info.loadAccesses, access.Within pairs) ↔
      Lawful PositionFits pairs ∧ 0 ≤ lastValue .currentEntry pairs := by
  have hpending : info.pending = (info.rawSongCount - info.currentSong).toNat := rfl
  rw [← h.used, ← h.currentSong]
  simp only [StateInfo.loadAccesses, List.forall_mem_append, List.forall_mem_map,
    List.forall_mem_flatMap, List.mem_range, h.read_within_iff]
  constructor
  · rintro ⟨⟨-, hqueue⟩, hfree⟩
    refine ⟨fun i hi => (hfree i hi).2, ?_⟩
    by_contra hneg
    -- the first turn of the loop reads in front of the array
    have hfirst := (hqueue 0 (by omega)).1
    omega
  · rintro ⟨hused, hcurrent⟩
    refine ⟨⟨?_, ?_⟩, ?_⟩
    · intro i hi
      exact ⟨by omega, by omega⟩
    · intro k hk
      obtain ⟨i, hi⟩ : ∃ i : Nat, info.currentSong + k = i := ⟨_, (Int.toNat_of_nonneg (by omega)).symm⟩
      rw [hi]
      exact ⟨⟨by omega, by omega⟩, hused i (by omega)⟩
    · intro i hi
      exact ⟨⟨by omega, by omega⟩, hused i hi⟩

end Step

/-! ## All the pairs -/

theorem Collected.within_iff {past : List StatePair} {info : StateInfo} (h : Collected past info)
    (rest : List StatePair) :
    (∀ access ∈ info.accesses rest, access.Within (past ++ rest)) ↔
      Lawful (fun seen => WindowFits (past ++ seen)) rest ∧
        Lawful PositionFits (past ++ rest) ∧ 0 ≤ lastValue .currentEntry (past ++ rest) := by
  induction rest generalizing past info with
  | nil =>
      rw [List.append_nil, StateInfo.accesses, h.load_within_iff]
      simp
  | cons pair rest ih =>
      rw [StateInfo.accesses, List.forall_mem_append, h.callback_within_iff, lawful_cons,
        List.append_nil, and_assoc]
      apply and_congr_right
      intro hwindow
      obtain ⟨info', hinfo', hcollected⟩ := h.step hwindow
      have hrest := ih hcollected
      simp only [List.append_assoc, List.singleton_append] at hrest
      simpa only [hinfo'] using hrest

/-- **All accesses are in range** exactly when the file fits: each window state is for a window that
there is, each position is for a file name, and the current entry is not negative. -/
theorem stateAccesses_within_iff (pairs : List StatePair) :
    (∀ access ∈ stateAccesses pairs, access.Within pairs) ↔ StateFileFits pairs := by
  refine (collected_init.within_iff pairs).trans ?_
  exact ⟨fun h => ⟨h.1, h.2.1, h.2.2⟩, fun h => ⟨h.windows, h.positions, h.currentEntry⟩⟩

/-- The first song is read in front of the array. -/
theorem stateAccesses_not_within :
    ¬ ∀ access ∈ stateAccesses [⟨"current_entry".toList, "-1".toList⟩],
      access.Within [⟨"current_entry".toList, "-1".toList⟩] := by
  intro h
  have hread : StateAccess.rawSongs (-1) 10 ∈
      stateAccesses [⟨"current_entry".toList, "-1".toList⟩] := by decide
  have hrange := (h _ hread).1
  omega

/-! ## A file that fits -/

/-- The callbacks of pairs whose window states fit all go through. -/
theorem Collected.foldlM {past : List StatePair} {info : StateInfo} (h : Collected past info)
    {rest : List StatePair} (hwindows : Lawful (fun seen => WindowFits (past ++ seen)) rest) :
    ∃ info', (rest.map StatePair.call).foldlM loadStateCallback info = some info' ∧
      Collected (past ++ rest) info' := by
  induction rest generalizing past info with
  | nil => exact ⟨info, rfl, by rwa [List.append_nil]⟩
  | cons pair rest ih =>
      rw [lawful_cons, List.append_nil] at hwindows
      obtain ⟨mid, hmid, hcollected⟩ := h.step hwindows.1
      obtain ⟨info', hinfo', hall⟩ := ih hcollected (by simpa using hwindows.2)
      refine ⟨info', ?_, by simpa using hall⟩
      rw [List.map_cons, List.foldlM_cons, hmid]
      exact hinfo'

/-- **`load_state` finds a file name wherever it looks for one**, if the file fits: in each turn of
its loop, and in each cell that it frees. -/
theorem exists_filename {pairs : List StatePair} (hfits : StateFileFits pairs) :
    ∃ info, (pairs.map StatePair.call).foldlM loadStateCallback StateInfo.init = some info ∧
      ((info.rawSongs.take info.rawSongCount).all fun rawSong => rawSong.filename.isSome) ∧
      ∀ k < info.pending, 0 ≤ info.currentSong + k ∧
        ∃ filename, info.filename (info.currentSong + k) = some filename := by
  obtain ⟨info, hinfo, hall⟩ := collected_init.foldlM hfits.windows
  have hused := hall.used.mpr hfits.positions
  have hcurrent : 0 ≤ info.currentSong := hall.currentSong ▸ hfits.currentEntry
  refine ⟨info, hinfo, ?_, ?_⟩
  · rw [List.all_eq_true]
    intro rawSong hmem
    obtain ⟨i, hi, hget⟩ := List.mem_take_iff_getElem.mp hmem
    have hsome := hused i (by omega)
    rwa [filename_natCast, List.getElem?_eq_getElem (by omega), Option.bind_some, hget] at hsome
  · intro k hk
    rw [StateInfo.pending] at hk
    have hsome := hused (info.currentSong + k).toNat (by omega)
    rw [Int.toNat_of_nonneg (by omega)] at hsome
    exact ⟨by omega, Option.isSome_iff_exists.mp hsome⟩

end Squash
