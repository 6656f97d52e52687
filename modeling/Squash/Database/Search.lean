import Mathlib.Data.List.Infix
import Squash.Database.Record
import Squash.Foundations.CString
import Squash.Foundations.GrowingArray

/-!
# Searching the database

`find_matches` collects the songs that have a value for a key with a keyword in it, in an array that
grows. The keyword and the value stand in each other's places in `strstr`, so that it asks whether
the value is in the keyword. Each value that is adds the song once more, and the key has to be spelled
as it is stored, where `get_meta_data` takes any case. The counts are unbounded here.

No write leaves the array (`findMatches_eq`), and the result is right exactly when all songs look the
same both ways (`findMatches_iff`).
-/

namespace Squash.Search

open CString

/-! ## The loops -/

/-- `db_search_result_t`. Songs are indices of the database. -/
structure DbSearchResult where
  songs : List (Option Nat)
  songCount : Nat
  deriving DecidableEq, Repr

/-- The loop over the values of a key. -/
def matchValues (keyword : List Char) (song : Nat) :
    List (Option (List Char)) → GrowingArray Nat → Option (GrowingArray Nat)
  | [], found => some found
  | value :: values, found => do
    let value ← value
    if (strstr keyword value).isSome then
      let found ← (found.ensureAlloc 10).push song
      matchValues keyword song values found
    else matchValues keyword song values found

/-- The loop over the keys of a song. -/
def matchKeys (key keyword : List Char) (song : Nat) :
    List MetaKey → GrowingArray Nat → Option (GrowingArray Nat)
  | [], found => some found
  | metaKey :: metaKeys, found =>
    if key = metaKey.1 then matchValues keyword song metaKey.2 found
    else matchKeys key keyword song metaKeys found

/-- The loop over the songs, from song `i` on. A song that was not loaded has no keys to look at. -/
def matchSongs (key keyword : List Char) :
    Nat → List SongRecord → GrowingArray Nat → Option (GrowingArray Nat)
  | _, [], found => some found
  | i, song :: songs, found => do
    let found ← matchKeys key keyword i (song.metaKeys.getD []) found
    matchSongs key keyword (i + 1) songs found

/-- `find_matches`. The last `realloc` gives a pointer even if there is nothing to hold. -/
def findMatches (songs : List SongRecord) (key keyword : List Char) : Option DbSearchResult := do
  let found ← matchSongs key keyword 0 songs .empty
  return ⟨GrowingArray.resize found.cells found.count, found.count⟩

/-! ## What is asked for -/

/-- Some value contains the keyword. -/
def contains (keyword : List Char) (values : List (Option (List Char))) : Bool :=
  values.any fun value => value.any fun value => decide (keyword <:+: value)

/-- How many values are contained in the keyword. -/
def contained (keyword : List Char) (values : List (Option (List Char))) : Nat :=
  values.countP fun value => value.any fun value => decide (value <:+: keyword)

/-- The song has a value of the key that contains the keyword. -/
def hasMatch (key keyword : List Char) (song : SongRecord) : Bool :=
  (getMetaData (song.metaKeys.getD []) key).any fun metaKey => contains keyword metaKey.2

/-- The songs with a match, in the order of the database. -/
def withMatch (songs : List SongRecord) (key keyword : List Char) : List Nat :=
  (songs.zipIdx.filter fun song => hasMatch key keyword song.1).map Prod.snd

def DbSearchResult.of (songs : List Nat) : DbSearchResult := ⟨songs.map some, songs.length⟩

/-- The entry of a key says the same both ways: if it is spelled as asked for, its values are all
there, and just one of them is contained in the keyword if some contains it, or else none is; if it
is spelled in another way, no value contains the keyword. -/
def SameBothWays (key keyword : List Char) (metaKey : MetaKey) : Prop :=
  if metaKey.1 = key then
    none ∉ metaKey.2 ∧ contained keyword metaKey.2 = if contains keyword metaKey.2 then 1 else 0
  else contains keyword metaKey.2 = false

/-! ## What is found -/

/-- The values that are looked at. -/
def exactValues (key : List Char) (metaKeys : List MetaKey) : List (Option (List Char)) :=
  ((metaKeys.find? fun metaKey => key = metaKey.1).map Prod.snd).getD []

/-- The indices from `i` on of the elements of a list, each as often as the element says. -/
def repeated {β : Type} (times : β → Nat) (i : Nat) (xs : List β) : List Nat :=
  (xs.zipIdx i).flatMap fun x => List.replicate (times x.1) x.2

/-- How often a song is found. -/
def timesFound (key keyword : List Char) (song : SongRecord) : Nat :=
  contained keyword (exactValues key (song.metaKeys.getD []))

variable {key keyword : List Char} {song i : Nat} {values : List (Option (List Char))}
  {metaKeys : List MetaKey} {songs : List SongRecord} {found : GrowingArray Nat} {xs : List Nat}

theorem matchValues_null (h : none ∈ values) (hfound : found.Holds xs) :
    matchValues keyword song values found = none := by
  induction values generalizing found xs with
  | nil => cases h
  | cons value values ih =>
      cases value with
      | none => rfl
      | some value =>
          have hnull : none ∈ values := by simpa using h
          obtain ⟨found', hpush, hfound'⟩ := hfound.add (by decide : 0 < 10) song
          rw [matchValues, Option.bind_eq_bind, Option.bind_some]
          split
          · rw [hpush, Option.bind_eq_bind, Option.bind_some, ih hnull hfound']
          · exact ih hnull hfound

theorem matchValues_holds (h : none ∉ values) (hfound : found.Holds xs) :
    ∃ found', matchValues keyword song values found = some found' ∧
      found'.Holds (xs ++ List.replicate (contained keyword values) song) := by
  induction values generalizing found xs with
  | nil => exact ⟨found, rfl, by simpa [contained] using hfound⟩
  | cons value values ih =>
      cases value with
      | none => exact absurd List.mem_cons_self h
      | some value =>
          have hnull : none ∉ values := fun hmem => h (List.mem_cons_of_mem _ hmem)
          rw [matchValues, Option.bind_eq_bind, Option.bind_some]
          by_cases hmatch : value <:+: keyword
          · obtain ⟨found', hpush, hfound'⟩ := hfound.add (by decide : 0 < 10) song
            obtain ⟨found'', hrest, hholds⟩ := ih hnull hfound'
            have hcount : contained keyword (some value :: values) =
                contained keyword values + 1 := List.countP_cons_of_pos (by simpa using hmatch)
            refine ⟨found'', ?_, ?_⟩
            · rw [if_pos ((strstr_isSome keyword value).mpr hmatch), hpush, Option.bind_eq_bind,
                Option.bind_some, hrest]
            · rw [hcount, List.replicate_succ]
              simpa using hholds
          · have hcount : contained keyword (some value :: values) = contained keyword values :=
              List.countP_cons_of_neg (by simpa using hmatch)
            rw [if_neg fun h => hmatch ((strstr_isSome keyword value).mp h), hcount]
            exact ih hnull hfound

/-- The first key that is spelled as asked for is the only one that counts. -/
theorem matchKeys_eq (key keyword : List Char) (song : Nat) (metaKeys : List MetaKey)
    (found : GrowingArray Nat) : matchKeys key keyword song metaKeys found =
      matchValues keyword song (exactValues key metaKeys) found := by
  induction metaKeys with
  | nil => rfl
  | cons metaKey metaKeys ih =>
      rw [matchKeys, exactValues, List.find?_cons]
      by_cases hkey : key = metaKey.1
      · rw [if_pos hkey, decide_eq_true hkey]
        rfl
      · rw [if_neg hkey, decide_eq_false hkey, ih]
        rfl

theorem matchSongs_null
    (h : ∃ song ∈ songs, none ∈ exactValues key (song.metaKeys.getD [])) (hfound : found.Holds xs) :
    matchSongs key keyword i songs found = none := by
  induction songs generalizing found xs i with
  | nil =>
      obtain ⟨song, hsong, -⟩ := h
      cases hsong
  | cons song songs ih =>
      rw [matchSongs, matchKeys_eq]
      by_cases hnull : none ∈ exactValues key (song.metaKeys.getD [])
      · rw [matchValues_null hnull hfound]
        rfl
      · obtain ⟨found', hfirst, hfound'⟩ := matchValues_holds hnull hfound
        obtain ⟨song', hsong', hnull'⟩ := h
        have hmem : song' ∈ songs := by
          refine (List.mem_cons.mp hsong').resolve_left ?_
          rintro rfl
          exact hnull hnull'
        rw [hfirst, Option.bind_eq_bind, Option.bind_some, ih ⟨song', hmem, hnull'⟩ hfound']

theorem matchSongs_holds
    (h : ∀ song ∈ songs, none ∉ exactValues key (song.metaKeys.getD [])) (hfound : found.Holds xs) :
    ∃ found', matchSongs key keyword i songs found = some found' ∧
      found'.Holds (xs ++ repeated (timesFound key keyword) i songs) := by
  induction songs generalizing found xs i with
  | nil => exact ⟨found, rfl, by simpa [repeated] using hfound⟩
  | cons song songs ih =>
      obtain ⟨hnull, hnulls⟩ := List.forall_mem_cons.mp h
      obtain ⟨mid, hmid, hmidHolds⟩ := matchValues_holds hnull hfound
      obtain ⟨found', hrest, hholds⟩ := ih hnulls hmidHolds
      refine ⟨found', ?_, ?_⟩
      · rw [matchSongs, matchKeys_eq, hmid, Option.bind_eq_bind, Option.bind_some, hrest]
      · rw [repeated, List.zipIdx_cons, List.flatMap_cons, ← List.append_assoc]
        exact hholds

/-- **All writes are to the array**, unless a null pointer is searched: then there is no result. -/
theorem findMatches_eq (songs : List SongRecord) (key keyword : List Char) :
    findMatches songs key keyword =
      if ∀ song ∈ songs, none ∉ exactValues key (song.metaKeys.getD []) then
        some (.of (repeated (timesFound key keyword) 0 songs))
      else none := by
  unfold findMatches
  split
  · next hnull =>
      obtain ⟨found, hfound, hholds⟩ := matchSongs_holds hnull GrowingArray.holds_empty
      rw [hfound, Option.bind_eq_bind, Option.bind_some, hholds.trim, hholds.count]
      rfl
  · next hnull =>
      have hsong : ∃ song ∈ songs, none ∈ exactValues key (song.metaKeys.getD []) := by
        simpa using hnull
      rw [matchSongs_null hsong GrowingArray.holds_empty]
      rfl

/-! ## When it is what is asked for -/

section Repeated

variable {β : Type} {x : β} {ys : List β}

theorem repeated_cons (times : β → Nat) (i : Nat) (x : β) (ys : List β) :
    repeated times i (x :: ys) = List.replicate (times x) i ++ repeated times (i + 1) ys := by
  rw [repeated, List.zipIdx_cons, List.flatMap_cons]
  rfl

theorem le_of_mem_repeated {times : β → Nat} {j : Nat} (h : j ∈ repeated times i ys) : i ≤ j := by
  obtain ⟨⟨y, k⟩, hmem, hj⟩ := List.mem_flatMap.mp h
  obtain rfl := (List.mem_replicate.mp hj).2
  exact List.le_snd_of_mem_zipIdx hmem

/-- An element is repeated as often as it says. -/
theorem count_repeated_cons (times : β → Nat) (i : Nat) (x : β) (ys : List β) :
    (repeated times i (x :: ys)).count i = times x := by
  have hrest : i ∉ repeated times (i + 1) ys := by
    intro hmem
    have hle := le_of_mem_repeated hmem
    omega
  rw [repeated_cons, List.count_append, List.count_replicate_self, List.count_eq_zero.mpr hrest]
  rfl

theorem repeated_eq_iff (times times' : β → Nat) (i : Nat) (ys : List β) :
    repeated times i ys = repeated times' i ys ↔ ∀ y ∈ ys, times y = times' y := by
  induction ys generalizing i with
  | nil => simp [repeated]
  | cons x ys ih =>
      rw [List.forall_mem_cons]
      constructor
      · intro heq
        have hx : times x = times' x := by
          rw [← count_repeated_cons times i x ys, heq, count_repeated_cons]
        refine ⟨hx, (ih (i + 1)).mp ?_⟩
        rw [repeated_cons, repeated_cons, hx] at heq
        exact List.append_cancel_left heq
      · rintro ⟨hx, hrest⟩
        rw [repeated_cons, repeated_cons, hx, (ih (i + 1)).mpr hrest]

/-- A filter takes each element once or not at all. -/
theorem filter_zipIdx (p : β → Bool) (i : Nat) (ys : List β) :
    ((ys.zipIdx i).filter fun y => p y.1).map Prod.snd =
      repeated (fun y => if p y then 1 else 0) i ys := by
  induction ys generalizing i with
  | nil => rfl
  | cons x ys ih =>
      rw [repeated_cons, List.zipIdx_cons, List.filter_cons, ← ih (i + 1)]
      cases p x <;> rfl

end Repeated

theorem of_inj {xs ys : List Nat} : DbSearchResult.of xs = DbSearchResult.of ys ↔ xs = ys := by
  constructor
  · intro h
    exact (List.map_inj_right fun _ _ => Option.some.inj).mp (DbSearchResult.mk.inj h).1
  · rintro rfl
    rfl

/-- With a key under another spelling there is none under this. -/
theorem exactValues_eq (hdistinct : metaKeys.Pairwise fun a b => strcasecmp b.1 a.1 = false)
    (key : List Char) :
    exactValues key metaKeys = match getMetaData metaKeys key with
      | none => []
      | some metaKey => if metaKey.1 = key then metaKey.2 else [] := by
  induction metaKeys with
  | nil => rfl
  | cons metaKey metaKeys ih =>
      obtain ⟨hothers, hdistinct⟩ := List.pairwise_cons.mp hdistinct
      rw [getMetaData, MultiMap.lookup, exactValues, List.find?_cons, List.find?_cons]
      cases hsame : strcasecmp key metaKey.1 with
      | true =>
          by_cases hkey : metaKey.1 = key
          · simp [hkey]
          · have hnone : (metaKeys.find? fun metaKey => key = metaKey.1) = none := by
              rw [List.find?_eq_none]
              intro other hother heq
              have hdiffers := hothers other hother
              rw [← of_decide_eq_true heq, hsame] at hdiffers
              cases hdiffers
            simp [hkey, hnone, Ne.symm hkey]
      | false =>
          have hkey : key ≠ metaKey.1 := by
            rintro rfl
            rw [strcasecmp_classes.refl] at hsame
            cases hsame
          rw [decide_eq_false hkey]
          exact ih hdistinct

theorem song_iff (song : SongRecord)
    (hdistinct : (song.metaKeys.getD []).Pairwise fun a b => strcasecmp b.1 a.1 = false) :
    (none ∉ exactValues key (song.metaKeys.getD []) ∧
        timesFound key keyword song = if hasMatch key keyword song then 1 else 0) ↔
      ∀ metaKey ∈ getMetaData (song.metaKeys.getD []) key, SameBothWays key keyword metaKey := by
  unfold timesFound hasMatch
  rw [exactValues_eq hdistinct]
  cases getMetaData (song.metaKeys.getD []) key with
  | none => simp [contained]
  | some metaKey =>
      by_cases hkey : metaKey.1 = key
      · simp [SameBothWays, hkey]
      · simp [SameBothWays, hkey, contained]

/-- **The songs with a match are found, in order and each once, exactly when all songs say the same
both ways.** -/
theorem findMatches_iff (songs : List SongRecord) (key keyword : List Char)
    (hdistinct : ∀ song ∈ songs,
      (song.metaKeys.getD []).Pairwise fun a b => strcasecmp b.1 a.1 = false) :
    findMatches songs key keyword = some (.of (withMatch songs key keyword)) ↔
      ∀ song ∈ songs, ∀ metaKey ∈ getMetaData (song.metaKeys.getD []) key,
        SameBothWays key keyword metaKey := by
  have hsongs : (∀ song ∈ songs, ∀ metaKey ∈ getMetaData (song.metaKeys.getD []) key,
        SameBothWays key keyword metaKey) ↔
      ∀ song ∈ songs, none ∉ exactValues key (song.metaKeys.getD []) ∧
        timesFound key keyword song = if hasMatch key keyword song then 1 else 0 :=
    forall₂_congr fun song hsong => (song_iff song (hdistinct song hsong)).symm
  rw [hsongs, findMatches_eq, withMatch, filter_zipIdx]
  split
  · next hnull =>
      rw [Option.some_inj, of_inj, repeated_eq_iff]
      exact forall₂_congr fun song hsong => (and_iff_right (hnull song hsong)).symm
  · next hnull =>
      refine iff_of_false nofun fun h => ?_
      exact hnull fun song hsong => (h song hsong).1

/-- A song of Heart, which is the keyword, and one without an artist. -/
def heartSongs : List SongRecord :=
  [{ SongRecord.loadFile (fun _ => []) "a.mp3".toList with
      metaKeys := some [("title".toList, [some "Alone".toList]),
        ("artist".toList, [some "Heart".toList, some "Ann Wilson".toList])] },
    { SongRecord.loadFile (fun _ => []) "b.mp3".toList with metaKeys := some [] }]

theorem findMatches_iff_heart :
    findMatches heartSongs "artist".toList "Heart".toList =
        some (.of (withMatch heartSongs "artist".toList "Heart".toList)) ↔
      ∀ song ∈ heartSongs, ∀ metaKey ∈ getMetaData (song.metaKeys.getD []) "artist".toList,
        SameBothWays "artist".toList "Heart".toList metaKey :=
  findMatches_iff heartSongs "artist".toList "Heart".toList (by decide)

/-- Part of a value finds nothing. -/
theorem not_findMatches_withMatch : ¬ ∀ songs key keyword,
    (∀ song ∈ songs, (song.metaKeys.getD []).Pairwise fun a b => strcasecmp b.1 a.1 = false) →
      findMatches songs key keyword = some (.of (withMatch songs key keyword)) := by
  intro h
  have hpart := h heartSongs "artist".toList "Hea".toList (by decide)
  have hfound : findMatches heartSongs "artist".toList "Hea".toList = some (.of []) := by decide
  have hwanted : withMatch heartSongs "artist".toList "Hea".toList = [0] := by decide
  rw [hfound, hwanted] at hpart
  cases hpart

end Squash.Search
