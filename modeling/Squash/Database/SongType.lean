import Squash.Database.Song
import Squash.Global

/-!
# `get_song_type`

The type of a music file is told by the end of its name. The three tests start at fixed distances
from the end, whatever the length of the name, so for a short name they start in front of it, and
the model has what lies there as a parameter. Where no test can succeed on that, a name is told
apart by its last characters alone (`getSongType_name`).

With `USE_MAGIC` the first bytes of the file are looked at when the name does not tell.

When nothing in front of the name may be read, the name has to be long enough for the tests
(`getSongTypeByName_detects_iff`). Its length is kept in an `unsigned int`, and a name that this cannot
count is told apart by a part of it.
-/

namespace Squash

open Pcm (Byte)

/-- What is read at an index from the start of a string. In front of it, `none` is memory that cannot
be read. -/
def charAt (before : Int → Option Char) (s : List Char) (i : Int) : Option Char :=
  if 0 ≤ i then (s ++ ['\x00'])[i.toNat]? else before i

/-- `strncasecmp( &s[ i ], suffix, strlen( suffix ) ) == 0`, where `read` reads from `s`. -/
def matchesAt (read : Int → Option Char) (i : Int) : List Char → Option Bool
  | [] => some true
  | c :: suffix => do
    let d ← read i
    if d.toLower = c.toLower then matchesAt read (i + 1) suffix else return false

/-- Looking at `buf`, the first four bytes of the file. -/
def magicType (buf : List Byte) : SongType :=
  let buf (i : Nat) : Byte := buf.getD i 0
  if (buf 0 = 0xFF ∧ buf 1 &&& 0xE0 = 0xE0) ∨ (buf 0 = 73 ∧ buf 1 = 68 ∧ buf 2 = 51 ∧ buf 3 = 3) then
    .mp3
  else if buf 0 = 79 ∧ buf 1 = 103 ∧ buf 2 = 103 ∧ buf 3 = 83 then .ogg
  else if buf 0 = 102 ∧ buf 1 = 76 ∧ buf 2 = 97 ∧ buf 3 = 67 then .flac
  else .unknown

/-- The tests on the name. -/
def nameType (before : Int → Option Char) (fileName : List Char) : Option SongType :=
  let endsWith (suffix : List Char) : Option Bool :=
    matchesAt (charAt before fileName) (fileName.length - suffix.length) suffix
  do
    if ← endsWith ".mp3".toList then return .mp3
    else if ← endsWith ".ogg".toList then return .ogg
    else if ← endsWith ".flac".toList then return .flac
    else return .unknown

/-- `get_song_type`. With `USE_MAGIC`, a file that cannot be opened ends the program. -/
def getSongType (useMagic : Bool) (before : Int → Option Char) (contents : Option (List Byte))
    (fileName : List Char) : Option SongType :=
  if fileName = [] then some .unknown
  else do
    let type ← nameType before fileName
    if useMagic = true ∧ type = .unknown then contents.map fun bytes => magicType (bytes.take 4)
    else some type

/-! ## What the name tells -/

/-- The name ends like this, whatever its case. -/
def EndsWith (fileName suffix : List Char) : Prop := suffix <:+ fileName.map Char.toLower

instance (fileName suffix : List Char) : Decidable (EndsWith fileName suffix) :=
  inferInstanceAs (Decidable (suffix <:+ fileName.map Char.toLower))

/-- The type that the end of the name stands for. -/
def suffixType (fileName : List Char) : SongType :=
  if EndsWith fileName ".mp3".toList then .mp3
  else if EndsWith fileName ".ogg".toList then .ogg
  else if EndsWith fileName ".flac".toList then .flac
  else .unknown

/-- What lies in front of a name does not look like the start of a suffix. -/
def Unmatched (before : Int → Option Char) : Prop := ∀ i < 0, ∃ c, before i = some c ∧ c ≠ '.'

variable {before : Int → Option Char}

/-- A test that starts inside of the string compares the rest of it. -/
theorem matchesAt_append (before : Int → Option Char) (s : List Char) {rest suffix : List Char}
    (h : rest.length = suffix.length) :
    matchesAt (charAt before (s ++ rest)) s.length suffix =
      some (decide (rest.map Char.toLower = suffix.map Char.toLower)) := by
  induction suffix generalizing s rest with
  | nil =>
      have hrest : rest = [] := List.length_eq_zero_iff.mp h
      simp [matchesAt, hrest]
  | cons c suffix ih =>
      obtain ⟨d, rest, rfl⟩ := List.exists_cons_of_length_eq_add_one h
      have hread : charAt before (s ++ d :: rest) s.length = some d := by
        simp [charAt]
      have hrest := ih (s ++ [d]) (Nat.succ.inj h)
      rw [List.append_assoc, List.singleton_append, List.length_append] at hrest
      rw [matchesAt, hread]
      show (if d.toLower = c.toLower then
        matchesAt (charAt before (s ++ d :: rest)) (s.length + 1) suffix else some false) = _
      by_cases hc : d.toLower = c.toLower
      · simpa [hc] using hrest
      · simp [hc]

/-- A test that starts in front of the string fails. -/
theorem matchesAt_before (h : Unmatched before) (s suffix : List Char) {i : Int} (hi : i < 0) :
    matchesAt (charAt before s) i ('.' :: suffix) = some false := by
  obtain ⟨d, hd, hne⟩ := h i hi
  have hread : charAt before s i = some d := by
    rw [charAt, if_neg (Int.not_le.mpr hi), hd]
  have hdot : d.toLower ≠ '.' := fun hdot => hne (eq_of_toLower (by decide) hdot)
  rw [matchesAt, hread]
  exact if_neg hdot

/-- Of a name that is cut where the suffix has to start, only the rest counts. -/
theorem endsWith_append {s rest suffix : List Char} (h : rest.length = suffix.length) :
    EndsWith (s ++ rest) suffix ↔ rest.map Char.toLower = suffix := by
  have hrest : rest.map Char.toLower <:+ (s ++ rest).map Char.toLower := by
    rw [List.map_append]
    exact List.suffix_append _ _
  constructor
  · intro hends
    have hsuffix := List.suffix_of_suffix_length_le hends hrest (by simp [h])
    exact (hsuffix.eq_of_length (by simp [h])).symm
  · rintro rfl
    exact hrest

theorem matchesAt_endsWith (h : Unmatched before) (fileName : List Char) (suffix : List Char)
    (hlower : ('.' :: suffix).map Char.toLower = '.' :: suffix) :
    matchesAt (charAt before fileName) (fileName.length - ('.' :: suffix).length) ('.' :: suffix) =
      some (decide (EndsWith fileName ('.' :: suffix))) := by
  by_cases hlength : ('.' :: suffix).length ≤ fileName.length
  · obtain ⟨s, rest, rfl, hrest⟩ : ∃ s rest, fileName = s ++ rest ∧
        rest.length = ('.' :: suffix).length := by
      refine ⟨_, _, (List.take_append_drop (fileName.length - ('.' :: suffix).length) _).symm, ?_⟩
      rw [List.length_drop]
      omega
    have hstart : ((s ++ rest).length : Int) - ('.' :: suffix).length = s.length := by
      rw [List.length_append]
      omega
    rw [hstart, matchesAt_append before s hrest, hlower]
    simp only [endsWith_append hrest]
  · have hshort : ¬ EndsWith fileName ('.' :: suffix) := by
      intro hends
      have hle := List.IsSuffix.length_le hends
      rw [List.length_map] at hle
      exact hlength hle
    rw [matchesAt_before h _ _ (by omega), decide_eq_false hshort]

theorem nameType_eq (h : Unmatched before) (fileName : List Char) :
    nameType before fileName = some (suffixType fileName) := by
  have hmp3 := matchesAt_endsWith h fileName "mp3".toList rfl
  have hogg := matchesAt_endsWith h fileName "ogg".toList rfl
  have hflac := matchesAt_endsWith h fileName "flac".toList rfl
  change matchesAt _ (_ - (".mp3".toList.length : Nat)) ".mp3".toList =
    some (decide (EndsWith _ ".mp3".toList)) at hmp3
  change matchesAt _ (_ - (".ogg".toList.length : Nat)) ".ogg".toList =
    some (decide (EndsWith _ ".ogg".toList)) at hogg
  change matchesAt _ (_ - (".flac".toList.length : Nat)) ".flac".toList =
    some (decide (EndsWith _ ".flac".toList)) at hflac
  simp only [nameType, suffixType, hmp3, hogg, hflac, Option.bind_eq_bind, Option.bind_some,
    decide_eq_true_eq]
  split_ifs <;> rfl

/-- **The type is told by the end of the name alone** when nothing in front of it matches. -/
theorem getSongType_name (h : Unmatched before) (contents : Option (List Byte))
    (fileName : List Char) :
    getSongType false before contents fileName = some (suffixType fileName) := by
  unfold getSongType
  by_cases hnil : fileName = []
  · rw [if_pos hnil, hnil]
    rfl
  · rw [if_neg hnil, nameType_eq h]
    simp

/-- In front of a slash nothing counts for a suffix without one. -/
theorem endsWith_path {suffix : List Char} (h : '/' ∉ suffix) (dir name : List Char) :
    EndsWith (dir ++ '/' :: name) suffix ↔ EndsWith name suffix := by
  have hpath : (dir ++ '/' :: name).map Char.toLower =
      dir.map Char.toLower ++ '/' :: name.map Char.toLower := by
    rw [List.map_append, List.map_cons]
    rfl
  unfold EndsWith
  rw [hpath]
  constructor
  · intro hsuffix
    have hname : name.map Char.toLower <:+ dir.map Char.toLower ++ '/' :: name.map Char.toLower :=
      (List.suffix_cons _ _).trans (List.suffix_append _ _)
    rcases List.suffix_or_suffix_of_suffix hsuffix hname with hshort | hlong
    · exact hshort
    · -- a longer one would have the slash in it
      obtain ⟨pre, rfl⟩ := hlong
      rcases List.eq_nil_or_concat pre with rfl | ⟨pre, c, rfl⟩
      · exact List.suffix_refl _
      · obtain ⟨t, ht⟩ := hsuffix
        have hsplit : (t ++ pre) ++ c :: name.map Char.toLower =
            dir.map Char.toLower ++ '/' :: name.map Char.toLower := by
          simpa using ht
        obtain ⟨-, hcons⟩ := List.append_inj' hsplit rfl
        cases hcons
        exact absurd (by simp) h
  · exact fun hsuffix => hsuffix.trans ((List.suffix_cons _ _).trans (List.suffix_append _ _))

/-- The name of a music file. -/
def isMusic (name : List Char) : Bool :=
  EndsWith name ".mp3".toList ∨ EndsWith name ".ogg".toList ∨ EndsWith name ".flac".toList

theorem suffixType_ne_unknown (name : List Char) : suffixType name ≠ .unknown ↔ isMusic name := by
  unfold suffixType isMusic
  split_ifs <;> simp_all

theorem isMusic_path (dir name : List Char) : isMusic (dir ++ '/' :: name) = isMusic name := by
  have hmp3 : '/' ∉ ".mp3".toList := by decide
  have hogg : '/' ∉ ".ogg".toList := by decide
  have hflac : '/' ∉ ".flac".toList := by decide
  unfold isMusic
  simp only [endsWith_path hmp3, endsWith_path hogg, endsWith_path hflac]

/-! ## Names of any length -/

/-- The tests on the name, with `file_name_length`. -/
def nameTypeAt (before : Int → Option Char) (fileName : List Char) (fileNameLength : Nat) :
    Option SongType :=
  let endsWith (suffix : List Char) : Option Bool :=
    matchesAt (charAt before fileName) (fileNameLength - suffix.length) suffix
  do
    if ← endsWith ".mp3".toList then return .mp3
    else if ← endsWith ".ogg".toList then return .ogg
    else if ← endsWith ".flac".toList then return .flac
    else return .unknown

/-- `get_song_type` without `USE_MAGIC`. The length is an `unsigned int`. -/
def getSongTypeByName (before : Int → Option Char) (fileName : List Char) : Option SongType :=
  let fileNameLength := fileName.length % 2 ^ 32
  if fileNameLength = 0 then some .unknown else nameTypeAt before fileName fileNameLength

/-- The part of a name that `file_name_length` is the length of. -/
def counted (fileName : List Char) : List Char := fileName.take (fileName.length % 2 ^ 32)

/-- Each type is detected for its suffix, and nothing else is. -/
structure Detects (fileName : List Char) (result : Option SongType) : Prop where
  mp3 : result = some .mp3 ↔ EndsWith fileName ".mp3".toList
  ogg : result = some .ogg ↔ EndsWith fileName ".ogg".toList
  flac : result = some .flac ↔ EndsWith fileName ".flac".toList
  unknown : result = some .unknown ↔ ¬ EndsWith fileName ".mp3".toList ∧
    ¬ EndsWith fileName ".ogg".toList ∧ ¬ EndsWith fileName ".flac".toList

theorem length_counted (fileName : List Char) :
    (counted fileName).length = fileName.length % 2 ^ 32 := by
  rw [counted, List.length_take]
  exact Nat.min_eq_left (Nat.mod_le _ _)

theorem counted_eq {fileName : List Char} (h : fileName.length < 2 ^ 32) :
    counted fileName = fileName := by
  rw [counted, Nat.mod_eq_of_lt h, List.take_length]

/-- A test sees nothing behind its end. -/
theorem matchesAt_take (before : Int → Option Char) (s : List Char) {n : Nat} {i : Int}
    (suffix : List Char) (h : i + suffix.length ≤ n) (hn : n ≤ s.length) :
    matchesAt (charAt before s) i suffix = matchesAt (charAt before (s.take n)) i suffix := by
  induction suffix generalizing i with
  | nil => rfl
  | cons c suffix ih =>
      have hlength : i + ((suffix.length : Int) + 1) ≤ n := by simpa using h
      have hread : charAt before s i = charAt before (s.take n) i := by
        unfold charAt
        split
        · have hlt : i.toNat < n := by omega
          rw [List.getElem?_append_left (by omega), List.getElem?_append_left (by simp; omega),
            List.getElem?_take_of_lt hlt]
        · rfl
      rw [matchesAt, matchesAt, hread, ih (by omega)]

/-- A test that may not read in front of the string. -/
theorem matchesAt_inside (s : List Char) {suffix : List Char} (hne : suffix ≠ [])
    (hlower : suffix.map Char.toLower = suffix) :
    matchesAt (charAt (fun _ => none) s) (s.length - suffix.length) suffix =
      if suffix.length ≤ s.length then some (decide (EndsWith s suffix)) else none := by
  by_cases hlength : suffix.length ≤ s.length
  · obtain ⟨start, rest, rfl, hrest⟩ : ∃ start rest, s = start ++ rest ∧
        rest.length = suffix.length := by
      refine ⟨_, _, (List.take_append_drop (s.length - suffix.length) _).symm, ?_⟩
      rw [List.length_drop]
      omega
    have hstart : ((start ++ rest).length : Int) - suffix.length = start.length := by
      rw [List.length_append]
      omega
    rw [if_pos hlength, hstart, matchesAt_append _ start hrest, hlower]
    simp only [endsWith_append hrest]
  · obtain ⟨c, suffix, rfl⟩ := List.exists_cons_of_ne_nil hne
    have hread : charAt (fun _ => none) s (s.length - (c :: suffix).length) = none :=
      if_neg (by omega)
    rw [if_neg hlength, matchesAt, hread]
    rfl

theorem EndsWith.length_le {fileName suffix : List Char} (h : EndsWith fileName suffix) :
    suffix.length ≤ fileName.length := by
  have hle := List.IsSuffix.length_le h
  rwa [List.length_map] at hle

/-- The tests may read the last five characters, unless one of the first two succeeds. -/
theorem nameType_inside (s : List Char) :
    nameType (fun _ => none) s =
      if 5 ≤ s.length ∨ EndsWith s ".mp3".toList ∨ EndsWith s ".ogg".toList then
        some (suffixType s)
      else none := by
  have hmp3 : matchesAt (charAt (fun _ => none) s) (s.length - ".mp3".toList.length) ".mp3".toList =
      if 4 ≤ s.length then some (decide (EndsWith s ".mp3".toList)) else none :=
    matchesAt_inside s (by decide) rfl
  have hogg : matchesAt (charAt (fun _ => none) s) (s.length - ".ogg".toList.length) ".ogg".toList =
      if 4 ≤ s.length then some (decide (EndsWith s ".ogg".toList)) else none :=
    matchesAt_inside s (by decide) rfl
  have hflac : matchesAt (charAt (fun _ => none) s) (s.length - ".flac".toList.length)
      ".flac".toList = if 5 ≤ s.length then some (decide (EndsWith s ".flac".toList)) else none :=
    matchesAt_inside s (by decide) rfl
  simp only [nameType, suffixType, hmp3, hogg, hflac, Option.bind_eq_bind, Option.pure_def]
  by_cases hisMp3 : EndsWith s ".mp3".toList
  · have hlength : 4 ≤ s.length := hisMp3.length_le
    simp only [hisMp3, hlength, if_true, decide_true, Option.bind_some, true_or, or_true]
  by_cases hisOgg : EndsWith s ".ogg".toList
  · have hlength : 4 ≤ s.length := hisOgg.length_le
    simp only [hisMp3, hisOgg, hlength, if_true, if_false, decide_true, decide_false,
      Option.bind_some, Bool.false_eq_true, or_true]
  by_cases hfive : 5 ≤ s.length
  · have hfour : 4 ≤ s.length := by omega
    by_cases hisFlac : EndsWith s ".flac".toList <;>
      simp only [hisMp3, hisOgg, hisFlac, hfive, hfour, if_true, if_false, decide_true,
        decide_false, Option.bind_some, Bool.false_eq_true, true_or]
  · -- the third test starts in front of the name, if it is made
    by_cases hfour : 4 ≤ s.length <;>
      simp only [hisMp3, hisOgg, hfive, hfour, if_true, if_false, decide_false, Option.bind_some,
        Option.bind_none, Bool.false_eq_true, or_self]

theorem getSongTypeByName_counted (before : Int → Option Char) (fileName : List Char) :
    getSongTypeByName before fileName =
      if counted fileName = [] then some .unknown else nameType before (counted fileName) := by
  have hle : fileName.length % 2 ^ 32 ≤ fileName.length := Nat.mod_le _ _
  have htest : ∀ suffix : List Char,
      matchesAt (charAt before fileName) ((fileName.length % 2 ^ 32 : Nat) - suffix.length) suffix =
        matchesAt (charAt before (counted fileName))
          ((counted fileName).length - suffix.length) suffix := by
    intro suffix
    rw [length_counted]
    exact matchesAt_take before fileName suffix (by omega) hle
  have hnil : fileName.length % 2 ^ 32 = 0 ↔ counted fileName = [] := by
    rw [← length_counted, List.length_eq_zero_iff]
  simp only [getSongTypeByName, nameTypeAt, htest, hnil]
  rfl

/-- **The two models agree** on names that an `unsigned int` can count. -/
theorem getSongTypeByName_eq {fileName : List Char} (h : fileName.length < 2 ^ 32)
    (before : Int → Option Char) (contents : Option (List Byte)) :
    getSongTypeByName before fileName = getSongType false before contents fileName := by
  rw [getSongTypeByName_counted, counted_eq h, getSongType]
  split
  · rfl
  · simp only [Bool.false_eq_true, false_and, if_false]
    exact (Option.bind_fun_some _).symm

/-- A name does not end in two of the suffixes. -/
theorem EndsWith.related {fileName suffix suffix' : List Char} (h : EndsWith fileName suffix)
    (h' : EndsWith fileName suffix') : suffix <:+ suffix' ∨ suffix' <:+ suffix :=
  List.suffix_or_suffix_of_suffix h h'

theorem detects_iff (fileName : List Char) (result : Option SongType) :
    Detects fileName result ↔ result = some (suffixType fileName) := by
  have hmp3Ogg : EndsWith fileName ".mp3".toList → ¬ EndsWith fileName ".ogg".toList :=
    fun h h' => absurd (h.related h') (by decide)
  have hmp3Flac : EndsWith fileName ".mp3".toList → ¬ EndsWith fileName ".flac".toList :=
    fun h h' => absurd (h.related h') (by decide)
  have hoggFlac : EndsWith fileName ".ogg".toList → ¬ EndsWith fileName ".flac".toList :=
    fun h h' => absurd (h.related h') (by decide)
  unfold suffixType
  constructor
  · intro h
    split_ifs with hmp3 hogg hflac
    · exact h.mp3.mpr hmp3
    · exact h.ogg.mpr hogg
    · exact h.flac.mpr hflac
    · exact h.unknown.mpr ⟨hmp3, hogg, hflac⟩
  · rintro rfl
    split_ifs with hmp3 hogg hflac
    · exact ⟨iff_of_true rfl hmp3, iff_of_false nofun (hmp3Ogg hmp3),
        iff_of_false nofun (hmp3Flac hmp3), iff_of_false nofun fun h => h.1 hmp3⟩
    · exact ⟨iff_of_false nofun hmp3, iff_of_true rfl hogg,
        iff_of_false nofun (hoggFlac hogg), iff_of_false nofun fun h => h.2.1 hogg⟩
    · exact ⟨iff_of_false nofun hmp3, iff_of_false nofun hogg, iff_of_true rfl hflac,
        iff_of_false nofun fun h => h.2.2 hflac⟩
    · exact ⟨iff_of_false nofun hmp3, iff_of_false nofun hogg, iff_of_false nofun hflac,
        iff_of_true rfl ⟨hmp3, hogg, hflac⟩⟩

/-- **The type is told by the end of the name, and only the name is read**, exactly when the counted
part of the name is long enough for the tests that are made, and tells the same type as the name. -/
theorem getSongTypeByName_detects_iff (fileName : List Char) :
    Detects fileName (getSongTypeByName (fun _ => none) fileName) ↔
      (counted fileName = [] ∨ 5 ≤ (counted fileName).length ∨
        EndsWith (counted fileName) ".mp3".toList ∨ EndsWith (counted fileName) ".ogg".toList) ∧
      suffixType (counted fileName) = suffixType fileName := by
  rw [detects_iff, getSongTypeByName_counted, nameType_inside]
  by_cases hnil : counted fileName = []
  · have hunknown : suffixType [] = .unknown := by decide
    rw [if_pos hnil, hnil, hunknown, Option.some_inj]
    simp
  · rw [if_neg hnil]
    split
    · next hlong =>
        rw [Option.some_inj]
        exact ⟨fun h => ⟨.inr hlong, h⟩, fun h => h.2⟩
    · next hshort =>
        refine iff_of_false nofun ?_
        rintro ⟨hcounted | hlong, -⟩
        · exact hnil hcounted
        · exact hshort hlong

/-- The test for the first suffix starts three characters in front of this name. -/
theorem not_getSongTypeByName_detects :
    ¬ ∀ fileName, fileName ≠ [] → Detects fileName (getSongTypeByName (fun _ => none) fileName) := by
  intro h
  have hone := (detects_iff ['a'] _).mp (h ['a'] (by decide))
  exact absurd hone (by decide)

end Squash
