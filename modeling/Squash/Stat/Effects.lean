import Squash.Stat.Rating

/-!
# What the operations on statistics change

One lemma for each operation says which songs and files it may touch, and how. For the running sums
it says that the operation takes away the old weight of the song it changes and adds the new one,
where a song's weight is its contribution to all six sums (`Squash.Stat.Aggregates` goes on from
there).
-/

namespace Squash

variable {config : Config} {s s' : Store} {i : Nat}

/-! ## Songs of a store -/

theorem setSong_self {song old : SongInfo} (h : s.databaseInfo.songs[i]? = some old) :
    (s.setSong i song).databaseInfo.songs[i]? = some song := by
  obtain ⟨hlt, -⟩ := List.getElem?_eq_some_iff.mp h
  exact List.getElem?_set_self hlt

theorem setSong_ne {song : SongInfo} {j : Nat} (h : j ≠ i) :
    (s.setSong i song).databaseInfo.songs[j]? = s.databaseInfo.songs[j]? :=
  List.getElem?_set_ne h.symm

/-- What holds of the new song, and of all others as before, holds of every song. -/
theorem setSong_exists {T T' : SongInfo → Prop} {song new : SongInfo} {j : Nat}
    (hsong : s.databaseInfo.songs[i]? = some song)
    (h : ∃ old, s.databaseInfo.songs[j]? = some old ∧ T old)
    (hself : j = i → T song → T' new) (hother : j ≠ i → ∀ old, T old → T' old) :
    ∃ x, (s.setSong i new).databaseInfo.songs[j]? = some x ∧ T' x := by
  obtain ⟨old, hold, hT⟩ := h
  by_cases hj : j = i
  · subst hj
    obtain rfl : song = old := Option.some.inj (hsong.symm.trans hold)
    exact ⟨new, setSong_self hsong, hself rfl hT⟩
  · exact ⟨old, (setSong_ne hj).trans hold, hother hj old hT⟩

@[simp] theorem setSong_length (s : Store) (i : Nat) (song : SongInfo) :
    (s.setSong i song).databaseInfo.songs.length = s.databaseInfo.songs.length :=
  List.length_set

@[simp] theorem setSong_statsLoaded (s : Store) (i : Nat) (song : SongInfo) :
    (s.setSong i song).databaseInfo.statsLoaded = s.databaseInfo.statsLoaded := rfl

/-! ## `save_song` -/

/-- `save_song` does nothing, or it writes the song's statistics and clears `changed`; the latter
only if there was a change and the statistics are loaded. -/
theorem saveSong_cases (config : Config) (s : Store) (i : Nat) :
    saveSong config s i = s ∨
      ∃ song, s.databaseInfo.songs[i]? = some song ∧ song.stat.changed = true ∧
        s.databaseInfo.statsLoaded = true ∧
        saveSong config s i =
          (s.setSong i { song with stat := { song.stat with changed := false } }).write
            (buildFullfilename song .basenameStat) (statText song.stat) := by
  unfold saveSong
  cases hsong : s.databaseInfo.songs[i]? with
  | none => exact .inl rfl
  | some song =>
      by_cases hsaves : saves config s song = true
      · right
        refine ⟨song, rfl, ?_, ?_, by simp only [hsaves, if_true, saveStatData]⟩
        · simp only [saves, Bool.and_eq_true] at hsaves
          exact hsaves.1.2
        · simp only [saves, Bool.and_eq_true] at hsaves
          exact hsaves.2
      · exact .inl (by simp only [hsaves, Bool.false_eq_true, if_false])

theorem saveSong_length (config : Config) (s : Store) (i : Nat) :
    (saveSong config s i).databaseInfo.songs.length = s.databaseInfo.songs.length := by
  rcases saveSong_cases config s i with hsame | ⟨song, -, -, -, hsave⟩
  · rw [hsame]
  · rw [hsave]
    exact setSong_length s i _

theorem saveSong_statsLoaded (config : Config) (s : Store) (i : Nat) :
    (saveSong config s i).databaseInfo.statsLoaded = s.databaseInfo.statsLoaded := by
  rcases saveSong_cases config s i with hsame | ⟨song, -, -, -, hsave⟩
  · rw [hsame]
  · rw [hsave]
    exact setSong_statsLoaded s i _

/-! ## `start_song_picker` -/

theorem startSongPicker_fields (config : Config) (db : DatabaseInfo) :
    (db.startSongPicker config).songs = db.songs ∧
      (db.startSongPicker config).statsLoaded = true := by
  have hfold : ∀ (songs : List SongInfo) (db : DatabaseInfo),
      (songs.foldl (fun db song => db.addSong config song.stat) db).songs = db.songs := by
    intro songs
    induction songs with
    | nil => exact fun _ => rfl
    | cons song songs ih => exact fun db => ih _
  exact ⟨hfold _ _, rfl⟩

/-! ## Weights -/

/-- The six running sums. -/
abbrev Sums := ℚ × ℚ × ℤ × ℤ × ℤ × ℤ

def DatabaseInfo.sums (db : DatabaseInfo) : Sums :=
  (db.sum, db.sqrSum, db.playSum, db.playSqrSum, db.skipSum, db.skipSqrSum)

/-- What a song with these statistics contributes to the sums. -/
def StatInfo.weight (config : Config) (stat : StatInfo) : Sums :=
  (getRating config stat, getRating config stat * getRating config stat,
    stat.playCount, stat.playCount * stat.playCount,
    stat.skipCount, stat.skipCount * stat.skipCount)

/-- The weight does not depend on the repeat counter and the mark. -/
theorem weight_congr {a b : StatInfo} (hplay : b.playCount = a.playCount)
    (hskip : b.skipCount = a.skipCount) (hrating : b.manualRating = a.manualRating) :
    b.weight config = a.weight config := by
  simp only [StatInfo.weight, getRating, hplay, hskip, hrating]

/-! ## `feedback` and `do_song_rating_adjust` -/

/-- `database_info` with the weight of `old` taken away and that of `new` added. -/
structure DatabaseInfo.Reweighed (config : Config) (db db' : DatabaseInfo) (old new : StatInfo) :
    Prop where
  songs : db'.songs = db.songs
  statsLoaded : db'.statsLoaded = db.statsLoaded
  sums : db'.sums = db.sums - old.weight config + new.weight config

/-- No song comes or goes, and `stats_loaded` stays as it is. -/
theorem DatabaseInfo.Reweighed.saved {db : DatabaseInfo} {song : SongInfo} {stat : StatInfo}
    (h : s.databaseInfo.Reweighed config db song.stat stat) :
    (saveSong config (({ s with databaseInfo := db }).setSong i
        { song with stat }) i).databaseInfo.songs.length = s.databaseInfo.songs.length ∧
      (saveSong config (({ s with databaseInfo := db }).setSong i
        { song with stat }) i).databaseInfo.statsLoaded = s.databaseInfo.statsLoaded := by
  rw [saveSong_length, setSong_length, saveSong_statsLoaded, setSong_statsLoaded]
  exact ⟨congrArg List.length h.songs, h.statsLoaded⟩

theorem reweighed_feedback (config : Config) (db : DatabaseInfo) (stat : StatInfo)
    (direction : Int) :
    db.Reweighed config
      (((db.subtractRating (getRating config stat)).feedback stat direction).addRating
        (getRating config (stat.feedback direction)))
      stat (stat.feedback direction) := by
  by_cases hdir : direction < 0
  · refine ⟨by simp only [DatabaseInfo.feedback, if_pos hdir]; rfl,
      by simp only [DatabaseInfo.feedback, if_pos hdir]; rfl, ?_⟩
    simp only [DatabaseInfo.sums, DatabaseInfo.addRating, DatabaseInfo.feedback,
      DatabaseInfo.subtractRating, StatInfo.weight, StatInfo.feedback, if_pos hdir,
      Prod.mk_sub_mk, Prod.mk_add_mk, Prod.mk.injEq]
    refine ⟨?_, ?_, ?_, ?_, ?_, ?_⟩ <;> first | trivial | ring
  · refine ⟨by simp only [DatabaseInfo.feedback, if_neg hdir]; rfl,
      by simp only [DatabaseInfo.feedback, if_neg hdir]; rfl, ?_⟩
    simp only [DatabaseInfo.sums, DatabaseInfo.addRating, DatabaseInfo.feedback,
      DatabaseInfo.subtractRating, StatInfo.weight, StatInfo.feedback, if_neg hdir,
      Prod.mk_sub_mk, Prod.mk_add_mk, Prod.mk.injEq]
    refine ⟨?_, ?_, ?_, ?_, ?_, ?_⟩ <;> first | trivial | ring

theorem reweighed_adjust (config : Config) (db : DatabaseInfo) (stat : StatInfo) (relative : Bool)
    (amount : Int) :
    db.Reweighed config
      ((db.subtractRating (getRating config stat)).addRating
        (getRating config (stat.adjust relative amount)))
      stat (stat.adjust relative amount) := by
  refine ⟨rfl, rfl, ?_⟩
  simp only [DatabaseInfo.sums, DatabaseInfo.addRating, DatabaseInfo.subtractRating,
    StatInfo.weight, StatInfo.adjust, Prod.mk_sub_mk, Prod.mk_add_mk, Prod.mk.injEq]
  refine ⟨?_, ?_, ?_, ?_, ?_, ?_⟩ <;> first | trivial | ring

theorem feedback_inv {direction : Int} (h : feedback config s i direction = some s') :
    ∃ song db, s.databaseInfo.songs[i]? = some song ∧
      s.databaseInfo.Reweighed config db song.stat (song.stat.feedback direction) ∧
      s' = saveSong config (({ s with databaseInfo := db }).setSong i
        { song with stat := song.stat.feedback direction }) i := by
  obtain ⟨song, hsong, hs'⟩ := Option.bind_eq_some_iff.mp h
  cases hs'
  exact ⟨song, _, hsong, reweighed_feedback _ _ _ _, rfl⟩

theorem songRatingAdjust_inv {relative : Bool} {amount : Int}
    (h : songRatingAdjust config s (some i) relative amount = some s') :
    ∃ song db, s.databaseInfo.songs[i]? = some song ∧
      s.databaseInfo.Reweighed config db song.stat (song.stat.adjust relative amount) ∧
      s' = saveSong config (({ s with databaseInfo := db }).setSong i
        { song with stat := song.stat.adjust relative amount }) i := by
  obtain ⟨song, hsong, hs'⟩ := Option.bind_eq_some_iff.mp h
  cases hs'
  exact ⟨song, _, hsong, reweighed_adjust _ _ _ _ _, rfl⟩

@[simp] theorem feedback_changed (stat : StatInfo) (direction : Int) :
    (stat.feedback direction).changed = true := by
  unfold StatInfo.feedback
  split <;> rfl

@[simp] theorem adjust_changed (stat : StatInfo) (relative : Bool) (amount : Int) :
    (stat.adjust relative amount).changed = true := rfl

/-! ## `pick_song` -/

/-- A song after any number of turns of the loop in `pick_song`: at most the repeat counter is
another one, and then the change is marked. -/
structure PickedSong (a b : SongInfo) : Prop where
  basename : b.basename = a.basename
  filename : b.filename = a.filename
  playCount : b.stat.playCount = a.stat.playCount
  skipCount : b.stat.skipCount = a.stat.skipCount
  manualRating : b.stat.manualRating = a.stat.manualRating
  changed : b = a ∨ b.stat.changed = true

theorem PickedSong.refl (a : SongInfo) : PickedSong a a := ⟨rfl, rfl, rfl, rfl, rfl, .inl rfl⟩

theorem PickedSong.trans {a b c : SongInfo} (hab : PickedSong a b) (hbc : PickedSong b c) :
    PickedSong a c := by
  refine ⟨hbc.basename.trans hab.basename, hbc.filename.trans hab.filename,
    hbc.playCount.trans hab.playCount, hbc.skipCount.trans hab.skipCount,
    hbc.manualRating.trans hab.manualRating, ?_⟩
  rcases hbc.changed with hsame | hchanged
  · rw [hsame]
    exact hab.changed
  · exact .inr hchanged

/-- `pick_song` changes nothing but the songs it draws. -/
structure Picked (db db' : DatabaseInfo) : Prop where
  others : ∃ songs : List SongInfo, db' = { db with songs }
  length : db'.songs.length = db.songs.length
  songs : ∀ (j : Nat) a, db.songs[j]? = some a → ∃ b, db'.songs[j]? = some b ∧ PickedSong a b

theorem Picked.refl (db : DatabaseInfo) : Picked db db :=
  ⟨⟨db.songs, rfl⟩, rfl, fun _ a ha => ⟨a, ha, .refl a⟩⟩

theorem Picked.trans {db db' db'' : DatabaseInfo} (h : Picked db db') (h' : Picked db' db'') :
    Picked db db'' := by
  refine ⟨?_, h'.length.trans h.length, ?_⟩
  · obtain ⟨songs, rfl⟩ := h.others
    obtain ⟨songs', rfl⟩ := h'.others
    exact ⟨songs', rfl⟩
  · intro j a ha
    obtain ⟨b, hb, hab⟩ := h.songs j a ha
    obtain ⟨c, hc, hbc⟩ := h'.songs j b hb
    exact ⟨c, hc, hab.trans hbc⟩

theorem Picked.set {db : DatabaseInfo} {j : Nat} {a b : SongInfo} (ha : db.songs[j]? = some a)
    (hab : PickedSong a b) : Picked db { db with songs := db.songs.set j b } := by
  refine ⟨⟨_, rfl⟩, List.length_set, fun k c hc => ?_⟩
  by_cases hk : k = j
  · subst hk
    obtain rfl : a = c := Option.some.inj (ha.symm.trans hc)
    obtain ⟨hlt, -⟩ := List.getElem?_eq_some_iff.mp ha
    exact ⟨b, List.getElem?_set_self hlt, hab⟩
  · exact ⟨c, (List.getElem?_set_ne (Ne.symm hk)).trans hc, .refl c⟩

theorem pickSong_picked {db db' : DatabaseInfo} {draws : List Draw}
    (h : pickSong db draws = some (db', i)) : Picked db db' := by
  induction draws generalizing db with
  | nil => cases h
  | cons draw draws ih =>
      rw [pickSong] at h
      split at h
      · cases h
      · next song hsong =>
          split at h
          · split at h
            · cases h
              exact Picked.set hsong ⟨rfl, rfl, rfl, rfl, rfl, .inr rfl⟩
            · apply Picked.trans _ (ih h)
              exact Picked.set hsong ⟨rfl, rfl, rfl, rfl, rfl, .inr rfl⟩
          · exact ih h

end Squash
