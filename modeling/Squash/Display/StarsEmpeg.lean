import Squash.Input.Session
import Squash.Vfd.Calls

/-!
# Ratings on the EMPEG

The rating that the user gave a song is drawn as five stars, in two sizes, and a song without one has a bright
question mark. What is drawn can be read again, so that no two ratings look the same (`rated_shown`). -/

namespace Squash.Empeg

open Vfd Transition

/-! ## Drawing -/

inductive Star where
  | whole | half | none
  deriving DecidableEq, Repr

/-- Where the stars are drawn, and of which bitmaps. -/
structure StarRow where
  bitmap : Star → Bitmap
  size : Int
  left : Int
  top : Int
  step : Int
  markLeft : Int
  markTop : Int

/-- The stars of `draw_stars_empeg`. -/
def largeStars : StarRow where
  bitmap
    | .whole => [bitmap2BPP, 0, 9, 0, 9,
      0x00, 0x03, 0x00,
      0x00, 0x03, 0x00,
      0xff, 0xff, 0xff,
      0xf0, 0x3f, 0x00,
      0xc0, 0x0f, 0x00,
      0xf0, 0x3f, 0x00,
      0xf0, 0x3c, 0x00,
      0x3c, 0xf0, 0x00,
      0x0c, 0xc0, 0x00]
    | .half => [bitmap2BPP, 0, 9, 0, 9,
      0x00, 0x03, 0x00,
      0x00, 0x03, 0x00,
      0xff, 0xab, 0x02,
      0xf0, 0x2b, 0x00,
      0xc0, 0x0b, 0x00,
      0xf0, 0x2b, 0x00,
      0xf0, 0x28, 0x00,
      0x3c, 0xa0, 0x00,
      0x0c, 0x80, 0x00]
    | .none => [bitmap2BPP, 0, 9, 0, 9,
      0x00, 0x02, 0x00,
      0x00, 0x02, 0x00,
      0xaa, 0xaa, 0x02,
      0xa0, 0x2a, 0x00,
      0x80, 0x0a, 0x00,
      0xa0, 0x2a, 0x00,
      0xa0, 0x28, 0x00,
      0x28, 0xa0, 0x00,
      0x08, 0x80, 0x00]
  size := 9
  left := 20
  top := 20
  step := 12
  markLeft := 12
  markTop := 22

/-- The stars of `draw_song_empeg`. -/
def smallStars : StarRow where
  bitmap
    | .whole => [bitmap2BPP, 0, 5, 0, 5,
      0x30, 0x00,
      0xff, 0x03,
      0xfc, 0x00,
      0xcf, 0x03,
      0x03, 0x03]
    | .half => [bitmap2BPP, 0, 5, 0, 5,
      0x30, 0x00,
      0xbf, 0x02,
      0xbc, 0x00,
      0x8f, 0x02,
      0x03, 0x02]
    | .none => [bitmap2BPP, 0, 5, 0, 5,
      0x20, 0x00,
      0xaa, 0x02,
      0xa8, 0x00,
      0x8a, 0x02,
      0x02, 0x02]
  size := 5
  left := 14
  top := 0
  step := 6
  markLeft := 10
  markTop := 0

namespace StarRow

def draw (row : StarRow) (star : Star) (i : Nat) : Call :=
  .drawBitmap (row.bitmap star) (row.left + i * row.step) row.top 0 0 (-1) (-1) none false

/-- The question mark, and the three loops. -/
def calls (row : StarRow) (rating : Int) : List Call :=
  let whole := (rating.tdiv 2).toNat
  let drawn := if rating.tmod 2 = 1 then whole + 1 else whole
  .drawText ['?'] row.markLeft row.markTop 2 (if rating = -1 then 3 else 2) ::
    ((List.range whole).map (row.draw .whole) ++
      (if rating.tmod 2 = 1 then [row.draw .half whole] else []) ++
      (List.range' drawn (5 - drawn)).map (row.draw .none))

end StarRow

/-- The star that is drawn at a place. -/
def starAt (rating : Int) (i : Nat) : Star :=
  if 2 * (i : Int) + 2 ≤ rating then .whole else if 2 * (i : Int) + 1 = rating then .half else .none

/-- C rounds towards zero. -/
theorem tdiv_two_of_neg {rating : Int} (h : rating < 0) :
    rating.tdiv 2 = -(-rating / 2) ∧ rating.tmod 2 = -(-rating % 2) := by
  rw [← Int.tdiv_eq_ediv_of_nonneg (by omega), ← Int.tmod_eq_emod_of_nonneg (by omega),
    Int.neg_tdiv, Int.neg_tmod, Int.neg_neg, Int.neg_neg]
  exact ⟨rfl, rfl⟩

theorem whole_iff {rating : Int} {i : Nat} :
    i < (rating.tdiv 2).toNat ↔ 2 * (i : Int) + 2 ≤ rating := by
  obtain hneg | hpos := lt_or_ge rating 0
  · rw [(tdiv_two_of_neg hneg).1]
    omega
  · rw [Int.tdiv_eq_ediv_of_nonneg hpos]
    omega

theorem half_iff {rating : Int} :
    rating.tmod 2 = 1 ↔ 2 * ((rating.tdiv 2).toNat : Int) + 1 = rating := by
  obtain hneg | hpos := lt_or_ge rating 0
  · rw [(tdiv_two_of_neg hneg).1, (tdiv_two_of_neg hneg).2]
    omega
  · rw [Int.tdiv_eq_ediv_of_nonneg hpos, Int.tmod_eq_emod_of_nonneg hpos]
    omega

/-- The three loops are one. -/
theorem calls_eq (row : StarRow) (rating : Int) :
    ∃ n, 5 ≤ n ∧ row.calls rating =
      .drawText ['?'] row.markLeft row.markTop 2 (if rating = -1 then 3 else 2) ::
        (List.range n).map fun i => row.draw (starAt rating i) i := by
  have hwhole : (List.range (rating.tdiv 2).toNat).map (row.draw .whole) =
      (List.range (rating.tdiv 2).toNat).map fun i => row.draw (starAt rating i) i := by
    refine List.map_congr_left fun i hi => ?_
    rw [starAt, if_pos (whole_iff.mp (List.mem_range.mp hi))]
  have hrest : ∀ drawn : Nat, rating ≤ 2 * drawn → (List.range' drawn (5 - drawn)).map (row.draw .none) =
      (List.range' drawn (5 - drawn)).map fun i => row.draw (starAt rating i) i := by
    refine fun drawn hdrawn => List.map_congr_left fun i hi => ?_
    have hi := List.mem_range'_1.mp hi
    rw [starAt, if_neg (by omega), if_neg (by omega)]
  have hsplit : ∀ m n, List.range (m + n) = List.range m ++ List.range' m n := by
    intro m n
    rw [List.range_eq_range', List.range_eq_range', ← List.range'_append_1, Nat.zero_add]
  have hnot : ¬ 2 * ((rating.tdiv 2).toNat : Int) + 2 ≤ rating :=
    fun h => Nat.lt_irrefl _ (whole_iff.mpr h)
  have hhalf : rating.tmod 2 = 1 ↔ _ := half_iff
  unfold StarRow.calls
  simp only
  generalize (rating.tdiv 2).toNat = whole at *
  by_cases hodd : rating.tmod 2 = 1
  · have hstar : starAt rating whole = .half := by rw [starAt, if_neg hnot, if_pos (hhalf.mp hodd)]
    refine ⟨whole + 1 + (5 - (whole + 1)), by omega, ?_⟩
    rw [if_pos hodd, if_pos hodd, hwhole, hrest (whole + 1) (by omega), hsplit, List.range_succ,
      List.map_append, List.map_append, List.map_singleton, hstar]
  · have hle : rating ≤ 2 * whole := by
      by_contra hgt
      exact hodd (hhalf.mpr (by omega))
    refine ⟨whole + (5 - whole), by omega, ?_⟩
    rw [if_neg hodd, if_neg hodd, hwhole, hrest whole hle, hsplit, List.map_append, List.append_nil]

/-! ## Reading -/

namespace StarRow

/-- A point of the star at a place. -/
def point (row : StarRow) (i : Nat) (x y : Int) : Point :=
  (row.left + i * row.step + x, row.top + y)

def pixel (row : StarRow) (star : Star) (x y : Int) : Shade :=
  ((row.bitmap star).pixel bitmap2BPP row.size none false x y).getD 0

/-- The rating that a picture shows: each star has a bright tip if it is at least half, and a bright right arm
if it is whole. -/
def read (row : StarRow) (picture : Point → Shade) : Int :=
  if picture (row.markLeft, row.markTop) = 3 then -1
  else ((List.range 5).map fun i =>
    (if picture (row.point i (row.size / 2) 0) = 3 then 1 else 0) +
      (if picture (row.point i (row.size - 1) (row.size / 4)) = 3 then 1 else 0)).sum

structure Ok (row : StarRow) : Prop where
  size : 4 ≤ row.size ∧ row.size ≤ row.step
  wellFormed : ∀ star, (row.bitmap star).WellFormed bitmap2BPP row.size row.size
  across : 0 ≤ row.left ∧ row.left + 5 * row.step ≤ vfdWidth
  down : 0 ≤ row.top ∧ row.top + row.size ≤ vfdHeight
  mark : (0 ≤ row.markLeft ∧ row.markLeft < row.left) ∧ 0 ≤ row.markTop ∧ row.markTop < vfdHeight
  tip : ∀ star, row.pixel star (row.size / 2) 0 = 3 ↔ star ≠ .none
  arm : ∀ star, row.pixel star (row.size - 1) (row.size / 4) = 3 ↔ star = .whole

theorem wellFormed_2BPP {bitmap : Bitmap} {width height : Int}
    (hformat : bitmap.byte 0 = some bitmap2BPP) (hwidth : bitmap.size 1 = some width)
    (hheight : bitmap.size 3 = some height) (hspare : width % 4 ≠ 0)
    (hrows : height * ((width - 1) / 4 + 1) ≤ (bitmap.drop 5).length) :
    bitmap.WellFormed bitmap2BPP width height where
  format_eq := hformat
  width_eq := hwidth
  height_eq := hheight
  rows1BPP h := absurd h (by decide)
  rows2BPP _ := hrows
  spare2BPP _ h := absurd h hspare
  rows4BPP h := absurd h (by decide)

theorem ok_large : largeStars.Ok where
  size := by decide
  wellFormed star := by
    cases star <;> exact wellFormed_2BPP rfl rfl rfl (by decide) (by decide)
  across := by decide
  down := by decide
  mark := by decide
  tip star := by cases star <;> decide
  arm star := by cases star <;> decide

theorem ok_small : smallStars.Ok where
  size := by decide
  wellFormed star := by
    cases star <;> exact wellFormed_2BPP rfl rfl rfl (by decide) (by decide)
  across := by decide
  down := by decide
  mark := by decide
  tip star := by cases star <;> decide
  arm star := by cases star <;> decide

variable {row : StarRow} {star : Star} {i j : Nat} {x y : Int} {view : View}

theorem layer_draw (hrow : row.Ok) (star : Star) (i : Nat) :
    (row.draw star i).layer = Picture.within
      (rect (row.left + i * row.step) row.top (row.left + i * row.step + row.size)
        (row.top + row.size))
      ((row.bitmap star).picture (row.left + i * row.step) row.top 0 0 none false) := by
  have hwidth := (hrow.wellFormed star).width_eq
  have hheight := (hrow.wellFormed star).height_eq
  show Picture.within (rect _ _ (_ + Extent.wanted (((row.bitmap star).size 1).getD 0) ⟨_, 0, -1⟩)
    (_ + Extent.wanted (((row.bitmap star).size 3).getD 0) ⟨_, 0, -1⟩)) _ = _
  rw [hwidth, hheight]
  rfl

/-- All of a star is drawn, its black points too. -/
theorem pixel_eq (row : StarRow) (star : Star) (x y : Int) :
    (row.bitmap star).pixel bitmap2BPP row.size none false x y = some (row.pixel star x y) := by
  have hsome : ∃ shade, (row.bitmap star).pixel bitmap2BPP row.size none false x y = some shade := by
    rw [Bitmap.pixel, if_neg (by decide), if_pos rfl, pixel2BPP]
    exact ⟨_, if_pos (.inr rfl)⟩
  obtain ⟨shade, hshade⟩ := hsome
  rw [pixel, hshade]
  rfl

/-- A star has its own pixels. -/
theorem layer_point (hrow : row.Ok) (hx : 0 ≤ x ∧ x < row.size) (hy : 0 ≤ y ∧ y < row.size) :
    (row.draw star i).layer (row.point i x y) = some (row.pixel star x y) := by
  have hmem : row.point i x y ∈ rect (row.left + i * row.step) row.top
      (row.left + i * row.step + row.size) (row.top + row.size) := by
    rw [mem_rect, point]
    omega
  have hformat := (hrow.wellFormed star).format_eq
  have hwidth := (hrow.wellFormed star).width_eq
  have hx' : 0 + (row.left + i * row.step + x) - (row.left + i * row.step) = x := by omega
  have hy' : 0 + (row.top + y) - row.top = y := by omega
  rw [layer_draw hrow, Picture.within_of_mem hmem, Bitmap.picture, hformat, hwidth, point]
  simp only [Option.getD_some, hx', hy', pixel_eq]

/-- It has none of the others. -/
theorem layer_other (hrow : row.Ok) (hne : i ≠ j) (hx : 0 ≤ x ∧ x < row.size) :
    (row.draw star j).layer (row.point i x y) = none := by
  have hsize := hrow.size
  rw [layer_draw hrow]
  refine Picture.within_of_notMem fun hmem => ?_
  have hmem := (mem_rect.mp hmem).1
  simp only [point] at hmem
  have hstep : 0 ≤ row.step := by omega
  obtain hlt | hgt := Nat.lt_or_gt_of_ne hne
  · have hapart := Int.mul_le_mul_of_nonneg_right (show (i : Int) + 1 ≤ j by omega) hstep
    rw [Int.add_mul, Int.one_mul] at hapart
    omega
  · have hapart := Int.mul_le_mul_of_nonneg_right (show (j : Int) + 1 ≤ i by omega) hstep
    rw [Int.add_mul, Int.one_mul] at hapart
    omega

/-- What is to the left of the stars is left alone. -/
theorem layer_left {q : Point} (hrow : row.Ok) (hq : q.1 < row.left) :
    (row.draw star i).layer q = none := by
  rw [layer_draw hrow]
  refine Picture.within_of_notMem fun hmem => ?_
  have hmem := (mem_rect.mp hmem).1
  have hsize := hrow.size
  have hplace : 0 ≤ (i : Int) * row.step := Int.mul_nonneg (by omega) (by omega)
  omega

/-! ### All stars -/

theorem foldl_left {q : Point} (hrow : row.Ok) (hq : q.1 < row.left) (stars : Nat → Star) (n : Nat) :
    (((List.range n).map fun i => row.draw (stars i) i).foldl paint view).2 q = view.2 q := by
  induction n with
  | zero => rfl
  | succ n ih =>
      rw [List.range_succ, List.map_append, List.foldl_append, List.map_singleton, List.foldl_cons,
        List.foldl_nil, paint_none (layer_left hrow hq), ih]

theorem foldl_view (stars : Nat → Star) (n : Nat) :
    (((List.range n).map fun i => row.draw (stars i) i).foldl paint view).1 = view.1 := by
  induction n with
  | zero => rfl
  | succ n ih =>
      rw [List.range_succ, List.map_append, List.foldl_append]
      exact ih

theorem foldl_point (hrow : row.Ok) (hx : 0 ≤ x ∧ x < row.size) (hy : 0 ≤ y ∧ y < row.size)
    (hview : row.point i x y ∈ view.1) (stars : Nat → Star) {n : Nat} (hi : i < n) :
    (((List.range n).map fun i => row.draw (stars i) i).foldl paint view).2 (row.point i x y) =
      row.pixel (stars i) x y := by
  induction n with
  | zero => exact absurd hi (Nat.not_lt_zero i)
  | succ n ih =>
      rw [List.range_succ, List.map_append, List.foldl_append, List.map_singleton, List.foldl_cons,
        List.foldl_nil]
      by_cases hlast : i = n
      · subst hlast
        exact paint_some (by rwa [foldl_view]) (layer_point hrow hx hy)
      · rw [paint_none (layer_other hrow hlast hx)]
        exact ih (by omega)

theorem calls_ok (hrow : row.Ok) (rating : Int) : ∀ call ∈ row.calls rating, call.Ok := by
  obtain ⟨n, -, hcalls⟩ := calls_eq row rating
  rw [hcalls]
  intro call hcall
  obtain rfl | hcall := List.mem_cons.mp hcall
  · trivial
  · obtain ⟨i, -, rfl⟩ := List.mem_map.mp hcall
    have hinside : ∀ dest : Int, Extent.Inside row.size ⟨dest, 0, -1⟩ := fun dest =>
      ⟨Int.le_refl 0, Int.le_of_eq (Int.zero_add _)⟩
    exact ⟨bitmap2BPP, row.size, row.size, hrow.wellFormed _, hinside _, hinside _⟩

theorem point_valid (hrow : row.Ok) (hi : i < 5) (hx : 0 ≤ x ∧ x < row.size)
    (hy : 0 ≤ y ∧ y < row.size) : row.point i x y ∈ screen.valid := by
  obtain ⟨hsize, -, hacross, hdown, -, -, -⟩ := hrow
  have hplace : 0 ≤ (i : Int) * row.step := Int.mul_nonneg (by omega) (by omega)
  have hright := Int.mul_le_mul_of_nonneg_right (show (i : Int) + 1 ≤ 5 by omega)
    (show 0 ≤ row.step by omega)
  rw [Int.add_mul, Int.one_mul] at hright
  simp only [vfdWidth, vfdHeight] at hacross hdown
  rw [mem_screen, point]
  omega

theorem mark_mem (row : StarRow) :
    (row.markLeft, row.markTop) ∈ textShape 2 ['?'] row.markLeft row.markTop := by
  have hentry : (getFontInfo 2).entry '?' = (227, 3) := rfl
  have hheight : (getFontInfo 2).height = 6 := rfl
  have hbit : bit1BPP ((getFontInfo 2).bitmap.drop 5) (getFontInfo 2).width 227 0 = true := by
    decide +kernel
  refine .inl ⟨by decide, ?_, ?_⟩
  · rw [hentry, hheight, mem_rect]
    simp only
    omega
  · have hx : 227 + row.markLeft - row.markLeft = 227 := by omega
    have hy : row.markTop - row.markTop = 0 := by omega
    simp only [hentry, hx, hy]
    exact hbit

/-- What is to be seen of a rating, whatever was on the display. -/
theorem run_calls_rating (hrow : row.Ok) (rating : Int) (buffer : Buffer) :
    ∃ s, run Call.step (Clip.initial, buffer) (row.calls rating) = some s ∧
      Vfd.pixel s.2 (row.markLeft, row.markTop) = (if rating = -1 then 3 else 2) ∧
      ∀ i < 5, ∀ x y, 0 ≤ x ∧ x < row.size → 0 ≤ y ∧ y < row.size →
        Vfd.pixel s.2 (row.point i x y) = row.pixel (starAt rating i) x y := by
  obtain ⟨s, hrun, hshows⟩ := run_calls (calls_ok hrow rating) (shows_initial buffer)
  obtain ⟨n, hn, hcalls⟩ := calls_eq row rating
  rw [hcalls, List.foldl_cons] at hshows
  refine ⟨s, hrun, ?_, fun i hi x y hx hy => ?_⟩
  · have hmark := hrow.mark
    have hacross := hrow.across
    have hvalid : (row.markLeft, row.markTop) ∈ screen.valid := by
      have hsize := hrow.size
      simp only [vfdWidth, vfdHeight] at hmark hacross
      exact mem_screen.mpr ⟨⟨hmark.1.1, by omega⟩, hmark.2⟩
    rw [hshows.picture _ hvalid, foldl_left hrow hmark.1.2]
    exact paint_some hvalid (Picture.fill_of_mem (mark_mem row))
  · have hvalid := point_valid hrow hi hx hy
    rw [hshows.picture _ hvalid]
    exact foldl_point hrow hx hy hvalid _ (by omega)

theorem sum_halves {rating : Int} (h : 0 ≤ rating ∧ rating ≤ 10) :
    ((List.range 5).map fun i : Nat => (if 2 * (i : Int) + 1 ≤ rating then 1 else 0) +
      (if 2 * (i : Int) + 2 ≤ rating then 1 else 0)).sum = rating := by
  obtain ⟨hlow, hhigh⟩ := h
  interval_cases rating <;> rfl

/-- A rating is read as it is. -/
theorem read_shown (hrow : row.Ok) {rating : Int} (hrating : -1 ≤ rating ∧ rating ≤ 10)
    {picture : Point → Shade}
    (hmark : picture (row.markLeft, row.markTop) = if rating = -1 then 3 else 2)
    (hstars : ∀ i < 5, ∀ x y, 0 ≤ x ∧ x < row.size → 0 ≤ y ∧ y < row.size →
      picture (row.point i x y) = row.pixel (starAt rating i) x y) :
    row.read picture = rating := by
  have hsize := hrow.size
  have htip : ∀ i < 5, picture (row.point i (row.size / 2) 0) = 3 ↔ 2 * (i : Int) + 1 ≤ rating := by
    intro i hi
    rw [hstars i hi _ _ (by omega) (by omega), hrow.tip, starAt]
    split
    · simp; omega
    · split
      · simp; omega
      · simp; omega
  have harm : ∀ i < 5, picture (row.point i (row.size - 1) (row.size / 4)) = 3 ↔
      2 * (i : Int) + 2 ≤ rating := by
    intro i hi
    rw [hstars i hi _ _ (by omega) (by omega), hrow.arm, starAt]
    split
    · simp; omega
    · split
      · simp; omega
      · simp; omega
  unfold read
  rw [hmark]
  by_cases hnone : rating = -1
  · rw [if_pos hnone, if_pos rfl, hnone]
  · rw [if_neg hnone, if_neg (by decide)]
    refine Eq.trans (congrArg List.sum (List.map_congr_left fun i hi => ?_))
      (sum_halves (by omega))
    have hi := List.mem_range.mp hi
    rw [if_congr (htip i hi) rfl rfl, if_congr (harm i hi) rfl rfl]

end StarRow

/-! ## What is rated is shown -/

theorem adjustedRating_bounds (manualRating : Int) (relative : Bool) (amount : Int) :
    -1 ≤ adjustedRating manualRating relative amount ∧
      adjustedRating manualRating relative amount ≤ 10 := by
  unfold adjustedRating
  simp only
  split <;> split <;> split <;> omega

/-- The stars of a song, as one of the screens draws them. -/
def drawStars (row : StarRow) (song : SongInfo) : List Call := row.calls song.stat.manualRating

theorem saveSong_manualRating (config : Config) {s : Store} {i : Nat} {song : SongInfo}
    (h : s.databaseInfo.songs[i]? = some song) :
    ∃ saved, (saveSong config s i).databaseInfo.songs[i]? = some saved ∧
      saved.stat.manualRating = song.stat.manualRating := by
  obtain hsame | ⟨song', hsong', -, -, hsave⟩ := saveSong_cases config s i
  · rw [hsame]
    exact ⟨song, h, rfl⟩
  · obtain rfl := Option.some.inj (h.symm.trans hsong')
    rw [hsave]
    exact ⟨_, setSong_self h, rfl⟩

/-- **What is rated is shown**: after a key that rates the song that is played, both screens show the rating
that it has now, and it can be read from their pixels, whatever was on the display and whatever rating the song
had. -/
theorem rated_shown {dbReadonly : Bool} {device : Device} {i : Nat} {song : SongInfo}
    (hplaying : device.songs.playing = some i)
    (hsong : device.songs.store.databaseInfo.songs[i]? = some song) (relative : Bool) (amount : Int) :
    ∃ device' song', device.act dbReadonly (.ratePlaying relative amount) = some device' ∧
      device'.songs.store.databaseInfo.songs[i]? = some song' ∧
      ∀ row ∈ [largeStars, smallStars], ∀ buffer, ∃ s,
        run Call.step (Clip.initial, buffer) (drawStars row song') = some s ∧
        row.read (pixel s.2) = adjustedRating song.stat.manualRating relative amount := by
  have hstore : ∃ store, Squash.songRatingAdjust (device.config dbReadonly) device.songs.store (some i)
      relative amount = some store := by
    rw [Squash.songRatingAdjust, hsong]
    exact ⟨_, rfl⟩
  obtain ⟨store, hstore⟩ := hstore
  obtain ⟨old, db, hold, hdb, hsaved⟩ := songRatingAdjust_inv hstore
  obtain rfl := Option.some.inj (hsong.symm.trans hold)
  have hkept : ({ device.songs.store with databaseInfo := db } : Store).databaseInfo.songs[i]? =
      some song := hdb.songs ▸ hsong
  have hset : (({ device.songs.store with databaseInfo := db } : Store).setSong i
      { song with stat := song.stat.adjust relative amount }).databaseInfo.songs[i]? = some _ :=
    setSong_self hkept
  obtain ⟨song', hsong', hrating⟩ := saveSong_manualRating (device.config dbReadonly) hset
  rw [← hsaved] at hsong'
  refine ⟨{ device with songs := { device.songs with store } }, song', ?_, hsong',
    fun row hrow buffer => ?_⟩
  · rw [← hplaying] at hstore
    rw [Device.act, hstore]
    rfl
  · have hok : row.Ok := by
      obtain rfl | hrow := List.mem_cons.mp hrow
      · exact StarRow.ok_large
      · obtain rfl := List.mem_singleton.mp hrow
        exact StarRow.ok_small
    obtain ⟨s, hrun, hmark, hstars⟩ := StarRow.run_calls_rating hok song'.stat.manualRating buffer
    refine ⟨s, hrun, ?_⟩
    rw [hrating] at hmark hstars
    exact StarRow.read_shown hok (adjustedRating_bounds _ relative amount) hmark hstars

/-- The key for ten, when a song without a rating is played. -/
theorem rated_shown_ten : ∃ (device : Device) (song : SongInfo), song.stat.manualRating = -1 ∧
    ∃ device' song', device.act false (.ratePlaying false 10) = some device' ∧
      device'.songs.store.databaseInfo.songs[0]? = some song' ∧
      ∀ row ∈ [largeStars, smallStars], ∀ buffer, ∃ s,
        run Call.step (Clip.initial, buffer) (drawStars row song') = some s ∧
        row.read (pixel s.2) = 10 :=
  ⟨⟨⟨.play, false, 0, 100, 1 / 2⟩, 100,
    ⟨⟨⟨[loadFile (fun _ => []) ['a']], true, 0, 0, 0, 0, 0, 0⟩, fun _ => none, []⟩,
      ⟨[], none, none, 0, 0⟩, ⟨[], none, none, 0, 0⟩, some 0, .nowPlaying⟩⟩,
    loadFile (fun _ => []) ['a'], rfl, rated_shown rfl rfl false 10⟩

end Squash.Empeg
