import Squash.Display.StringEmpeg
import Squash.Vfd.Bitmaps

/-!
# Text

A font is a bitmap that has its glyphs beside each other, and a table that says where each of them
starts and how wide it is. Text is drawn glyph by glyph, one pixel between them, and what has no glyph
is a pixel wide.

The tables never lead outside of their bitmaps (`font_ok`), so that `draws_text` holds for every text:
what is drawn are the glyphs at the places that `vfdlib_getTextWidth` gives (`drawText_draws`), as far
as they are in the clip area. -/

namespace Squash.Vfd

open Picture

/-! ## The fonts -/

def tinyFontBitmap : Bitmap :=
  [0, 0, 180, 0, 3, 0xF9, 0xEF, 0xF5, 0xFB, 0x6F, 0x7F, 0xB3, 0xF6, 0xD6, 0xDC, 0xB6,
    0xD5, 0xDA, 0xF6, 0x4E, 0xD5, 0x40, 0x35, 0xEE, 0xDC, 0xD1, 0x7C, 0x80, 0xFE, 0x5D, 0xAF, 0xAD,
    0x56, 0xDE, 0xB2, 0x56, 0xD5, 0x75, 0x52, 0x7D, 0x6F, 0xE0, 0x9D, 0x2E, 0xEE, 0x42, 0x17, 0x72,
    0x68, 0xD7, 0x50, 0xBD, 0xEF, 0x3D, 0xEB, 0xD6, 0xFB, 0xEE, 0x4D, 0x6E, 0xA6, 0xBB, 0xC6, 0x6F,
    0x41, 0x28, 0xD5, 0x51, 0x9D, 0xE4, 0xF9, 0xC6, 0x7C, 0x20]

def tinyFontInfo : List (Int × Int) :=
  [(106, 1), (107, 3), (0, 0), (0, 0), (110, 5), (115, 3), (118, 1), (119, 2), (121, 2),
    (123, 5), (128, 3), (131, 2), (133, 2), (135, 1), (136, 3), (79, 3), (82, 3), (85, 3),
    (88, 3), (91, 3), (94, 3), (97, 2), (99, 2), (101, 3), (104, 2), (139, 1), (140, 2),
    (142, 2), (144, 2), (146, 2), (148, 3), (151, 4), (0, 3), (3, 3), (6, 3), (9, 3),
    (12, 3), (15, 3), (18, 3), (21, 3), (24, 1), (25, 3), (28, 3), (31, 2), (33, 5),
    (38, 3), (41, 3), (44, 2), (46, 4), (50, 3), (53, 3), (56, 3), (59, 3), (62, 3),
    (65, 5), (70, 3), (73, 3), (76, 3), (155, 2), (157, 3), (160, 2), (162, 3), (165, 2),
    (167, 1), (0, 3), (3, 3), (6, 3), (9, 3), (12, 3), (15, 3), (18, 3), (21, 3),
    (24, 1), (25, 3), (28, 3), (31, 2), (33, 5), (38, 3), (41, 3), (44, 2), (46, 4),
    (50, 3), (53, 3), (56, 3), (59, 3), (62, 3), (65, 5), (70, 3), (73, 3), (76, 3),
    (168, 3), (171, 1), (172, 3), (175, 5)]

def smallFontBitmap : Bitmap :=
  [0, 0, 252, 0, 5, 0x59, 0xDE, 0xAF, 0xB7, 0xB2, 0xCB, 0x7E, 0xDA, 0xDB, 0x88, 0x10,
    0x92, 0xC8, 0x00, 0x00, 0x08, 0x00, 0x00, 0x3A, 0xBB, 0xBF, 0xFE, 0xA9, 0xC9, 0xD8, 0x00, 0x01,
    0x27, 0x0C, 0x60, 0xBE, 0x00, 0xBE, 0xBD, 0x3D, 0xD5, 0x6D, 0xB6, 0xCA, 0xDA, 0xAE, 0xBC, 0xBD,
    0x78, 0xDB, 0xD9, 0x7B, 0x7E, 0xDA, 0xDB, 0xAE, 0x7B, 0x43, 0xFC, 0x7F, 0x12, 0xA6, 0xA0, 0x3A,
    0xD1, 0x6A, 0x28, 0xAA, 0xD0, 0xF6, 0xB7, 0x6D, 0xB5, 0x6D, 0xD7, 0x2A, 0xAA, 0xD5, 0x5B, 0x5D,
    0xF6, 0xEA, 0xB6, 0xFA, 0x4A, 0xDA, 0xA6, 0xAA, 0x9E, 0xF5, 0x48, 0x7D, 0xA7, 0x25, 0x76, 0x44,
    0x0A, 0xD9, 0x34, 0x49, 0xB0, 0xBD, 0xDC, 0xEE, 0xBD, 0x6A, 0x8E, 0xE9, 0xAF, 0x55, 0xFC, 0xB7,
    0x37, 0x56, 0xB5, 0x4E, 0xC5, 0xAF, 0x52, 0xFF, 0xF3, 0x75, 0xF4, 0x2B, 0xCA, 0x26, 0xA9, 0x9A,
    0xD0, 0xB8, 0xA0, 0x2A, 0x00, 0x00, 0x00, 0x00, 0x00, 0x00, 0x00, 0x00, 0x00, 0x00, 0x00, 0x00,
    0x40, 0x00, 0x00, 0x48, 0x00, 0x00, 0x0C, 0x00, 0x00, 0x00, 0x00, 0x01, 0x00, 0x18, 0x08, 0x09,
    0x22, 0x7C, 0x63, 0x3E, 0x00]

def smallFontInfo : List (Int × Int) :=
  [(173, 1), (174, 3), (177, 5), (182, 3), (185, 4), (189, 4), (193, 1), (194, 2), (196, 2),
    (198, 3), (201, 3), (204, 1), (205, 2), (207, 1), (208, 3), (146, 3), (149, 3), (152, 2),
    (154, 2), (156, 3), (159, 2), (161, 3), (164, 3), (167, 3), (170, 3), (211, 1), (212, 1),
    (213, 3), (216, 2), (218, 3), (221, 3), (224, 4), (0, 3), (3, 3), (6, 2), (8, 3),
    (11, 2), (13, 2), (15, 3), (18, 3), (21, 1), (22, 2), (24, 3), (27, 2), (29, 5),
    (34, 3), (37, 3), (40, 3), (43, 3), (46, 3), (49, 2), (51, 3), (54, 3), (57, 3),
    (60, 5), (65, 3), (68, 3), (71, 2), (228, 2), (230, 3), (233, 2), (235, 3), (238, 2),
    (240, 1), (73, 3), (76, 3), (79, 2), (81, 3), (84, 3), (87, 2), (89, 2), (91, 3),
    (94, 1), (95, 2), (97, 3), (100, 2), (102, 5), (107, 3), (110, 3), (113, 2), (115, 3),
    (118, 2), (120, 3), (123, 3), (126, 3), (129, 3), (132, 5), (137, 3), (140, 3), (143, 3),
    (241, 3), (244, 1), (245, 3), (248, 4)]

def mediumFontBitmap : Bitmap :=
  [0, 1, 10, 0, 6, 0x59, 0xDE, 0xAD, 0xB7, 0xB2, 0xCB, 0x7E, 0xDA, 0xDB, 0x88, 0x10,
    0x89, 0x64, 0x00, 0x00, 0x04, 0x00, 0x00, 0x12, 0xAB, 0xBD, 0x2D, 0x52, 0x04, 0x99, 0x50, 0x00,
    0x04, 0x98, 0xCC, 0x30, 0x13, 0xE0, 0x00, 0xB6, 0xB5, 0x2D, 0xB5, 0x6D, 0xB6, 0xCA, 0xDA, 0xDA,
    0xBC, 0xB7, 0x3C, 0x6D, 0xEC, 0xB3, 0x7F, 0x6D, 0x6D, 0xEE, 0x5B, 0x46, 0xDD, 0xFF, 0x9A, 0xA4,
    0xE4, 0x01, 0xAB, 0x45, 0x2A, 0x12, 0x0A, 0xA6, 0x80, 0xFA, 0xBF, 0x3D, 0xD5, 0x6D, 0xD7, 0x2A,
    0xDA, 0xAF, 0x5B, 0x5B, 0xDB, 0x75, 0x5B, 0x6D, 0x55, 0x6D, 0x55, 0x6A, 0x6E, 0xF9, 0x38, 0x56,
    0x24, 0x43, 0xFE, 0x62, 0x10, 0x3A, 0xD9, 0x15, 0x04, 0x9B, 0x00, 0xB6, 0xB5, 0x6D, 0xB5, 0x6D,
    0x96, 0xAA, 0xDA, 0xD5, 0x5B, 0x5D, 0x7B, 0x6D, 0x5B, 0x77, 0x4D, 0x55, 0x6B, 0xAA, 0x92, 0xDA,
    0x90, 0xFB, 0x4A, 0x42, 0xE4, 0x04, 0x0B, 0x53, 0x58, 0x98, 0x82, 0xA0, 0x00, 0xB9, 0xDC, 0xEE,
    0xBD, 0x6A, 0x8E, 0xE9, 0xAF, 0x55, 0xFC, 0xB7, 0x1B, 0x6B, 0x5A, 0xA1, 0xDA, 0xD7, 0xA9, 0xD7,
    0xE3, 0x3B, 0xE8, 0x57, 0x9F, 0x25, 0x50, 0x98, 0xA4, 0x81, 0xE8, 0x50, 0x03, 0xE0, 0x00, 0x00,
    0x00, 0x00, 0x00, 0x00, 0x00, 0x00, 0x00, 0x00, 0x00, 0x00, 0x60, 0x80, 0x00, 0x21, 0x00, 0x00,
    0x06, 0x00, 0x00, 0x00, 0x00, 0x02, 0x00, 0x18, 0x01, 0x00, 0x40, 0x10, 0xCC, 0x30, 0x60, 0x80,
    0x00]

def mediumFontInfo : List (Int × Int) :=
  [(172, 1), (173, 3), (176, 5), (181, 3), (184, 4), (188, 4), (192, 1), (193, 3), (196, 3),
    (199, 5), (204, 3), (207, 2), (209, 2), (211, 1), (212, 4), (146, 3), (149, 3), (152, 2),
    (154, 2), (156, 3), (159, 2), (161, 3), (164, 2), (166, 3), (169, 3), (216, 1), (217, 2),
    (219, 3), (222, 2), (224, 3), (227, 3), (230, 6), (0, 3), (3, 3), (6, 2), (8, 3),
    (11, 2), (13, 2), (15, 3), (18, 3), (21, 1), (22, 2), (24, 3), (27, 2), (29, 5),
    (34, 3), (37, 3), (40, 3), (43, 3), (46, 3), (49, 2), (51, 3), (54, 3), (57, 3),
    (60, 5), (65, 3), (68, 3), (71, 2), (236, 2), (238, 4), (242, 2), (244, 5), (249, 2),
    (251, 2), (73, 3), (76, 3), (79, 2), (81, 3), (84, 3), (87, 2), (89, 3), (92, 3),
    (95, 1), (96, 2), (98, 3), (101, 2), (103, 5), (108, 3), (111, 3), (114, 3), (117, 4),
    (121, 2), (123, 2), (125, 2), (127, 3), (130, 3), (133, 5), (138, 3), (141, 3), (144, 2),
    (253, 3), (256, 1), (257, 3), (260, 5)]

/-- A font: for each glyph from `!` to `~` its offset and its width, and the bitmap. -/
structure Font where
  info : List (Int × Int)
  bitmap : Bitmap

def vfdfontTiny : Int := 0

def vfdfontSmall : Int := 1

/-- Every other number is `VFDFONT_MEDIUM`. -/
def getFontInfo (font : Int) : Font :=
  if font = vfdfontTiny then ⟨tinyFontInfo, tinyFontBitmap⟩
  else if font = vfdfontSmall then ⟨smallFontInfo, smallFontBitmap⟩
  else ⟨mediumFontInfo, mediumFontBitmap⟩

def hasGlyph (c : Char) : Prop := '!' ≤ c ∧ c ≤ '~'

instance (c : Char) : Decidable (hasGlyph c) := inferInstanceAs (Decidable (_ ∧ _))

/-- `fInfo[*string-'!']`. -/
def Font.entry (font : Font) (c : Char) : Int × Int := font.info.getD (c.toNat - '!'.toNat) (0, 0)

/-- What is added to `xLeft` for a character. -/
def Font.advance (font : Font) (c : Char) : Int :=
  if hasGlyph c then (font.entry c).2 + 1 else 1

/-- What the drawing of glyphs relies on. -/
structure Font.Ok (font : Font) (width height : Int) : Prop where
  wellFormed : font.bitmap.WellFormed bitmap1BPP width height
  height_pos : 0 < height
  glyphs : ∀ entry ∈ font.info, 0 ≤ entry.1 ∧ 0 ≤ entry.2 ∧ entry.1 + entry.2 ≤ width

def Font.width (font : Font) : Int := (font.bitmap.size 1).getD 0

def Font.height (font : Font) : Int := (font.bitmap.size 3).getD 0

theorem wellFormed_1BPP {bitmap : Bitmap} {width height : Int}
    (hformat : bitmap.byte 0 = some bitmap1BPP) (hwidth : bitmap.size 1 = some width)
    (hheight : bitmap.size 3 = some height)
    (hrows : height * ((width - 1) / 8 + 1) ≤ (bitmap.drop 5).length) :
    bitmap.WellFormed bitmap1BPP width height where
  format_eq := hformat
  width_eq := hwidth
  height_eq := hheight
  rows1BPP _ := hrows
  rows2BPP h := absurd h (by decide)
  spare2BPP h := absurd h (by decide)
  rows4BPP h := absurd h (by decide)

/-- **The tables of the three fonts do not lead outside of their bitmaps.** -/
theorem font_ok (font : Int) :
    (getFontInfo font).Ok (getFontInfo font).width (getFontInfo font).height := by
  unfold getFontInfo
  split
  · exact ⟨wellFormed_1BPP rfl rfl rfl (by decide +kernel), by decide, by decide +kernel⟩
  · split
    · exact ⟨wellFormed_1BPP rfl rfl rfl (by decide +kernel), by decide, by decide +kernel⟩
    · exact ⟨wellFormed_1BPP rfl rfl rfl (by decide +kernel), by decide, by decide +kernel⟩

/-! ## Drawing -/

def Font.drawGlyph (font : Font) (clip : Clip) (buffer : Buffer) (c : Char) (xLeft yTop : Int)
    (shade : Shade) : Option Buffer :=
  if hasGlyph c ∧ (font.entry c).2 > 0 then
    vfdlibDrawBitmap clip buffer font.bitmap xLeft yTop (font.entry c).1 0 (font.entry c).2 (-1)
      (some shade) true
  else some buffer

def vfdlibDrawText (clip : Clip) (buffer : Buffer) (string : List Char) (xLeft yTop font : Int)
    (shade : Shade) : Option Buffer :=
  match string with
  | [] => some buffer
  | c :: string =>
    if xLeft < clip.xRight then
      ((getFontInfo font).drawGlyph clip buffer c xLeft yTop shade).bind fun buffer =>
        vfdlibDrawText clip buffer string (xLeft + (getFontInfo font).advance c) yTop font shade
    else some buffer

def vfdlibGetTextHeight (font : Int) : Int := (getFontInfo font).height

def vfdlibGetTextWidth (string : List Char) (font : Int) : Int :=
  match string with
  | [] => 0
  | c :: string => (getFontInfo font).advance c + vfdlibGetTextWidth string font

variable {font : Font} {clip : Clip} {buffer : Buffer} {c : Char} {xLeft yTop width height : Int}
  {shade : Shade}

/-- The points of a character, if it is drawn with the upper left corner at `xLeft`, `yTop`. -/
def Font.glyph (font : Font) (c : Char) (xLeft yTop : Int) : Set Point :=
  {q | hasGlyph c ∧ q ∈ rect xLeft yTop (xLeft + (font.entry c).2) (yTop + font.height) ∧
    bit1BPP (font.bitmap.drop 5) font.width ((font.entry c).1 + q.1 - xLeft) (q.2 - yTop) = true}

theorem entry_ok (h : font.Ok width height) (c : Char) :
    0 ≤ (font.entry c).1 ∧ 0 ≤ (font.entry c).2 ∧ (font.entry c).1 + (font.entry c).2 ≤ width ∨
      font.entry c = (0, 0) := by
  rw [Font.entry, List.getD_eq_getElem?_getD]
  cases hentry : font.info[c.toNat - '!'.toNat]? with
  | none => exact .inr rfl
  | some entry => exact .inl (h.glyphs entry (List.mem_of_getElem? hentry))

theorem draws_glyph (hclip : clip.Valid) (h : font.Ok font.width font.height) :
    Draws screen (font.drawGlyph clip buffer c xLeft yTop shade) buffer
      (fill (font.glyph c xLeft yTop ∩ clip.area) shade) := by
  unfold Font.drawGlyph
  split
  · next hglyph =>
      obtain ⟨hglyph, hwidth⟩ := hglyph
      obtain ⟨hoffset, -, hright⟩ | hentry := entry_ok h c
      · have hwanted : Extent.wanted font.width ⟨xLeft, (font.entry c).1, (font.entry c).2⟩ =
            (font.entry c).2 := if_neg (by simp only; omega)
        have hheight : Extent.wanted font.height ⟨yTop, 0, -1⟩ = font.height := rfl
        refine (draws_bitmap hclip h.wellFormed ⟨hoffset, by rw [hwanted]; exact hright⟩
          ⟨Int.le_refl 0, by rw [hheight]; simp⟩).congr ?_
        intro q _
        rw [hwanted, hheight]
        by_cases hq : q ∈ font.glyph c xLeft yTop ∩ clip.area
        · rw [fill_of_mem hq]
          obtain ⟨⟨-, hrect, hbit⟩, harea⟩ := hq
          rw [within_of_mem (Set.mem_inter hrect harea)]
          simp only [Bitmap.pixel, if_pos, pixel1BPP, Int.zero_add, hbit]
          rfl
        · rw [fill_of_notMem hq]
          by_cases hcut : q ∈ rect xLeft yTop (xLeft + (font.entry c).2) (yTop + font.height) ∩
              clip.area
          · have hbit : ¬ bit1BPP (font.bitmap.drop 5) font.width ((font.entry c).1 + q.1 - xLeft)
                (q.2 - yTop) = true := fun hbit => hq ⟨⟨hglyph, hcut.1, hbit⟩, hcut.2⟩
            rw [within_of_mem hcut]
            simp only [Bitmap.pixel, if_pos, pixel1BPP, Int.zero_add, hbit]
            rfl
          · rw [within_of_notMem hcut]
      · rw [hentry] at hwidth
        exact absurd hwidth (Int.lt_irrefl 0)
  · next hnone =>
      have hempty : font.glyph c xLeft yTop = ∅ := by
        ext q
        simp only [Font.glyph, mem_rect, Set.mem_ofPred_eq, Set.mem_empty_iff_false, iff_false]
        rintro ⟨hglyph, hrect, -⟩
        exact hnone ⟨hglyph, by omega⟩
      rw [hempty, Set.empty_inter]
      exact .nothing

/-- The points of a text. -/
def textShape (font : Int) (string : List Char) (xLeft yTop : Int) : Set Point :=
  match string with
  | [] => ∅
  | c :: string => (getFontInfo font).glyph c xLeft yTop ∪
      textShape font string (xLeft + (getFontInfo font).advance c) yTop

theorem advance_pos (font : Int) (c : Char) : 1 ≤ (getFontInfo font).advance c := by
  unfold Font.advance
  split
  · obtain ⟨-, h, -⟩ | h := entry_ok (font_ok font) c
    · omega
    · rw [h]
      decide
  · exact Int.le_refl 1

theorem glyph_right {q : Point} (h : q ∈ font.glyph c xLeft yTop) : xLeft ≤ q.1 := h.2.1.1.1

theorem textShape_right {font : Int} {string : List Char} {xLeft yTop : Int} {q : Point}
    (h : q ∈ textShape font string xLeft yTop) : xLeft ≤ q.1 := by
  induction string generalizing xLeft with
  | nil => exact absurd h (Set.notMem_empty q)
  | cons c string ih =>
      obtain h | h := h
      · exact glyph_right h
      · have hpos := advance_pos font c
        have hright := ih h
        omega

theorem draws_text (hclip : clip.Valid) (string : List Char) (xLeft yTop font : Int) :
    Draws screen (vfdlibDrawText clip buffer string xLeft yTop font shade) buffer
      (fill (textShape font string xLeft yTop ∩ clip.area) shade) := by
  induction string generalizing xLeft buffer with
  | nil =>
      rw [textShape, Set.empty_inter]
      exact .nothing
  | cons c string ih =>
      rw [vfdlibDrawText]
      split
      · rw [textShape, Set.union_inter_distrib_right]
        exact (draws_glyph hclip (font_ok font)).union fun buffer => ih _
      · next hright =>
          have hempty : textShape font (c :: string) xLeft yTop ∩ clip.area = ∅ := by
            ext q
            simp only [Set.mem_inter_iff, Set.mem_empty_iff_false, iff_false]
            rintro ⟨hshape, harea⟩
            have hshape := textShape_right hshape
            have harea := harea.1.2
            omega
          rw [hempty]
          exact .nothing

/-! ## Where the glyphs are -/

theorem textShape_iff {font : Int} {string : List Char} {xLeft yTop : Int} {q : Point} :
    q ∈ textShape font string xLeft yTop ↔
      ∃ pre c post, string = pre ++ c :: post ∧
        q ∈ (getFontInfo font).glyph c (xLeft + vfdlibGetTextWidth pre font) yTop := by
  induction string generalizing xLeft with
  | nil => simp [textShape]
  | cons d string ih =>
      simp only [textShape, Set.mem_union, ih]
      constructor
      · rintro (h | ⟨pre, c, post, rfl, h⟩)
        · exact ⟨[], d, string, rfl, by rwa [vfdlibGetTextWidth, Int.add_zero]⟩
        · exact ⟨d :: pre, c, post, rfl, by rwa [vfdlibGetTextWidth, ← Int.add_assoc]⟩
      · rintro ⟨pre, c, post, hstring, h⟩
        cases pre with
        | nil =>
            obtain ⟨rfl, rfl⟩ := List.cons_eq_cons.mp hstring
            rw [vfdlibGetTextWidth, Int.add_zero] at h
            exact .inl h
        | cons d' pre =>
            obtain ⟨rfl, hrest⟩ := List.cons_eq_cons.mp hstring
            rw [vfdlibGetTextWidth, ← Int.add_assoc] at h
            exact .inr ⟨pre, c, post, hrest, h⟩

theorem textShape_box {font : Int} {string : List Char} {xLeft yTop : Int} {q : Point}
    (h : q ∈ textShape font string xLeft yTop) :
    q ∈ rect xLeft yTop (xLeft + vfdlibGetTextWidth string font - 1)
      (yTop + vfdlibGetTextHeight font) := by
  induction string generalizing xLeft with
  | nil => exact absurd h (Set.notMem_empty q)
  | cons c string ih =>
      have hpos := advance_pos font c
      have hwidth : 0 ≤ vfdlibGetTextWidth string font := by
        clear ih h
        induction string with
        | nil => exact Int.le_refl 0
        | cons d string ih =>
            have hpos := advance_pos font d
            rw [vfdlibGetTextWidth]
            omega
      rw [vfdlibGetTextWidth]
      obtain ⟨hglyph, hrect, -⟩ | h := h
      · have hadvance : (getFontInfo font).advance c = ((getFontInfo font).entry c).2 + 1 :=
          if_pos hglyph
        have hrect := mem_rect.mp hrect
        exact mem_rect.mpr ⟨by omega, hrect.2⟩
      · have hrect := mem_rect.mp (ih h)
        exact mem_rect.mpr ⟨by omega, hrect.2⟩

/-- The width that the strings of the display are cut to is that of the medium font. -/
theorem vfdlibGetTextWidth_medium (string : List Char) :
    vfdlibGetTextWidth string 2 = Display.vfdlibGetTextWidth string := by
  have hwidths : mediumFontInfo.map Prod.snd = Display.mediumFontWidths := by decide +kernel
  induction string with
  | nil => rfl
  | cons c string ih =>
      rw [vfdlibGetTextWidth, Display.vfdlibGetTextWidth, ih]
      congr 1
      show (if hasGlyph c then (mediumFontInfo.getD (c.toNat - '!'.toNat) (0, 0)).2 + 1 else 1) = _
      rw [Display.charWidth, ← hwidths, List.getD_eq_getElem?_getD, List.getD_eq_getElem?_getD,
        List.getElem?_map]
      cases mediumFontInfo[c.toNat - '!'.toNat]? <;> rfl

/-- **Text is drawn glyph by glyph**: each character stands where the text before it ends, and nothing is
drawn outside of the width and the height that the text is said to have. -/
theorem drawText_draws (hclip : clip.Valid) (string : List Char) (xLeft yTop font : Int) :
    Draws screen (vfdlibDrawText clip buffer string xLeft yTop font shade) buffer
        (fill ({q | ∃ pre c post, string = pre ++ c :: post ∧
          q ∈ (getFontInfo font).glyph c (xLeft + vfdlibGetTextWidth pre font) yTop} ∩ clip.area)
          shade) ∧
      ∀ pre c post, string = pre ++ c :: post →
        (getFontInfo font).glyph c (xLeft + vfdlibGetTextWidth pre font) yTop ⊆
          rect xLeft yTop (xLeft + vfdlibGetTextWidth string font - 1)
            (yTop + vfdlibGetTextHeight font) := by
  have hshape : {q | ∃ pre c post, string = pre ++ c :: post ∧
      q ∈ (getFontInfo font).glyph c (xLeft + vfdlibGetTextWidth pre font) yTop} =
      textShape font string xLeft yTop := Set.ext fun q => textShape_iff.symm
  rw [hshape]
  refine ⟨draws_text hclip string xLeft yTop font, ?_⟩
  intro pre c post hstring q hq
  exact textShape_box (textShape_iff.mpr ⟨pre, c, post, hstring, hq⟩)

theorem drawText_draws_initial :
    Draws screen (vfdlibDrawText .initial (.replicate 2048 0) ['O', 'K'] 126 30 2 3)
        (.replicate 2048 0)
        (fill ({q | ∃ pre c post, ['O', 'K'] = pre ++ c :: post ∧
          q ∈ (getFontInfo 2).glyph c (126 + vfdlibGetTextWidth pre 2) 30} ∩ Clip.initial.area) 3) ∧
      ∀ pre c post, ['O', 'K'] = pre ++ c :: post →
        (getFontInfo 2).glyph c (126 + vfdlibGetTextWidth pre 2) 30 ⊆
          rect 126 30 (126 + vfdlibGetTextWidth ['O', 'K'] 2 - 1) (30 + vfdlibGetTextHeight 2) :=
  drawText_draws Clip.valid_initial ['O', 'K'] 126 30 2

end Squash.Vfd
