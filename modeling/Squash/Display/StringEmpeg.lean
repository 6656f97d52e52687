import Squash.Display.MetaStringEmpeg
import Squash.Foundations.WhileLoop

/-!
# Strings on the EMPEG

`draw_string_empeg` cuts a string until it is narrow enough. How many characters that takes is
estimated from the pixels that are too many, as if each character had 6 of them at most. The widest
character of the font, `@`, has 6 pixels and one between it and the next, so that the estimate may be
more than there are characters, and the terminator is written in front of the string.

The cutting goes well exactly when this does not happen in any turn (`drawStringEmpeg_iff`), which a
string with one more `@` than there are pixels is safe from (`draws_of_count`).
-/

namespace Squash.Display

open WhileLoop

/-! ## Widths of texts -/

/-- The second column of `mediumFontInfo`, from `!` to `~`. -/
def mediumFontWidths : List Int :=
  [1, 3, 5, 3, 4, 4, 1, 3, 3, 5, 3, 2, 2, 1, 4, 3,
    3, 2, 2, 3, 2, 3, 2, 3, 3, 1, 2, 3, 2, 3, 3, 6,
    3, 3, 2, 3, 2, 2, 3, 3, 1, 2, 3, 2, 5, 3, 3, 3,
    3, 3, 2, 3, 3, 3, 5, 3, 3, 2, 2, 4, 2, 5, 2, 2,
    3, 3, 2, 3, 3, 2, 3, 3, 1, 2, 3, 2, 5, 3, 3, 3,
    4, 2, 2, 2, 3, 3, 5, 3, 3, 2, 3, 1, 3, 5]

/-- What one character adds to the width. -/
def charWidth (c : Char) : Int :=
  if '!' ≤ c ∧ c ≤ '~' then mediumFontWidths.getD (c.toNat - '!'.toNat) 0 + 1 else 1

/-- `vfdlib_getTextWidth( text, 2 )`. -/
def vfdlibGetTextWidth : List Char → Int
  | [] => 0
  | c :: text => charWidth c + vfdlibGetTextWidth text

/-! ## `draw_string_empeg` -/

/-- `line_buffer`, `line_width` and `cur_width`. -/
structure Cutting where
  lineBuffer : List Char
  lineWidth : Int
  curWidth : Int
  deriving DecidableEq, Repr

/-- A turn of the loop. -/
def Cutting.turn (width : Int) (line : Cutting) : Except Fault (Next Cutting (List Char)) :=
  if line.curWidth > width then do
    let trim := (line.curWidth - width + 5).tdiv 6
    let trim := if trim < 1 then 1 else trim
    let lineWidth := line.lineWidth - trim
    let lineBuffer ← store line.lineBuffer lineWidth ['\x00']
    let text ← readString lineBuffer
    return .goOn ⟨lineBuffer, lineWidth, vfdlibGetTextWidth text - 1⟩
  else return .stop line.lineBuffer

/-- `draw_string_empeg` with so many turns at most; there is no text when they are not enough. -/
def drawStringEmpeg (fuel : Nat) (string : List Char) (top left width : Int) :
    Except Fault (Option Printed) := do
  let lineBuffer := string ++ ['\x00']
  let text ← readString lineBuffer
  match ← run (Cutting.turn width) fuel ⟨lineBuffer, text.length, vfdlibGetTextWidth text - 1⟩ with
  | none => return none
  | some lineBuffer => do
    let text ← readString lineBuffer
    return some ⟨top, left, text⟩

/-! ## The property -/

/-- The string is drawn up to some character, and what is drawn is narrow enough. -/
def Draws (string : List Char) (top left width : Int) : Prop :=
  ∃ turns, ∀ fuel, turns ≤ fuel → ∃ text,
    drawStringEmpeg fuel string top left width = .ok (some ⟨top, left, text⟩) ∧
      text <+: string ∧ vfdlibGetTextWidth text - 1 ≤ width

/-- The characters that the pixels over `width` are taken for. -/
def estimate (width : Int) (text : List Char) : Int :=
  (vfdlibGetTextWidth text - 1 - width + 5) / 6

/-- A text that is too wide, and what is left of it by the estimate. -/
def Shortened (width : Int) (text text' : List Char) : Prop :=
  width < vfdlibGetTextWidth text - 1 ∧
    ∃ cut, text = text' ++ cut ∧ (cut.length : Int) = estimate width text

/-! ### Widths -/

/-- The characters with a glyph, counted from the first of them. -/
theorem glyph_index {c : Char} (h : '!' ≤ c ∧ c ≤ '~') :
    c.toNat - '!'.toNat < 94 ∧ (c.toNat - '!'.toNat = 31 → c = '@') := by
  have hfirst : 33 ≤ c.toNat := UInt32.le_iff_toNat_le.mp h.1
  have hlast : c.toNat ≤ 126 := UInt32.le_iff_toNat_le.mp h.2
  have hbang : '!'.toNat = 33 := rfl
  refine ⟨by omega, ?_⟩
  intro hindex
  apply Char.toNat_inj.mp
  show c.toNat = 64
  omega

theorem charWidth_le (c : Char) : charWidth c ≤ 6 + if c = '@' then 1 else 0 := by
  unfold charWidth
  split
  · next hc =>
      have hall : ∀ i < 94, mediumFontWidths.getD i 0 + 1 ≤ 6 + if i = 31 then 1 else 0 := by
        decide
      obtain ⟨hlt, hat⟩ := glyph_index hc
      have hwidth := hall _ hlt
      split at hwidth
      · next hindex => rwa [if_pos (hat hindex)]
      · split <;> omega
  · split <;> decide

theorem one_le_charWidth (c : Char) : 1 ≤ charWidth c := by
  unfold charWidth
  split
  · next hc =>
      have hall : ∀ i < 94, 0 ≤ mediumFontWidths.getD i 0 := by decide
      have hwidth := hall _ (glyph_index hc).1
      omega
  · decide

theorem vfdlibGetTextWidth_append (s t : List Char) :
    vfdlibGetTextWidth (s ++ t) = vfdlibGetTextWidth s + vfdlibGetTextWidth t := by
  induction s with
  | nil => exact (Int.zero_add _).symm
  | cons c s ih =>
      rw [List.cons_append, vfdlibGetTextWidth, ih, ← Int.add_assoc]
      rfl

/-- Widths are as `draw_meta_string_empeg` relies on. -/
theorem vfdlibGetTextWidth_additive : Additive vfdlibGetTextWidth where
  append := vfdlibGetTextWidth_append
  pos c := by
    have hwidth := one_le_charWidth c
    simpa [vfdlibGetTextWidth] using hwidth

/-- Only `@` has more than 6 pixels. -/
theorem vfdlibGetTextWidth_le (text : List Char) :
    vfdlibGetTextWidth text ≤ 6 * text.length + text.count '@' := by
  induction text with
  | nil => decide
  | cons c text ih =>
      have hchar := charWidth_le c
      rw [vfdlibGetTextWidth, List.length_cons, List.count_cons]
      simp only [beq_iff_eq]
      split at hchar <;> split <;> omega

/-! ### The loop on texts -/

/-- A turn on the text itself. -/
def cutText (width : Int) (text : List Char) : Except Fault (Next (List Char) (List Char)) :=
  if width < vfdlibGetTextWidth text - 1 then
    if estimate width text ≤ text.length then
      .ok (.goOn (text.take (text.length - (estimate width text).toNat)))
    else .error .outOfBounds
  else .ok (.stop text)

/-- What was cut so far is in the buffer. -/
structure Cutting.Shows (line : Cutting) (text : List Char) : Prop where
  string : '\x00' ∉ text
  buffer : ∃ rest, line.lineBuffer = text ++ '\x00' :: rest
  width : line.lineWidth = text.length
  pixels : line.curWidth = vfdlibGetTextWidth text - 1

section Next

variable {width : Int} {text text' : List Char} {line : Cutting}

theorem one_le_estimate (h : width < vfdlibGetTextWidth text - 1) : 1 ≤ estimate width text := by
  unfold estimate
  omega

/-- The estimate is too high when the pixels are more than 6 for each character and the width. -/
theorem estimate_le_iff : estimate width text ≤ text.length ↔
    vfdlibGetTextWidth text ≤ 6 * text.length + width + 1 := by
  unfold estimate
  omega

theorem goes_iff : Goes (cutText width) text text' ↔ Shortened width text text' := by
  unfold Goes cutText Shortened
  constructor
  · intro hstep
    split at hstep
    · next hwide =>
        split at hstep
        · next hfits =>
            cases hstep
            refine ⟨hwide, text.drop (text.length - (estimate width text).toNat),
              (List.take_append_drop _ _).symm, ?_⟩
            have hone := one_le_estimate hwide
            rw [List.length_drop]
            omega
        · cases hstep
    · cases hstep
  · rintro ⟨hwide, cut, htext, hcut⟩
    have hlength : text.length = text'.length + cut.length := by rw [htext, List.length_append]
    have hkept : text'.length = text.length - (estimate width text).toNat := by omega
    rw [if_pos hwide, if_pos (by omega), ← hkept, htext, List.take_left]

/-- **The turns on the buffer are the turns on the text.** -/
theorem turn_corresponds (h : line.Shows text) :
    Corresponds Cutting.Shows (fun buffer text => readString buffer = .ok text)
      (line.turn width) (cutText width text) := by
  obtain ⟨hstring, ⟨rest, hbuffer⟩, hwidth, hpixels⟩ := h
  unfold Cutting.turn cutText
  rw [hpixels, hwidth, hbuffer]
  by_cases hwide : width < vfdlibGetTextWidth text - 1
  · have hone := one_le_estimate hwide
    have htrim : (vfdlibGetTextWidth text - 1 - width + 5).tdiv 6 = estimate width text :=
      Int.tdiv_eq_ediv_of_nonneg (by omega)
    rw [if_pos hwide, if_pos hwide, htrim]
    simp only [if_neg (Int.not_lt.mpr hone)]
    by_cases hfits : estimate width text ≤ text.length
    · have hgoOn : cutText width text =
          .ok (.goOn (text.take (text.length - (estimate width text).toNat))) := by
        rw [cutText, if_pos hwide, if_pos hfits]
      obtain ⟨-, cut, htext, hcut⟩ := goes_iff.mp hgoOn
      generalize text.take (text.length - (estimate width text).toNat) = kept at htext ⊢
      obtain ⟨c, cut, rfl⟩ : ∃ c cut', cut = c :: cut' := by
        apply List.exists_cons_of_length_pos
        omega
      have hnul : '\x00' ∉ kept := fun hmem => hstring (htext ▸ List.mem_append_left _ hmem)
      have hindex : (text.length : Int) - estimate width text = kept.length := by
        rw [← hcut, htext, List.length_append]
        omega
      have hold : text ++ '\x00' :: rest = kept ++ c :: (cut ++ '\x00' :: rest) := by
        rw [htext, List.append_assoc, List.cons_append]
      rw [if_pos hfits, hold, store_one kept c _ hindex, ok_bind, readString_append hnul,
        ok_bind]
      exact .goOn ⟨hnul, ⟨_, rfl⟩, hindex, rfl⟩
    · have hstore : store (text ++ '\x00' :: rest) (text.length - estimate width text) ['\x00'] =
          .error .outOfBounds := if_neg (by omega)
      rw [if_neg hfits, hstore, error_bind]
      exact .error _
  · rw [if_neg hwide, if_neg hwide]
    exact .stop (readString_append hstring)

theorem length_lt_of_goes (h : Goes (cutText width) text text') : text'.length < text.length := by
  obtain ⟨hwide, cut, htext, hcut⟩ := goes_iff.mp h
  have hone := one_le_estimate hwide
  rw [htext, List.length_append]
  omega

theorem reaches_iff : Reaches (cutText width) text text' ↔
    Relation.ReflTransGen (Shortened width) text text' := by
  have hsteps : Goes (cutText width) = Shortened width := by
    funext text text'
    exact propext goes_iff
  rw [Reaches, hsteps]

theorem prefix_of_reaches (h : Reaches (cutText width) text text') : text' <+: text := by
  induction h with
  | refl => exact List.prefix_refl text
  | tail _ hstep ih =>
      obtain ⟨-, cut, rfl, -⟩ := goes_iff.mp hstep
      exact (List.prefix_append _ cut).trans ih

/-- What the loop shall stop with. -/
def Fits (string : List Char) (width : Int) (text : List Char) : Prop :=
  text <+: string ∧ vfdlibGetTextWidth text - 1 ≤ width

theorem fine_iff {string : List Char} (h : text <+: string) :
    Fine (Fits string width) (cutText width text) ↔
      vfdlibGetTextWidth text ≤ 6 * text.length + width + 1 := by
  rw [← estimate_le_iff]
  unfold cutText
  split
  · next hwide =>
      split
      · next hfits => exact iff_of_true trivial hfits
      · next hover => exact iff_of_false id hover
  · next hnarrow =>
      refine iff_of_true ⟨h, by omega⟩ (estimate_le_iff.mpr ?_)
      omega

/-- **The loop on the text ends exactly when no estimate is too high.** -/
theorem ends_cutText_iff (width : Int) (string : List Char) :
    Ends (cutText width) string (Fits string width) ↔
      ∀ text, Relation.ReflTransGen (Shortened width) string text →
        vfdlibGetTextWidth text ≤ 6 * text.length + width + 1 := by
  rw [ends_iff (fun _ _ => length_lt_of_goes)]
  refine forall_congr' fun text => ?_
  rw [reaches_iff]
  exact forall_congr' fun h => fine_iff (prefix_of_reaches (reaches_iff.mpr h))

end Next

/-! ### The drawing -/

/-- What the loop starts with. -/
def start (string : List Char) : Cutting :=
  ⟨string ++ ['\x00'], string.length, vfdlibGetTextWidth string - 1⟩

section Draws

variable {string : List Char} (h : '\x00' ∉ string)

include h

/-- What is drawn is in the buffer that the loop stops with. -/
theorem drawStringEmpeg_eq_ok {fuel : Nat} {top left width : Int} {text : List Char} :
    drawStringEmpeg fuel string top left width = .ok (some ⟨top, left, text⟩) ↔
      ∃ buffer, run (Cutting.turn width) fuel (start string) = .ok (some buffer) ∧
        readString buffer = .ok text := by
  have hread : readString (string ++ ['\x00']) = .ok string := readString_append h
  simp only [drawStringEmpeg, hread, ok_bind]
  constructor
  · intro hdraw
    obtain ⟨result, hrun, hdraw⟩ := bind_eq_ok.mp hdraw
    cases result with
    | none => cases hdraw
    | some buffer =>
        obtain ⟨text', htext, hprinted⟩ := bind_eq_ok.mp hdraw
        cases hprinted
        exact ⟨buffer, hrun, htext⟩
  · rintro ⟨buffer, hrun, htext⟩
    have hrun' : run (Cutting.turn width) fuel
        ⟨string ++ ['\x00'], string.length, vfdlibGetTextWidth string - 1⟩ = .ok (some buffer) :=
      hrun
    rw [hrun', ok_bind]
    simp only [htext, ok_bind]
    rfl

theorem draws_iff_ends (top left width : Int) :
    Draws string top left width ↔ Ends (cutText width) string (Fits string width) := by
  have hshows : (start string).Shows string := ⟨h, ⟨[], rfl⟩, rfl, rfl⟩
  have hpost : ∀ buffer text, readString buffer = .ok text →
      ((∃ text, readString buffer = .ok text ∧ Fits string width text) ↔ Fits string width text) := by
    intro buffer text hread
    simp [hread]
  rw [← ends_congr (fun _ _ => turn_corresponds) hpost hshows]
  refine exists_congr fun turns => forall₂_congr fun fuel _ => ?_
  simp only [drawStringEmpeg_eq_ok h]
  constructor
  · rintro ⟨text, ⟨buffer, hrun, hread⟩, hfits⟩
    exact ⟨buffer, hrun, text, hread, hfits⟩
  · rintro ⟨buffer, hrun, text, hread, hfits⟩
    exact ⟨text, ⟨buffer, hrun, hread⟩, hfits⟩

/-- **The string is cut right exactly when in no turn the pixels are more than 6 for each character
that is left, and the width.** -/
theorem drawStringEmpeg_iff (top left width : Int) :
    Draws string top left width ↔
      ∀ text, Relation.ReflTransGen (Shortened width) string text →
        vfdlibGetTextWidth text ≤ 6 * text.length + width + 1 :=
  (draws_iff_ends h top left width).trans (ends_cutText_iff width string)

/-- With few `@` all is well. -/
theorem draws_of_count {width : Int} (hcount : (string.count '@' : Int) ≤ width + 1)
    (top left : Int) : Draws string top left width := by
  rw [draws_iff_ends h, ends_cutText_iff]
  intro text hreaches
  have hprefix := prefix_of_reaches (reaches_iff.mpr hreaches)
  have hle : text.count '@' ≤ string.count '@' := hprefix.sublist.count_le '@'
  have hwidth := vfdlibGetTextWidth_le text
  omega

end Draws

/-- Two `@` on a narrow display. -/
theorem drawStringEmpeg_iff_ats :
    Draws "a@b@".toList 0 0 10 ↔
      ∀ text, Relation.ReflTransGen (Shortened 10) "a@b@".toList text →
        vfdlibGetTextWidth text ≤ 6 * text.length + 10 + 1 :=
  drawStringEmpeg_iff (by decide) 0 0 10

theorem vfdlibGetTextWidth_replicate (n : Nat) (c : Char) :
    vfdlibGetTextWidth (List.replicate n c) = n * charWidth c := by
  induction n with
  | zero => simp [vfdlibGetTextWidth]
  | succ n ih =>
      rw [List.replicate_succ, vfdlibGetTextWidth, ih, Int.natCast_succ, Int.add_mul]
      omega

/-- A name of 130 times `@` is not cut to the display's 128 pixels. -/
theorem not_draws_ats : ¬ ∀ string : List Char, '\x00' ∉ string → ∀ top left width : Int, 0 ≤ width →
    Draws string top left width := by
  intro hall
  have hnul : '\x00' ∉ List.replicate 130 '@' := by
    intro hmem
    exact absurd (List.eq_of_mem_replicate hmem) (by decide)
  have hdraws := hall (List.replicate 130 '@') hnul 0 0 128 (by decide)
  rw [draws_iff_ends hnul, ends_cutText_iff] at hdraws
  have hwidth := hdraws _ .refl
  have hat : charWidth '@' = 7 := by decide
  rw [vfdlibGetTextWidth_replicate, List.length_replicate, hat] at hwidth
  omega

end Squash.Display
