import Squash.Foundations.Transition
import Squash.Vfd.Clipping
import Squash.Vfd.Ellipses
import Squash.Vfd.Text

/-!
# Sequences of drawing calls

The clip area is a global of the library, and what one call does depends on the calls before it. Here a
program is any sequence of calls of the clipped functions. `paint` is what a call is for, said of points
and shades and without a buffer; `calls_paint` says that the buffer shows just that after any sequence,
and that no call of it leads outside of the buffer, of a bitmap or of a font. -/

namespace Squash.Vfd

open Picture

/-! ## Calls -/

inductive Call where
  | setClipArea (xLeft yTop xRight yBottom : Int)
  | clear (shade : Shade)
  | drawPoint (xPos yPos : Int) (shade : Shade)
  | drawLineHoriz (yPos xLeft xRight : Int) (shade : Shade)
  | drawLineVert (xPos yTop yBottom : Int) (shade : Shade)
  | drawLine (x0 y0 x1 y1 : Int) (shade : Shade)
  | drawOutlineRectangle (xLeft yTop xRight yBottom : Int) (shade : Shade)
  | drawSolidRectangle (xLeft yTop xRight yBottom : Int) (shade : Shade)
  | drawOutlineEllipse (cX cY a b : Int) (shade : Shade)
  | drawSolidEllipse (cX cY a b : Int) (shade : Shade)
  | drawOutlinePolygon (coordsData : List Point) (shade : Shade)
  | drawText (string : List Char) (xLeft yTop font : Int) (shade : Shade)
  | drawBitmap (bitmap : Bitmap) (destX destY sourceX sourceY width height : Int)
      (shade : Option Shade) (isTransparent : Bool)

/-- What a call draws into the buffer. -/
def Call.draw (clip : Clip) (buffer : Buffer) : Call → Option Buffer
  | .setClipArea .. => some buffer
  | .clear shade => vfdlibClear clip buffer shade
  | .drawPoint x y shade => vfdlibDrawPointClipped clip buffer x y shade
  | .drawLineHoriz y xLeft xRight shade => vfdlibDrawLineHorizClipped clip buffer y xLeft xRight shade
  | .drawLineVert x yTop yBottom shade => vfdlibDrawLineVertClipped clip buffer x yTop yBottom shade
  | .drawLine x0 y0 x1 y1 shade => vfdlibDrawLineClipped clip buffer x0 y0 x1 y1 shade
  | .drawOutlineRectangle xLeft yTop xRight yBottom shade =>
    vfdlibDrawOutlineRectangleClipped clip buffer xLeft yTop xRight yBottom shade
  | .drawSolidRectangle xLeft yTop xRight yBottom shade =>
    vfdlibDrawSolidRectangleClipped clip buffer xLeft yTop xRight yBottom shade
  | .drawOutlineEllipse cX cY a b shade => vfdlibDrawOutlineEllipseClipped clip buffer cX cY a b shade
  | .drawSolidEllipse cX cY a b shade => vfdlibDrawSolidEllipseClipped clip buffer cX cY a b shade
  | .drawOutlinePolygon coordsData shade =>
    vfdlibDrawOutlinePolygonClipped clip buffer coordsData shade
  | .drawText string xLeft yTop font shade => vfdlibDrawText clip buffer string xLeft yTop font shade
  | .drawBitmap bitmap destX destY sourceX sourceY width height shade isTransparent =>
    vfdlibDrawBitmap clip buffer bitmap destX destY sourceX sourceY width height shade isTransparent

/-- The clip area after a call. -/
def Call.clip (clip : Clip) : Call → Clip
  | .setClipArea xLeft yTop xRight yBottom => vfdlibSetClipArea clip xLeft yTop xRight yBottom
  | _ => clip

def Call.step (s : Clip × Buffer) (call : Call) : Option (Clip × Buffer) :=
  (call.draw s.1 s.2).map fun buffer => (call.clip s.1, buffer)

/-- What a call relies on: that a new clip area has a pixel of the display, that an ellipse is not turned
inside out, that a polygon has a point, and that a bitmap is as its header says, and has what is asked of
it. -/
def Call.Ok : Call → Prop
  | .setClipArea xLeft yTop xRight yBottom => Reasonable xLeft yTop xRight yBottom
  | .drawOutlineEllipse _ _ a b _ | .drawSolidEllipse _ _ a b _ => 0 ≤ a ∧ 0 ≤ b
  | .drawOutlinePolygon coordsData _ => coordsData ≠ []
  | .drawBitmap bitmap destX destY sourceX sourceY width height _ _ =>
    ∃ format bitmapWidth bitmapHeight, bitmap.WellFormed format bitmapWidth bitmapHeight ∧
      Extent.Inside bitmapWidth ⟨destX, sourceX, width⟩ ∧
      Extent.Inside bitmapHeight ⟨destY, sourceY, height⟩
  | _ => True

/-! ## What they are for -/

/-- The pixels of a part of a bitmap, as they are to be drawn. -/
def Bitmap.picture (bitmap : Bitmap) (destX destY sourceX sourceY : Int) (shade : Option Shade)
    (isTransparent : Bool) (q : Point) : Option Shade :=
  bitmap.pixel ((bitmap.byte 0).getD 0) ((bitmap.size 1).getD 0) shade isTransparent
    (sourceX + q.1 - destX) (sourceY + q.2 - destY)

/-- What a call would draw if nothing were clipped. -/
noncomputable def Call.layer : Call → Point → Option Shade
  | .setClipArea .. => blank
  | .clear shade => fill Set.univ shade
  | .drawPoint x y shade => fill {(x, y)} shade
  | .drawLineHoriz y xLeft xRight shade => fill (rect xLeft y xRight (y + 1)) shade
  | .drawLineVert x yTop yBottom shade => fill (rect x yTop (x + 1) yBottom) shade
  | .drawLine x0 y0 x1 y1 shade => fill (line x0 y0 x1 y1) shade
  | .drawOutlineRectangle xLeft yTop xRight yBottom shade =>
    fill (outline xLeft yTop xRight yBottom) shade
  | .drawSolidRectangle xLeft yTop xRight yBottom shade =>
    fill (rect xLeft yTop xRight yBottom) shade
  | .drawOutlineEllipse cX cY a b shade => fill (outlineEllipse cX cY a b) shade
  | .drawSolidEllipse cX cY a b shade => fill (solidEllipse cX cY a b) shade
  | .drawOutlinePolygon coordsData shade => fill (polygon coordsData) shade
  | .drawText string xLeft yTop font shade => fill (textShape font string xLeft yTop) shade
  | .drawBitmap bitmap destX destY sourceX sourceY width height shade isTransparent =>
    within (rect destX destY
        (destX + Extent.wanted ((bitmap.size 1).getD 0) ⟨destX, sourceX, width⟩)
        (destY + Extent.wanted ((bitmap.size 3).getD 0) ⟨destY, sourceY, height⟩))
      (bitmap.picture destX destY sourceX sourceY shade isTransparent)

/-- Where may be drawn after a call. -/
noncomputable def Call.area (area : Set Point) : Call → Set Point
  | .setClipArea xLeft yTop xRight yBottom =>
    if yTop > yBottom ∨ xLeft > xRight then area else rect xLeft yTop xRight yBottom ∩ screen.valid
  | _ => area

/-- An area where may be drawn, and the shade of each point. -/
abbrev View := Set Point × (Point → Shade)

/-- **What a call is for.** -/
noncomputable def paint (view : View) (call : Call) : View :=
  (call.area view.1, fun q => (within view.1 call.layer q).getD (view.2 q))

/-! ## They do it -/

theorem within_fill {A B : Set Point} {shade : Shade} :
    within B (fill A shade) = fill (A ∩ B) shade := by
  rw [fill, within_within, Set.inter_comm]

variable {clip : Clip} {buffer : Buffer} {call : Call}

theorem valid_clip (hclip : clip.Valid) (hok : call.Ok) : (call.clip clip).Valid := by
  cases call with
  | setClipArea => exact hclip.setClipArea hok
  | _ => exact hclip

theorem area_clip (call : Call) : (call.clip clip).area = call.area clip.area := by
  cases call with
  | setClipArea xLeft yTop xRight yBottom =>
      unfold Call.clip Call.area
      simp only
      split
      · next hturned => rw [vfdlibSetClipArea, if_pos hturned]
      · next haccepted => exact area_setClipArea (by omega) (by omega)
  | _ => rfl

theorem draws_call (hclip : clip.Valid) (hok : call.Ok) :
    Draws screen (call.draw clip buffer) buffer (within clip.area call.layer) := by
  cases call with
  | setClipArea =>
      refine Draws.blank.congr fun q _ => ?_
      by_cases hq : q ∈ clip.area
      · exact (within_of_mem hq).symm
      · exact (within_of_notMem hq).symm
  | clear shade =>
      rw [Call.layer, within_fill, Set.univ_inter]
      exact draws_clear hclip
  | drawPoint =>
      rw [Call.layer, within_fill]
      exact draws_pointClipped hclip
  | drawLineHoriz =>
      rw [Call.layer, within_fill]
      exact draws_horizClipped hclip
  | drawLineVert =>
      rw [Call.layer, within_fill]
      exact draws_vertClipped hclip
  | drawLine =>
      rw [Call.layer, within_fill]
      exact draws_lineClipped hclip
  | drawOutlineRectangle =>
      rw [Call.layer, within_fill]
      exact draws_outlineClipped hclip
  | drawSolidRectangle =>
      rw [Call.layer, within_fill]
      exact draws_solidClipped hclip
  | drawOutlineEllipse =>
      rw [Call.layer, within_fill]
      exact draws_outlineEllipse hclip hok.1 hok.2
  | drawSolidEllipse =>
      rw [Call.layer, within_fill]
      exact draws_solidEllipse hclip hok.1 hok.2
  | drawOutlinePolygon =>
      rw [Call.layer, within_fill]
      exact draws_outlinePolygon hclip hok
  | drawText =>
      rw [Call.layer, within_fill]
      exact draws_text hclip _ _ _ _
  | drawBitmap =>
      obtain ⟨format, bitmapWidth, bitmapHeight, hbitmap, hx, hy⟩ := hok
      rw [Call.layer, within_within, Set.inter_comm]
      unfold Bitmap.picture
      rw [hbitmap.format_eq, hbitmap.width_eq, hbitmap.height_eq]
      exact draws_bitmap hclip hbitmap hx hy

theorem paint_some {view : View} {q : Point} {shade : Shade} (hq : q ∈ view.1)
    (h : call.layer q = some shade) : (paint view call).2 q = shade := by
  show (within view.1 call.layer q).getD (view.2 q) = shade
  rw [within_of_mem hq, h]
  rfl

theorem paint_none {view : View} {q : Point} (h : call.layer q = none) :
    (paint view call).2 q = view.2 q := by
  show (within view.1 call.layer q).getD (view.2 q) = view.2 q
  by_cases hq : q ∈ view.1
  · rw [within_of_mem hq, h]
    rfl
  · rw [within_of_notMem hq]
    rfl

open Classical in
theorem paint_fill {view : View} {region : Set Point} {shade : Shade} {q : Point}
    (hcall : call.layer = fill region shade) (hq : q ∈ view.1) :
    (paint view call).2 q = if q ∈ region then shade else view.2 q := by
  by_cases hmem : q ∈ region
  · rw [if_pos hmem]
    exact paint_some hq (by rw [hcall, fill_of_mem hmem])
  · rw [if_neg hmem]
    exact paint_none (by rw [hcall, fill_of_notMem hmem])

/-! ## Sequences -/

/-- The clip area and the buffer show a view. -/
structure Shows (s : Clip × Buffer) (view : View) : Prop where
  valid : s.1.Valid
  area : s.1.area = view.1
  picture : ∀ q ∈ screen.valid, pixel s.2 q = view.2 q

theorem step_paint {s : Clip × Buffer} {view : View} (hok : call.Ok) (h : Shows s view) :
    ∃ s', call.step s = some s' ∧ Shows s' (paint view call) := by
  obtain ⟨clip, buffer⟩ := s
  obtain ⟨hclip, harea, hpicture⟩ := h
  have hdraws : Draws screen (call.draw clip buffer) buffer _ := draws_call hclip hok
  obtain ⟨buffer', hdraw, hpixel⟩ := hdraws
  refine ⟨(call.clip clip, buffer'), by rw [Call.step, hdraw]; rfl, valid_clip hclip hok, ?_, ?_⟩
  · rw [area_clip, harea]
    rfl
  · intro q hq
    refine (hpixel q hq).trans ?_
    rw [harea]
    exact congrArg _ (hpicture q hq)

theorem run_calls {calls : List Call} {s : Clip × Buffer} {view : View}
    (hok : ∀ call ∈ calls, call.Ok) (h : Shows s view) :
    ∃ s', Transition.run Call.step s calls = some s' ∧ Shows s' (calls.foldl paint view) := by
  induction calls generalizing s view with
  | nil => exact ⟨s, rfl, h⟩
  | cons call calls ih =>
      obtain ⟨between, hstep, hbetween⟩ := step_paint (hok call List.mem_cons_self) h
      obtain ⟨s', hrun, hs'⟩ := ih (fun c hc => hok c (List.mem_cons_of_mem call hc)) hbetween
      refine ⟨s', ?_, hs'⟩
      rw [Transition.run_cons, hstep]
      exact hrun

theorem shows_initial (buffer : Buffer) : Shows (Clip.initial, buffer) (screen.valid, pixel buffer) :=
  ⟨Clip.valid_initial, rfl, fun _ _ => rfl⟩

end Squash.Vfd
