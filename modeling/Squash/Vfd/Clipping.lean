import Squash.Vfd.Lines

/-!
# Clipped lines

A clipped line is not drawn pixel by pixel with a test for each. Where it enters the clip area is computed,
with the decision variable that the loop would have there, and how many steps it may take before it
leaves. `draws_lineClipped` says that nothing is lost by that: what is drawn are the points of the whole
line that are in the clip area.

The computation is the same for lines along either axis (`enter`). Distances are counted from the start of
the line in the direction in which it goes. -/

namespace Squash.Vfd

open Picture DigitalLine

/-! ## Where a line enters -/

/-- The division of C, which there is not for the divisor 0. -/
def quotient (a b : Int) : Option Int := if b = 0 then none else some (a.tdiv b)

def remainder (a b : Int) : Option Int := if b = 0 then none else some (a.tmod b)

/-- The intersection with the edge across the axis along which the line is longer. The answer are the
steps along both axes, or `none` if the line is rejected. -/
def enterMax (dMax dMin entryMax exitMin : Int) : Option (Option (Int × Int)) :=
  if entryMax > 0 then do
    let temp := entryMax * dMin
    let deltaMin ← quotient temp dMax
    let deltaMin := if (← remainder temp dMax) > dMax / 2 then deltaMin + 1 else deltaMin
    return if exitMin - deltaMin < 0 then none else some (entryMax, deltaMin)
  else some (some (0, 0))

/-- The intersection with the other edge, half a pixel before it. -/
def enterMin (dMax dMin entryMin exitMax : Int) (delta : Int × Int) : Option (Option (Int × Int)) :=
  if entryMin - delta.2 > 0 then do
    let deltaMax := (← quotient ((entryMin * 2 - 1) * dMax) (dMin * 2)) + 1
    return if deltaMax > exitMax then none else some (deltaMax, entryMin)
  else some (some delta)

def enter (dMax dMin entryMax entryMin exitMax exitMin : Int) : Option (Option (Int × Int)) := do
  match ← enterMax dMax dMin entryMax exitMin with
  | some delta => enterMin dMax dMin entryMin exitMax delta
  | none => return none

/-- The line to the right: `dx` is not negative. -/
def drawLineRightClipped (clip : Clip) (buffer : Buffer) (x0 y0 dx dy : Int) (shade : Shade) :
    Option Buffer :=
  let distToHEntry := clip.xLeft - x0
  if dx < distToHEntry then some buffer
  else
    let distToVEntry := if dy > 0 then clip.yTop - y0 else y0 - clip.yBottom + 1
    let distToVExit := if dy > 0 then clip.yBottom - y0 - 1 else y0 - clip.yTop
    let dyAbs := absV dy
    if dyAbs < distToVEntry then some buffer
    else if distToVExit < 0 then some buffer
    else
      let distToHExit := clip.xRight - x0 - 1
      if distToHExit < 0 then some buffer
      else if dx > dyAbs then
        (enter dx dyAbs distToHEntry distToVEntry distToHExit distToVExit).bind fun
          | none => some buffer
          | some (xDelta, yDelta) =>
            let y0 := if dy > 0 then y0 + yDelta else y0 - yDelta
            drawLineHMaxClipped buffer (x0 + xDelta) y0 dx dy
              ((2 + xDelta * 2) * dyAbs - (1 + yDelta * 2) * dx)
              (min (dx - xDelta) (distToHExit - xDelta)) (min (dyAbs - yDelta) (distToVExit - yDelta))
              shade
      else
        (enter dyAbs dx distToVEntry distToHEntry distToVExit distToHExit).bind fun
          | none => some buffer
          | some (yDelta, xDelta) =>
            let y0 := if dy > 0 then y0 + yDelta else y0 - yDelta
            drawLineVMaxClipped buffer (x0 + xDelta) y0 dx dy
              ((2 + yDelta * 2) * dx - (1 + xDelta * 2) * dyAbs)
              (min (dx - xDelta) (distToHExit - xDelta)) (min (dyAbs - yDelta) (distToVExit - yDelta))
              shade

def vfdlibDrawLineClipped (clip : Clip) (buffer : Buffer) (x0 y0 x1 y1 : Int) (shade : Shade) :
    Option Buffer :=
  let dx := x1 - x0
  let dy := y1 - y0
  if dx < 0 then drawLineRightClipped clip buffer x1 y1 (-dx) (-dy) shade
  else drawLineRightClipped clip buffer x0 y0 dx dy shade

/-! ## The computation is right -/

variable {dMax dMin entryMax entryMin exitMax exitMin : Int}

/-- What can be seen of a line, in the steps along it. -/
def window (entryMax entryMin exitMax exitMin : Int) : Set (Int × Int) :=
  {p | (entryMax ≤ p.1 ∧ p.1 ≤ exitMax) ∧ entryMin ≤ p.2 ∧ p.2 ≤ exitMin}

theorem quotient_eq {a b : Int} (ha : 0 ≤ a) (hb : 0 < b) : quotient a b = some (a / b) := by
  rw [quotient, if_neg hb.ne', Int.tdiv_eq_ediv_of_nonneg ha]

theorem remainder_eq {a b : Int} (ha : 0 ≤ a) (hb : 0 < b) : remainder a b = some (a % b) := by
  rw [remainder, if_neg hb.ne', Int.tmod_eq_emod_of_nonneg ha]

theorem enterMax_eq (hm : 0 < dMax) (hn : 0 ≤ dMin) (hexit : 0 ≤ exitMin) :
    enterMax dMax dMin entryMax exitMin =
      some (if exitMin < minor dMax dMin (max 0 entryMax) then none
        else some (max 0 entryMax, minor dMax dMin (max 0 entryMax))) := by
  unfold enterMax
  split
  · next hentry =>
      have htemp : 0 ≤ entryMax * dMin := Int.mul_nonneg (by omega) hn
      have hmax : max 0 entryMax = entryMax := by omega
      have hround := round_minor (n := dMin) (i := entryMax) hm
      have hdelta : (if entryMax * dMin % dMax > dMax / 2 then entryMax * dMin / dMax + 1
          else entryMax * dMin / dMax) = minor dMax dMin entryMax := by
        split at hround <;> omega
      have hreject : exitMin - minor dMax dMin entryMax < 0 ↔ exitMin < minor dMax dMin entryMax := by
        omega
      simp only [quotient_eq htemp hm, remainder_eq htemp hm, Option.bind_eq_bind, Option.bind_some,
        hdelta, hreject, hmax]
      rfl
  · next hentry =>
      have hmax : max 0 entryMax = 0 := by omega
      rw [hmax, minor_zero hm.le, if_neg (by omega)]

theorem enterMin_eq {i k : Int} (hm : 0 < dMax) (hn : entryMin ≤ dMin) (hk : 0 ≤ k) :
    enterMin dMax dMin entryMin exitMax (i, k) =
      some (if k < entryMin then
        if exitMax < first dMax dMin entryMin then none else some (first dMax dMin entryMin, entryMin)
      else some (i, k)) := by
  unfold enterMin
  split
  · next hentry =>
      have hpos : 0 ≤ (entryMin * 2 - 1) * dMax := Int.mul_nonneg (by omega) hm.le
      have hfirst : (entryMin * 2 - 1) * dMax / (dMin * 2) + 1 = first dMax dMin entryMin := by
        rw [first, Int.mul_comm entryMin, Int.mul_comm dMin]
      rw [if_pos (by omega)]
      simp only [quotient_eq hpos (by omega : 0 < dMin * 2), Option.bind_eq_bind, Option.bind_some,
        hfirst]
      rfl
  · next hentry => rw [if_neg (by omega)]

/-- From the point where a line enters the window on, all of it is seen up to the step and the height at
which it leaves. -/
theorem track_inter_window {i : Int} (hm : 0 < dMax) (hn : 0 ≤ dMin) (hi : 0 ≤ i) (hlast : i ≤ dMax)
    (hexitMax : i ≤ exitMax) (hexitMin : minor dMax dMin i ≤ exitMin)
    (henter : ∀ j, 0 ≤ j → j ≤ dMax → (entryMax ≤ j ∧ entryMin ≤ minor dMax dMin j ↔ i ≤ j)) :
    track dMax dMin ∩ window entryMax entryMin exitMax exitMin =
      {(i, minor dMax dMin i)} ∪
        stretch dMax dMin i (min dMax exitMax) (some (min dMin exitMin)) := by
  ext ⟨j, k⟩
  simp only [track, window, stretch, Set.mem_inter_iff, Set.mem_ofPred_eq, Set.mem_union,
    Set.mem_singleton_iff, Prod.mk.injEq, Option.mem_some_iff, forall_eq']
  constructor
  · rintro ⟨⟨hj, hjlast, rfl⟩, ⟨hjentry, hjexit⟩, hkentry, hkexit⟩
    have hle := (henter j hj hjlast).mp ⟨hjentry, hkentry⟩
    have htop := minor_le hm hn hjlast
    by_cases heq : j = i
    · exact .inl ⟨heq, by rw [heq]⟩
    · exact .inr ⟨by omega, by omega, rfl, by omega⟩
  · rintro (⟨rfl, rfl⟩ | ⟨hj, hjlast, rfl, hk⟩)
    · have hentry := (henter j hi hlast).mpr (Int.le_refl j)
      exact ⟨⟨hi, hlast, rfl⟩, ⟨hentry.1, hexitMax⟩, hentry.2, hexitMin⟩
    · have hentry := (henter j (by omega) (by omega)).mpr hj.le
      exact ⟨⟨by omega, by omega, rfl⟩, ⟨hentry.1, by omega⟩, hentry.2, by omega⟩

/-- **The computation finds where the line enters the window**, or that it does not. -/
theorem enter_spec (entryMax entryMin exitMax exitMin : Int) (hm : 0 < dMax) (hn : 0 ≤ dMin)
    (hnm : dMin ≤ dMax) (hentryMax : entryMax ≤ dMax) (hentryMin : entryMin ≤ dMin)
    (hexitMax : 0 ≤ exitMax) (hexitMin : 0 ≤ exitMin)
    (hwideMax : entryMax ≤ exitMax) (hwideMin : entryMin ≤ exitMin) :
    (enter dMax dMin entryMax entryMin exitMax exitMin = some none ∧
        track dMax dMin ∩ window entryMax entryMin exitMax exitMin = ∅) ∨
      ∃ i, enter dMax dMin entryMax entryMin exitMax exitMin = some (some (i, minor dMax dMin i)) ∧
        (0 ≤ i ∧ i ≤ dMax) ∧ i ≤ exitMax ∧ minor dMax dMin i ≤ exitMin ∧
        track dMax dMin ∩ window entryMax entryMin exitMax exitMin =
          {(i, minor dMax dMin i)} ∪
            stretch dMax dMin i (min dMax exitMax) (some (min dMin exitMin)) := by
  have hstart : 0 ≤ minor dMax dMin (max 0 entryMax) := minor_nonneg hm hn (by omega)
  simp only [enter, enterMax_eq hm hn hexitMin, Option.bind_eq_bind, Option.bind_some]
  by_cases habove : exitMin < minor dMax dMin (max 0 entryMax)
  · -- at the edge the line is out of the window, and goes further away
    refine .inl ⟨by rw [if_pos habove]; rfl, ?_⟩
    ext p
    simp only [track, window, Set.mem_inter_iff, Set.mem_ofPred_eq, Set.mem_empty_iff_false,
      iff_false]
    rintro ⟨⟨hp, -, hk⟩, ⟨hentry, -⟩, -, hexit⟩
    have hmono := minor_mono (i := max 0 entryMax) (j := p.1) hm hn (by omega)
    omega
  · rw [if_neg habove]
    simp only [enterMin_eq hm hentryMin hstart]
    split
    · next hbelow =>
        have hpos : 0 < dMin := by omega
        have hfirst : ∀ j, entryMin ≤ minor dMax dMin j ↔ first dMax dMin entryMin ≤ j :=
          fun j => le_minor_iff_first hm hpos
        have hlater : max 0 entryMax < first dMax dMin entryMin := by
          by_contra h
          have h := (hfirst (max 0 entryMax)).mpr (by omega)
          omega
        split
        · next hright =>
            refine .inl ⟨rfl, ?_⟩
            ext p
            simp only [track, window, Set.mem_inter_iff, Set.mem_ofPred_eq, Set.mem_empty_iff_false,
              iff_false]
            rintro ⟨⟨-, -, hk⟩, ⟨-, hexit⟩, hentry, -⟩
            have hp := (hfirst p.1).mp (hk ▸ hentry)
            omega
        · next hright =>
            have hat := minor_first (k := entryMin) hm hpos hnm
            have hlast : first dMax dMin entryMin ≤ dMax :=
              (hfirst dMax).mp (by rw [minor_end hm]; exact hentryMin)
            refine .inr ⟨first dMax dMin entryMin, by rw [hat], ⟨by omega, hlast⟩, by omega,
              by omega, track_inter_window hm hn (by omega) hlast (by omega) (by omega) ?_⟩
            intro j _ _
            rw [hfirst]
            omega
    · next hbelow =>
        refine .inr ⟨max 0 entryMax, rfl, ⟨by omega, by omega⟩, by omega, by omega,
          track_inter_window hm hn (by omega) (by omega) (by omega) (by omega) ?_⟩
        intro j hj _
        constructor
        · omega
        · intro hle
          have hmono := minor_mono hm hn hle
          omega

theorem enter_point (hMax : entryMax ≤ 0) (hMin : entryMin ≤ 0) :
    enter 0 0 entryMax entryMin exitMax exitMin = some (some (0, 0)) := by
  have hstay : ¬ entryMin - 0 > 0 := by omega
  simp only [enter, enterMax, if_neg (by omega : ¬ entryMax > 0), Option.bind_eq_bind,
    Option.bind_some, enterMin, if_neg hstay]

/-! ## The loops start there -/

variable {clip : Clip} {buffer : Buffer} {shade : Shade} {x0 y0 x1 y1 dx dy i exitH exitV : Int}

theorem row_eq (k : Int) : (if dy > 0 then y0 + k else y0 - k) = y0 + rise dy * k := by
  unfold rise
  split <;> omega

theorem decision_eq (n m i k : Int) : (2 + i * 2) * n - (1 + k * 2) * m = decision m n i k := by
  unfold decision
  ring

theorem draws_lineHMaxClipped (hlong : |dy| < dx) (hi : 0 ≤ i ∧ i ≤ dx) (hexitH : i ≤ exitH)
    (hexitV : minor dx |dy| i ≤ exitV)
    (hscreen : ∀ p ∈ {(i, minor dx |dy| i)} ∪
      stretch dx |dy| i (min dx exitH) (some (min |dy| exitV)), alongX x0 y0 dy p ∈ screen.valid) :
    Draws screen (drawLineHMaxClipped buffer (x0 + i)
        (if dy > 0 then y0 + minor dx |dy| i else y0 - minor dx |dy| i) dx dy
        ((2 + i * 2) * |dy| - (1 + minor dx |dy| i * 2) * dx) (min (dx - i) (exitH - i))
        (min (|dy| - minor dx |dy| i) (exitV - minor dx |dy| i)) shade) buffer
      (fill (alongX x0 y0 dy '' ({(i, minor dx |dy| i)} ∪
        stretch dx |dy| i (min dx exitH) (some (min |dy| exitV)))) shade) := by
  have hm : 0 < dx := (abs_nonneg dy).trans_lt hlong
  have hle := minor_le hm (abs_nonneg dy) hi.2
  have hlast : min dx exitH = i + ↑(min (dx - i) (exitH - i)).toNat := by omega
  have htop : some (min (|dy| - minor dx |dy| i) (exitV - minor dx |dy| i)) =
      (some (min |dy| exitV)).map (· - minor dx |dy| i) := by
    rw [Option.map_some]
    congr 1
    omega
  rw [hlast] at hscreen ⊢
  rw [drawLineHMaxClipped, htop, decision_eq]
  exact draws_hmax _ hm hlong.le _ rfl (row_eq _) hscreen fun t ht => by
    obtain rfl := Option.mem_some_iff.mp ht
    omega

theorem draws_lineVMaxClipped (hpos : 0 < |dy|) (hdx : 0 ≤ dx) (hlong : dx ≤ |dy|)
    (hi : 0 ≤ i ∧ i ≤ |dy|) (hexitV : i ≤ exitV) (hexitH : minor |dy| dx i ≤ exitH)
    (hscreen : ∀ p ∈ {(i, minor |dy| dx i)} ∪
      stretch |dy| dx i (min |dy| exitV) (some (min dx exitH)), alongY x0 y0 dy p ∈ screen.valid) :
    Draws screen (drawLineVMaxClipped buffer (x0 + minor |dy| dx i)
        (if dy > 0 then y0 + i else y0 - i) dx dy
        ((2 + i * 2) * dx - (1 + minor |dy| dx i * 2) * |dy|)
        (min (dx - minor |dy| dx i) (exitH - minor |dy| dx i)) (min (|dy| - i) (exitV - i)) shade)
        buffer
      (fill (alongY x0 y0 dy '' ({(i, minor |dy| dx i)} ∪
        stretch |dy| dx i (min |dy| exitV) (some (min dx exitH)))) shade) := by
  have hle := minor_le hpos hdx hi.2
  have hlast : min |dy| exitV = i + ↑(min (|dy| - i) (exitV - i)).toNat := by omega
  have htop : some (min (dx - minor |dy| dx i) (exitH - minor |dy| dx i)) =
      (some (min dx exitH)).map (· - minor |dy| dx i) := by
    rw [Option.map_some]
    congr 1
    omega
  rw [hlast] at hscreen ⊢
  rw [drawLineVMaxClipped, htop, decision_eq]
  exact draws_vmax _ hpos hdx hlong _ rfl (row_eq _) hscreen fun t ht => by
    obtain rfl := Option.mem_some_iff.mp ht
    omega

theorem drawLineVMaxClipped_point {d xMax yMax : Int} (h : yMax ≤ 0) :
    drawLineVMaxClipped buffer x0 y0 dx dy d xMax yMax shade = (Dest.at x0 y0).put buffer shade := by
  rw [drawLineVMaxClipped, Int.toNat_of_nonpos h]
  exact Option.bind_fun_some _

/-! ## Whole lines -/

/-- The distances from the start of a line to the edges of the clip area. -/
theorem mem_area_iff {j k : Int} : (x0 + j, y0 + rise dy * k) ∈ clip.area ↔
    (clip.xLeft - x0 ≤ j ∧ j ≤ clip.xRight - x0 - 1) ∧
      (if dy > 0 then clip.yTop - y0 else y0 - clip.yBottom + 1) ≤ k ∧
      k ≤ if dy > 0 then clip.yBottom - y0 - 1 else y0 - clip.yTop := by
  rw [Clip.area, mem_rect, ← row_eq]
  simp only
  split <;> omega

theorem area_subset (h : clip.Valid) {q : Point} (hq : q ∈ clip.area) : q ∈ screen.valid := by
  obtain ⟨hleft, htop, hwidth, hheight, hright, hbottom⟩ := h
  have hq := mem_rect.mp hq
  exact mem_screen.mpr ⟨by omega, by omega⟩

/-- The lines that are rejected at once are outside of the clip area. -/
theorem lineRight_outside (hdx : 0 ≤ dx)
    (hout : dx < clip.xLeft - x0 ∨ clip.xRight - x0 - 1 < 0 ∨
      |dy| < (if dy > 0 then clip.yTop - y0 else y0 - clip.yBottom + 1) ∨
      (if dy > 0 then clip.yBottom - y0 - 1 else y0 - clip.yTop) < 0) :
    lineRight x0 y0 dx dy ∩ clip.area = ∅ := by
  ext q
  simp only [Set.mem_inter_iff, Set.mem_empty_iff_false, iff_false]
  rintro ⟨hline, harea⟩
  have hline := mem_rect.mp (lineRight_bounds hdx hline)
  have harea := mem_rect.mp harea
  rw [← absV_eq] at hout
  unfold absV at hout
  split at hout <;> omega

theorem draws_lineRightClipped (h : clip.Valid) (hdx : 0 ≤ dx) :
    Draws screen (drawLineRightClipped clip buffer x0 y0 dx dy shade) buffer
      (fill (lineRight x0 y0 dx dy ∩ clip.area) shade) := by
  have hpreX : Set.preimage (alongX x0 y0 dy) clip.area = window (clip.xLeft - x0)
      (if dy > 0 then clip.yTop - y0 else y0 - clip.yBottom + 1) (clip.xRight - x0 - 1)
      (if dy > 0 then clip.yBottom - y0 - 1 else y0 - clip.yTop) := Set.ext fun p => mem_area_iff
  have hpreY : Set.preimage (alongY x0 y0 dy) clip.area = window
      (if dy > 0 then clip.yTop - y0 else y0 - clip.yBottom + 1) (clip.xLeft - x0)
      (if dy > 0 then clip.yBottom - y0 - 1 else y0 - clip.yTop) (clip.xRight - x0 - 1) :=
    Set.ext fun p => mem_area_iff.trans and_comm
  have hwideV : (if dy > 0 then clip.yTop - y0 else y0 - clip.yBottom + 1) ≤
      if dy > 0 then clip.yBottom - y0 - 1 else y0 - clip.yTop := by
    have hheight := h.height
    split <;> omega
  have hwideH : clip.xLeft - x0 ≤ clip.xRight - x0 - 1 := by
    have hwidth := h.width
    omega
  simp only [drawLineRightClipped, absV_eq]
  generalize hentryV : (if dy > 0 then clip.yTop - y0 else y0 - clip.yBottom + 1) = entryV at *
  generalize hexitV : (if dy > 0 then clip.yBottom - y0 - 1 else y0 - clip.yTop) = exitV at *
  by_cases hout : dx < clip.xLeft - x0 ∨ clip.xRight - x0 - 1 < 0 ∨ |dy| < entryV ∨ exitV < 0
  · rw [lineRight_outside hdx (by rw [hentryV, hexitV]; exact hout)]
    split
    · exact .nothing
    split
    · exact .nothing
    split
    · exact .nothing
    split
    · exact .nothing
    omega
  · rw [if_neg (by omega), if_neg (by omega), if_neg (by omega), if_neg (by omega)]
    unfold lineRight
    split
    · next hlong =>
        obtain ⟨hreject, hempty⟩ | ⟨i, haccept, hi, hi', hk, hseen⟩ :=
          enter_spec (clip.xLeft - x0) entryV (clip.xRight - x0 - 1) exitV
            ((abs_nonneg dy).trans_lt hlong) (abs_nonneg dy) hlong.le (by omega) (by omega) (by omega)
            (by omega) hwideH hwideV
        · rw [← Set.image_inter_preimage, hpreX, hempty, Set.image_empty, hreject]
          exact .nothing
        · have hscreen : ∀ p ∈ track dx |dy| ∩ window (clip.xLeft - x0) entryV (clip.xRight - x0 - 1)
              exitV, alongX x0 y0 dy p ∈ screen.valid := by
            rw [← hpreX]
            exact fun p hp => area_subset h hp.2
          rw [← Set.image_inter_preimage, hpreX, haccept]
          rw [hseen] at hscreen ⊢
          exact draws_lineHMaxClipped hlong hi hi' hk hscreen
    · next hlong =>
        obtain hpoint | hpos := (abs_nonneg dy).eq_or_lt
        · obtain rfl : dy = 0 := abs_eq_zero.mp hpoint.symm
          obtain rfl : dx = 0 := by omega
          have hmem : (x0, y0) ∈ clip.area := by
            rw [← add_zero x0, ← add_zero y0, ← mul_zero (rise 0), mem_area_iff, hentryV, hexitV]
            exact ⟨⟨by omega, by omega⟩, by omega, by omega⟩
          have hshape : alongY x0 y0 0 '' track |0| 0 ∩ clip.area = {(x0, y0)} := by
            rw [abs_zero, track_eq (Int.le_refl 0), stretch_end (Int.le_refl 0), Set.union_empty,
              Set.image_singleton, alongY, mul_zero, add_zero, add_zero]
            exact Set.inter_eq_left.mpr (Set.singleton_subset_iff.mpr hmem)
          rw [hshape, abs_zero, enter_point (by omega) (by omega)]
          simp only [Option.bind_some]
          rw [drawLineVMaxClipped_point (by omega), if_neg (by omega), add_zero, sub_zero]
          exact draws_put (area_subset h hmem)
        · obtain ⟨hreject, hempty⟩ | ⟨i, haccept, hi, hi', hk, hseen⟩ :=
            enter_spec entryV (clip.xLeft - x0) exitV (clip.xRight - x0 - 1) hpos hdx (by omega)
              (by omega) (by omega) (by omega) (by omega) hwideV hwideH
          · rw [← Set.image_inter_preimage, hpreY, hempty, Set.image_empty, hreject]
            exact .nothing
          · have hscreen : ∀ p ∈ track |dy| dx ∩ window entryV (clip.xLeft - x0) exitV
                (clip.xRight - x0 - 1), alongY x0 y0 dy p ∈ screen.valid := by
              rw [← hpreY]
              exact fun p hp => area_subset h hp.2
            rw [← Set.image_inter_preimage, hpreY, haccept]
            rw [hseen] at hscreen ⊢
            exact draws_lineVMaxClipped hpos hdx (by omega) hi hi' hk hscreen

theorem draws_lineClipped (h : clip.Valid) :
    Draws screen (vfdlibDrawLineClipped clip buffer x0 y0 x1 y1 shade) buffer
      (fill (line x0 y0 x1 y1 ∩ clip.area) shade) := by
  unfold vfdlibDrawLineClipped line
  simp only
  split
  · rw [neg_sub, neg_sub]
    exact draws_lineRightClipped h (by omega)
  · exact draws_lineRightClipped h (by omega)

/-! ## Outlines of polygons -/

/-- The edges from `prev` on. -/
def drawEdges (clip : Clip) (shade : Shade) : Point → List Point → Buffer → Option Buffer
  | _, [], buffer => some buffer
  | prev, q :: coordsData, buffer =>
    (vfdlibDrawLineClipped clip buffer prev.1 prev.2 q.1 q.2 shade).bind fun buffer =>
      drawEdges clip shade q coordsData buffer

/-- The last point is read first: there has to be one. -/
def vfdlibDrawOutlinePolygonClipped (clip : Clip) (buffer : Buffer) (coordsData : List Point)
    (shade : Shade) : Option Buffer := do
  drawEdges clip shade (← coordsData.getLast?) coordsData buffer

/-- The edges of a polygon, closed by the one from the last point to the first. -/
def polygon (coordsData : List Point) : Set Point :=
  {q | ∃ e ∈ (coordsData.getLast?.toList ++ coordsData).zip coordsData,
    q ∈ line e.1.1 e.1.2 e.2.1 e.2.2}

theorem draws_edges (h : clip.Valid) (prev : Point) (coordsData : List Point) :
    Draws screen (drawEdges clip shade prev coordsData buffer) buffer
      (fill ({q | ∃ e ∈ (prev :: coordsData).zip coordsData, q ∈ line e.1.1 e.1.2 e.2.1 e.2.2} ∩
        clip.area) shade) := by
  induction coordsData generalizing prev buffer with
  | nil =>
      simp only [List.zip_nil_right, List.not_mem_nil, false_and, exists_false, Set.ofPred_false,
        Set.empty_inter]
      exact .nothing
  | cons q coordsData ih =>
      have hedges : {p | ∃ e ∈ (prev :: q :: coordsData).zip (q :: coordsData),
            p ∈ line e.1.1 e.1.2 e.2.1 e.2.2} ∩ clip.area =
          line prev.1 prev.2 q.1 q.2 ∩ clip.area ∪
            {p | ∃ e ∈ (q :: coordsData).zip coordsData, p ∈ line e.1.1 e.1.2 e.2.1 e.2.2} ∩
              clip.area := by
        rw [← Set.union_inter_distrib_right]
        congr 1
        ext p
        simp only [List.zip_cons_cons, List.mem_cons, exists_eq_or_imp, Set.mem_ofPred_eq,
          Set.mem_union]
      rw [hedges]
      exact (draws_lineClipped h).union fun _ => ih q

theorem draws_outlinePolygon (h : clip.Valid) {coordsData : List Point} (hne : coordsData ≠ []) :
    Draws screen (vfdlibDrawOutlinePolygonClipped clip buffer coordsData shade) buffer
      (fill (polygon coordsData ∩ clip.area) shade) := by
  have hlast := List.getLast?_eq_some_getLast hne
  unfold vfdlibDrawOutlinePolygonClipped polygon
  rw [hlast]
  exact draws_edges h _ coordsData

end Squash.Vfd
