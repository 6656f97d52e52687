import Mathlib.Data.Set.Basic
import Mathlib.Tactic.Common

/-!
# Pictures

A canvas shows a colour at each of its points. What an operation draws is a layer: a colour, or
nothing, for each point. `Draws` says that an operation does not fail and leaves the layer over the
picture that was there.

Layers are put over each other (`Draws.bind`), and what is drawn part by part is drawn as a whole
(`Draws.union`).
-/

namespace Picture

variable {σ p c : Type*}

/-- The points of a canvas, and the colour that a state of it shows at each of them. -/
structure Canvas (σ p c : Type*) where
  valid : Set p
  pixel : σ → p → c

/-! ## Layers -/

def blank : p → Option c := fun _ => none

/-- One layer over another. -/
def overlay (top bottom : p → Option c) : p → Option c := fun q => (top q).or (bottom q)

open Classical in
/-- What a layer has in a region. -/
noncomputable def within (region : Set p) (layer : p → Option c) : p → Option c :=
  fun q => if q ∈ region then layer q else none

/-- A region of one colour. -/
noncomputable abbrev fill (region : Set p) (x : c) : p → Option c := within region fun _ => some x

variable {A B : Set p} {layer layer' : p → Option c} {x : c} {q : p}

theorem within_of_mem (h : q ∈ A) : within A layer q = layer q := if_pos h

theorem within_of_notMem (h : q ∉ A) : within A layer q = none := if_neg h

theorem fill_of_mem (h : q ∈ A) : fill A x q = some x := within_of_mem h

theorem fill_of_notMem (h : q ∉ A) : fill A x q = none := within_of_notMem h

@[simp] theorem within_empty (layer : p → Option c) : within (∅ : Set p) layer = blank :=
  funext fun q => within_of_notMem (Set.notMem_empty q)

theorem within_within : within A (within B layer) = within (A ∩ B) layer := by
  funext q
  by_cases hA : q ∈ A
  · rw [within_of_mem hA]
    by_cases hB : q ∈ B
    · rw [within_of_mem hB, within_of_mem (Set.mem_inter hA hB)]
    · rw [within_of_notMem hB, within_of_notMem (fun h => hB (Set.mem_of_mem_inter_right h))]
  · rw [within_of_notMem hA, within_of_notMem (fun h => hA (Set.mem_of_mem_inter_left h))]

theorem overlay_within (A B : Set p) (layer : p → Option c) :
    overlay (within B layer) (within A layer) = within (A ∪ B) layer := by
  funext q
  by_cases hB : q ∈ B
  · rw [overlay, within_of_mem hB, within_of_mem (Set.mem_union_right A hB)]
    by_cases hA : q ∈ A
    · rw [within_of_mem hA, Option.or_self]
    · rw [within_of_notMem hA, Option.or_none]
  · rw [overlay, within_of_notMem hB, Option.none_or]
    by_cases hA : q ∈ A
    · rw [within_of_mem hA, within_of_mem (Set.mem_union_left B hA)]
    · rw [within_of_notMem hA, within_of_notMem (fun h => h.elim hA hB)]

/-! ## Drawing -/

variable (canvas : Canvas σ p c)

/-- The operation goes well, and leaves the layer over the picture that was there. -/
def Draws (op : Option σ) (s : σ) (layer : p → Option c) : Prop :=
  ∃ s', op = some s' ∧ ∀ q ∈ canvas.valid, canvas.pixel s' q = (layer q).getD (canvas.pixel s q)

variable {canvas} {op : Option σ} {f : σ → Option σ} {s : σ}

theorem Draws.blank : Draws canvas (some s) s blank :=
  ⟨s, rfl, fun _ _ => rfl⟩

theorem Draws.nothing : Draws canvas (some s) s (within ∅ layer) :=
  within_empty layer ▸ Draws.blank

theorem Draws.congr (h : Draws canvas op s layer) (heq : ∀ q ∈ canvas.valid, layer q = layer' q) :
    Draws canvas op s layer' := by
  obtain ⟨s', hop, hpixel⟩ := h
  refine ⟨s', hop, ?_⟩
  intro q hq
  rw [hpixel q hq, heq q hq]

/-- One operation after another. -/
theorem Draws.bind (h : Draws canvas op s layer) (hf : ∀ s', Draws canvas (f s') s' layer') :
    Draws canvas (op.bind f) s (overlay layer' layer) := by
  obtain ⟨s', hop, hpixel⟩ := h
  obtain ⟨s'', hop', hpixel'⟩ := hf s'
  refine ⟨s'', by rw [hop]; exact hop', ?_⟩
  intro q hq
  rw [hpixel' q hq, hpixel q hq, overlay]
  cases layer' q <;> rfl

/-- **What is drawn part by part is drawn as a whole.** -/
theorem Draws.union (h : Draws canvas op s (within A layer))
    (hf : ∀ s', Draws canvas (f s') s' (within B layer)) :
    Draws canvas (op.bind f) s (within (A ∪ B) layer) :=
  overlay_within A B layer ▸ h.bind hf

end Picture
