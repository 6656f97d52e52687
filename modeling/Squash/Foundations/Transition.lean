import Mathlib.Data.List.Basic
import Mathlib.Tactic.Common

/-!
# Partial labelled steps and properties of whole runs

A system is a partial step `σ → ℓ → Option σ`: a label is enabled in a state exactly when the step
answers `some`. A run is a list of labels; it goes on as long as its labels are enabled. Two
properties of a run matter here:

* `Always P` — every state the run passes through satisfies `P`;
* `Guarded G` — every step the run really takes satisfies `G` in the state before it.

The rules below turn facts about one step into facts about runs: `always_of_step` is the plain
invariant rule, `always_of_guarded` the rule for invariants that need the guard, and
`always_iff_guarded` says that the guard is exact when each step that fails it breaks `P`.
-/

namespace Transition

variable {σ ℓ ε : Type*}

/-- The state reached by the labels, or `none` if one of them is not enabled on the way. -/
def run (step : σ → ℓ → Option σ) : σ → List ℓ → Option σ
  | s, [] => some s
  | s, l :: ls => (step s l).bind fun s' => run step s' ls

/-- Every state on the way satisfies `P`. -/
def Always (step : σ → ℓ → Option σ) (P : σ → Prop) : σ → List ℓ → Prop
  | s, [] => P s
  | s, l :: ls => P s ∧ ∀ s', step s l = some s' → Always step P s' ls

/-- Every step taken on the way satisfies `G`. -/
def Guarded (step : σ → ℓ → Option σ) (G : σ → ℓ → Prop) : σ → List ℓ → Prop
  | _, [] => True
  | s, l :: ls => ∀ s', step s l = some s' → G s l ∧ Guarded step G s' ls

variable {step : σ → ℓ → Option σ} {P Inv : σ → Prop} {G : σ → ℓ → Prop}

instance decidableAlways [DecidablePred P] (s : σ) :
    (ls : List ℓ) → Decidable (Always step P s ls)
  | [] => inferInstanceAs (Decidable (P s))
  | l :: ls =>
    match h : step s l with
    | none => decidable_of_iff (P s) (by simp [Always, h])
    | some s' =>
      have := decidableAlways s' ls
      decidable_of_iff (P s ∧ Always step P s' ls) (by simp [Always, h])

instance decidableGuarded [∀ s l, Decidable (G s l)] (s : σ) :
    (ls : List ℓ) → Decidable (Guarded step G s ls)
  | [] => isTrue trivial
  | l :: ls =>
    match h : step s l with
    | none => isTrue (by simp [Guarded, h])
    | some s' =>
      have := decidableGuarded s' ls
      decidable_of_iff (G s l ∧ Guarded step G s' ls) (by simp [Guarded, h])

/-! ## Runs -/

@[simp] theorem run_nil (s : σ) : run step s [] = some s := rfl

theorem run_cons (s : σ) (l : ℓ) (ls : List ℓ) :
    run step s (l :: ls) = (step s l).bind fun s' => run step s' ls := rfl

theorem run_append (s : σ) (ls ms : List ℓ) :
    run step s (ls ++ ms) = (run step s ls).bind fun s' => run step s' ms := by
  induction ls generalizing s with
  | nil => rfl
  | cons l ls ih =>
      rw [List.cons_append, run_cons, run_cons, Option.bind_assoc]
      exact congrArg _ (funext ih)

/-! ## `Always` -/

theorem Always.head {s : σ} {ls : List ℓ} (h : Always step P s ls) : P s := by
  cases ls with
  | nil => exact h
  | cons l ls => exact h.1

theorem Always.mono {Q : σ → Prop} {s : σ} {ls : List ℓ} (h : Always step P s ls)
    (hPQ : ∀ s, P s → Q s) : Always step Q s ls := by
  induction ls generalizing s with
  | nil => exact hPQ s h
  | cons l ls ih => exact ⟨hPQ s h.1, fun s' hs' => ih (h.2 s' hs')⟩

/-- The property holds in particular where a prefix of the labels leads. -/
theorem Always.at_prefix {s t : σ} (ls : List ℓ) {m : List ℓ} (h : Always step P s (ls ++ m))
    (hrun : run step s ls = some t) : P t := by
  induction ls generalizing s with
  | nil =>
      cases hrun
      exact h.head
  | cons l ls ih =>
      obtain ⟨s', hs', hrest⟩ := Option.bind_eq_some_iff.mp hrun
      exact ih (h.2 s' hs') hrest

/-- The property holds in particular where all the labels lead. -/
theorem Always.at_end {s t : σ} {ls : List ℓ} (h : Always step P s ls)
    (hrun : run step s ls = some t) : P t :=
  Always.at_prefix ls (m := []) (by simpa using h) hrun

/-- **The invariant rule.** What every step preserves and what gives `P` makes `P` hold all along
every run. -/
theorem always_of_step (hP : ∀ s, Inv s → P s)
    (hstep : ∀ s l s', Inv s → step s l = some s' → Inv s') {s : σ} (hs : Inv s) (ls : List ℓ) :
    Always step P s ls := by
  induction ls generalizing s with
  | nil => exact hP s hs
  | cons l ls ih => exact ⟨hP s hs, fun s' hs' => ih (hstep s l s' hs hs')⟩

/-- To hold along a run and after one more `l` at any point of it. -/
theorem always_next_iff {l : ℓ} {s : σ} {ls : List ℓ} :
    Always step (fun s => P s ∧ ∀ s', step s l = some s' → P s') s ls ↔
      ∀ pre, pre <+: ls → Always step P s (pre ++ [l]) := by
  induction ls generalizing s with
  | nil =>
      constructor
      · intro h pre hpre
        obtain rfl := List.prefix_nil.mp hpre
        exact h
      · intro h
        exact h [] (List.prefix_refl [])
  | cons m ls ih =>
      constructor
      · intro h pre hpre
        cases pre with
        | nil => exact h.1
        | cons m' pre =>
            obtain ⟨rfl, hrest⟩ := List.cons_prefix_cons.mp hpre
            refine ⟨h.1.1, ?_⟩
            intro s' hs'
            exact ih.mp (h.2 s' hs') pre hrest
      · intro h
        refine ⟨h [] List.nil_prefix, ?_⟩
        intro s' hs'
        apply ih.mpr
        intro pre hpre
        exact (h (m :: pre) (List.cons_prefix_cons.mpr ⟨rfl, hpre⟩)).2 s' hs'

/-! ## `Guarded` -/

/-- **The guarded invariant rule**: the same for the runs whose steps all meet the guard. -/
theorem always_of_guarded (hP : ∀ s, Inv s → P s)
    (hstep : ∀ s l s', Inv s → G s l → step s l = some s' → Inv s') {s : σ} {ls : List ℓ}
    (hs : Inv s) (hG : Guarded step G s ls) : Always step P s ls := by
  induction ls generalizing s with
  | nil => exact hP s hs
  | cons l ls ih =>
      exact ⟨hP s hs, fun s' hs' => ih (hstep s l s' hs (hG s' hs').1 hs') (hG s' hs').2⟩

/-- **The exact guard rule.** If guarded steps preserve an invariant that gives `P`, and a step
from an invariant state that fails the guard breaks `P`, then a run keeps `P` exactly when all its
steps meet the guard. -/
theorem always_iff_guarded (hP : ∀ s, Inv s → P s)
    (hstep : ∀ s l s', Inv s → G s l → step s l = some s' → Inv s')
    (hbreak : ∀ s l s', Inv s → ¬ G s l → step s l = some s' → ¬ P s')
    {s : σ} (hs : Inv s) (ls : List ℓ) : Always step P s ls ↔ Guarded step G s ls := by
  constructor
  · intro h
    induction ls generalizing s with
    | nil => trivial
    | cons l ls ih =>
        intro s' hs'
        -- the state after the step satisfies `P`, so the step met the guard
        have hG : G s l := by
          by_contra hno
          exact hbreak s l s' hs hno hs' (h.2 s' hs').head
        exact ⟨hG, ih (hstep s l s' hs hG hs') (h.2 s' hs')⟩
  · exact fun hG => always_of_guarded hP hstep hs hG

/-! ## Simulation -/

/-- **The simulation rule.** If a relation to an abstract state lets every step happen and follows
it, then every run happens, and leads to where the abstract steps lead. -/
theorem run_simulates {τ : Type*} {spec : τ → ℓ → τ} {R : σ → τ → Prop}
    (hstep : ∀ s a l, R s a → ∃ s', step s l = some s' ∧ R s' (spec a l)) {s : σ} {a : τ}
    (h : R s a) (ls : List ℓ) : ∃ s', run step s ls = some s' ∧ R s' (ls.foldl spec a) := by
  induction ls generalizing s a with
  | nil => exact ⟨s, rfl, h⟩
  | cons l ls ih =>
      obtain ⟨s', hs', hR⟩ := hstep s a l h
      obtain ⟨t, ht, hR'⟩ := ih hR
      refine ⟨t, ?_, hR'⟩
      rw [run_cons, hs']
      exact ht

/-! ## Observed runs

Many properties speak about what a run has done so far and not only about the state it is in. A
step that reports events becomes a step on pairs of a state and the events reported, oldest
first. -/

/-- Follow a reporting step and keep what it reports. -/
def observe (step : σ → ℓ → Option (σ × List ε)) (s : σ × List ε) (l : ℓ) :
    Option (σ × List ε) :=
  (step s.1 l).map fun r => (r.1, s.2 ++ r.2)

theorem observe_eq_some {step : σ → ℓ → Option (σ × List ε)} {s s' : σ × List ε} {l : ℓ} :
    observe step s l = some s' ↔
      ∃ t es, step s.1 l = some (t, es) ∧ s' = (t, s.2 ++ es) := by
  unfold observe
  constructor
  · intro h
    obtain ⟨⟨t, es⟩, hstep, hs'⟩ := Option.map_eq_some_iff.mp h
    exact ⟨t, es, hstep, hs'.symm⟩
  · rintro ⟨t, es, hstep, rfl⟩
    rw [hstep]
    rfl

/-! ## Lawful traces

A safety property of a trace says of each event what must have happened before it. -/

/-- Every event of the trace is allowed by the events before it. -/
def Lawful (allowed : List ε → ε → Prop) (t : List ε) : Prop :=
  ∀ past e future, t = past ++ e :: future → allowed past e

variable {allowed : List ε → ε → Prop}

@[simp] theorem lawful_nil : Lawful allowed [] := by
  intro past e future h
  simp at h

theorem lawful_cons {e : ε} {t : List ε} :
    Lawful allowed (e :: t) ↔ allowed [] e ∧ Lawful (fun past => allowed (e :: past)) t := by
  constructor
  · intro h
    refine ⟨h [] e t rfl, fun past d future ht => h (e :: past) d future ?_⟩
    rw [ht, List.cons_append]
  · rintro ⟨he, ht⟩ past d future heq
    cases past with
    | nil =>
        cases heq
        exact he
    | cons e' past =>
        obtain ⟨rfl, htail⟩ := List.cons_eq_cons.mp heq
        exact ht past d future htail

theorem lawful_append {t u : List ε} :
    Lawful allowed (t ++ u) ↔ Lawful allowed t ∧ Lawful (fun past => allowed (t ++ past)) u := by
  induction t generalizing allowed with
  | nil => simp [lawful_nil]
  | cons e t ih => simp only [List.cons_append, lawful_cons, ih, and_assoc]

theorem lawful_snoc {t : List ε} {e : ε} :
    Lawful allowed (t ++ [e]) ↔ Lawful allowed t ∧ allowed t e := by
  simp [lawful_append, lawful_cons, lawful_nil]

end Transition
