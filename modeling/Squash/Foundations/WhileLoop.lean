import Mathlib.Logic.Relation
import Mathlib.Tactic.Common

/-!
# Loops

A loop is the body of its turns. A turn fails, goes on with another state or stops with a result.
`run` makes so many turns at most, and `Ends` says that some number of turns is enough for the loop to
stop with a result as it should be.

If a measure goes down, a loop ends so exactly when in every state it comes to the next turn does not
fail, and the result is right if it is the last (`ends_iff`). Two loops whose turns correspond end in
the same way (`ends_congr`).
-/

namespace WhileLoop

variable {σ τ β γ ε : Type*}

inductive Next (σ β : Type*) where
  | goOn (s : σ)
  | stop (result : β)
  deriving DecidableEq, Repr

def run (body : σ → Except ε (Next σ β)) : Nat → σ → Except ε (Option β)
  | 0, _ => .ok none
  | fuel + 1, s =>
    match body s with
    | .error e => .error e
    | .ok (.goOn s) => run body fuel s
    | .ok (.stop result) => .ok (some result)

variable (body : σ → Except ε (Next σ β))

/-- The turn goes on. -/
def Goes (s s' : σ) : Prop := body s = .ok (.goOn s')

/-- The states that the loop comes to. -/
abbrev Reaches : σ → σ → Prop := Relation.ReflTransGen (Goes body)

def Ends (s : σ) (post : β → Prop) : Prop :=
  ∃ turns, ∀ fuel, turns ≤ fuel → ∃ result, run body fuel s = .ok (some result) ∧ post result

/-- A turn does not fail, and its result is right if it is the last. -/
def Fine (post : β → Prop) : Except ε (Next σ β) → Prop
  | .error _ => False
  | .ok (.goOn _) => True
  | .ok (.stop result) => post result

variable {body} {s s' : σ} {post : β → Prop}

theorem ends_goOn (h : Goes body s s') : Ends body s post ↔ Ends body s' post := by
  have hrun : ∀ fuel, run body (fuel + 1) s = run body fuel s' := by
    intro fuel
    rw [run, h]
  constructor
  · rintro ⟨turns, hends⟩
    refine ⟨turns, ?_⟩
    intro fuel hfuel
    rw [← hrun]
    exact hends (fuel + 1) (Nat.le_add_right_of_le hfuel)
  · rintro ⟨turns, hends⟩
    refine ⟨turns + 1, ?_⟩
    intro fuel hfuel
    obtain ⟨fuel, rfl⟩ := Nat.exists_eq_add_of_le' hfuel
    rw [← Nat.add_assoc, hrun]
    exact hends (fuel + turns) (Nat.le_add_left turns fuel)

theorem ends_reaches (h : Reaches body s s') : Ends body s post ↔ Ends body s' post := by
  induction h with
  | refl => rfl
  | tail _ hstep ih => exact ih.trans (ends_goOn hstep)

/-- A loop that ends has no turn that fails. -/
theorem Ends.fine (h : Ends body s post) : Fine post (body s) := by
  obtain ⟨turns, hends⟩ := h
  obtain ⟨result, hrun, hpost⟩ := hends (turns + 1) (Nat.le_add_right turns 1)
  rw [run] at hrun
  cases hbody : body s with
  | error e => simp [hbody] at hrun
  | ok turn =>
      cases turn with
      | goOn s' => trivial
      | stop result' =>
          obtain rfl : result' = result := by simpa [hbody] using hrun
          exact hpost

/-- **The loop ends as it should exactly when every turn is fine.** -/
theorem ends_iff {measure : σ → Nat} (hmeasure : ∀ s s', Goes body s s' → measure s' < measure s)
    (s : σ) (post : β → Prop) :
    Ends body s post ↔ ∀ s', Reaches body s s' → Fine post (body s') := by
  constructor
  · intro hends s' hreaches
    exact ((ends_reaches hreaches).mp hends).fine
  · induction hn : measure s using Nat.strongRecOn generalizing s with
    | ind n ih =>
        intro hfine
        have hturn := hfine s .refl
        cases hbody : body s with
        | error e => simp [hbody, Fine] at hturn
        | ok turn =>
            cases turn with
            | goOn s' =>
                have hless : measure s' < n := hn ▸ hmeasure s s' hbody
                exact (ends_goOn hbody).mpr
                  (ih _ hless s' rfl fun t ht => hfine t (.head hbody ht))
            | stop result =>
                refine ⟨1, ?_⟩
                intro fuel hfuel
                obtain ⟨fuel, rfl⟩ := Nat.exists_eq_add_of_le' hfuel
                exact ⟨result, by rw [run, hbody], by simpa [hbody, Fine] using hturn⟩

/-- The turns of two loops correspond. -/
inductive Corresponds (R : σ → τ → Prop) (Q : β → γ → Prop) :
    Except ε (Next σ β) → Except ε (Next τ γ) → Prop where
  | error (e : ε) : Corresponds R Q (.error e) (.error e)
  | goOn {s : σ} {t : τ} (h : R s t) : Corresponds R Q (.ok (.goOn s)) (.ok (.goOn t))
  | stop {b : β} {c : γ} (h : Q b c) : Corresponds R Q (.ok (.stop b)) (.ok (.stop c))

/-- **Loops whose turns correspond end in the same way.** -/
theorem ends_congr {body' : τ → Except ε (Next τ γ)} {R : σ → τ → Prop} {Q : β → γ → Prop}
    (hbody : ∀ s t, R s t → Corresponds R Q (body s) (body' t)) {post' : γ → Prop}
    (hpost : ∀ b c, Q b c → (post b ↔ post' c)) {t : τ} (h : R s t) :
    Ends body s post ↔ Ends body' t post' := by
  have hrun : ∀ fuel s t, R s t →
      ((∃ b, run body fuel s = .ok (some b) ∧ post b) ↔
        ∃ c, run body' fuel t = .ok (some c) ∧ post' c) := by
    intro fuel
    induction fuel with
    | zero => simp [run]
    | succ fuel ih =>
        intro s t h
        have hturn := hbody s t h
        rw [run, run]
        generalize body s = turn at hturn ⊢
        generalize body' t = turn' at hturn ⊢
        cases hturn with
        | error e => simp
        | goOn h => exact ih _ _ h
        | stop h => simpa using hpost _ _ h
  exact exists_congr fun turns => forall₂_congr fun fuel _ => hrun fuel s t h

end WhileLoop
