import Mathlib.Data.List.Induction
import Squash.Foundations.Transition

/-!
# Counting down along a trace

Some events of a trace are counted, and some of the counted ones are hits. The trace keeps a
countdown of `N` when each counted event is a hit exactly if the counter, which starts at `c` and
goes down by one modulo `N` with every counted event, stands at 0. Then there are exactly `N - 1`
counted events between a hit and the next one (`countP_between`).
-/

namespace Countdown

open Transition

variable {ε : Type*} {counted hit : ε → Bool} {c : Int} {N : Nat} {t pre mid post : List ε} {x y : ε}

/-- A counted event is a hit exactly when the counter stands at 0. -/
def Ticks (counted hit : ε → Bool) (c : Int) (N : Nat) (past : List ε) (e : ε) : Prop :=
  (hit e → counted e) ∧ (counted e → (hit e ↔ (N : Int) ∣ c - past.countP counted))

/-- A trace keeps the countdown. -/
abbrev Keeps (counted hit : ε → Bool) (c : Int) (N : Nat) : List ε → Prop :=
  Lawful (Ticks counted hit c N)

/-- After a hit the counter has to go around before the next one. -/
theorem countP_lt (h : Keeps counted hit c N (pre ++ x :: mid)) (hN : 0 < N) (hx : hit x)
    (hmid : ∀ e ∈ mid, ¬ hit e) : mid.countP counted < N := by
  have htick := h pre x mid rfl
  have hcounted := htick.1 hx
  have hstart := (htick.2 hcounted).mp hx
  induction mid using List.reverseRecOn with
  | nil => simpa using hN
  | append_singleton mid e ih =>
      have hshorter : Keeps counted hit c N (pre ++ x :: mid) := by
        rw [← List.cons_append, ← List.append_assoc] at h
        exact (lawful_snoc.mp h).1
      have hlt := ih hshorter (fun d hd => hmid d (List.mem_append_left _ hd))
      rw [List.countP_append, List.countP_singleton]
      by_cases he : counted e
      · -- the counter does not stand at 0, because the event is not a hit
        have hmiss := hmid e (List.mem_append_right _ (List.mem_singleton_self e))
        have hnot := mt (((h (pre ++ x :: mid) e [] (by simp)).2 he).mpr) hmiss
        rw [List.countP_append, List.countP_cons, if_pos hcounted] at hnot
        rw [if_pos he]
        by_contra hge
        apply hnot
        have hround : c - ((pre.countP counted + (mid.countP counted + 1) : Nat) : Int) =
            (c - pre.countP counted) - N := by omega
        rw [hround]
        exact Int.dvd_sub hstart (Int.dvd_refl _)
      · rw [if_neg he]
        omega

/-- **Between a hit and the next one there are `N - 1` counted events.** -/
theorem countP_between (h : Keeps counted hit c N t) (hN : 0 < N)
    (ht : t = pre ++ x :: mid ++ y :: post) (hx : hit x) (hy : hit y)
    (hmid : ∀ e ∈ mid, ¬ hit e) : mid.countP counted + 1 = N := by
  subst ht
  have hfirst := h pre x (mid ++ y :: post) (by simp)
  have hstart := (hfirst.2 (hfirst.1 hx)).mp hx
  have hlast := h (pre ++ x :: mid) y post rfl
  have hend := (hlast.2 (hlast.1 hy)).mp hy
  have hlt := countP_lt (lawful_append.mp h).1 hN hx hmid
  rw [List.countP_append, List.countP_cons, if_pos (hfirst.1 hx)] at hend
  have hgap : (N : Int) ∣ ((mid.countP counted + 1 : Nat) : Int) := by
    have hdiff : ((mid.countP counted + 1 : Nat) : Int) = (c - pre.countP counted) -
        (c - ((pre.countP counted + (mid.countP counted + 1) : Nat) : Int)) := by omega
    rw [hdiff]
    exact Int.dvd_sub hstart hend
  have hle := Nat.le_of_dvd (Nat.succ_pos _) (Int.natCast_dvd_natCast.mp hgap)
  omega

end Countdown
