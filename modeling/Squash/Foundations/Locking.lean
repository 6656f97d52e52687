import Mathlib.Data.Fintype.Basic
import Mathlib.Logic.Relation
import Mathlib.Order.Basic
import Squash.Foundations.Transition

/-!
# Locks, what threads do with them, and their order

* `Op` — a lock is acquired or released, shared or exclusively; `effect` is what a sequence of
  operations makes of the locks held, and does not exist if one releases a lock that is not held.
* `Prog` — the locks that a piece of code takes along any of its paths. What decides between the
  paths is left out, so a program may go any way.
* `step` — any number of threads, one after the other in any order, and each waits for the locks
  that others hold.
* `Prog.Path` — the operations along one path; a thread that nobody keeps waiting goes it, and holds
  what `effect` says (`Prog.Path.goes`).

The locks are ordered. `check` runs over a program once, with the locks held before it, and accepts
if each lock that is requested stands behind all that are held, but for the requests behind the
places that are marked, where it must not. `always_ordered_iff` is why the check may be trusted: if
it accepts every thread, then the order is kept in an interleaving exactly as long as no thread
comes to a marked place. Where the order is kept, nobody waits in a circle (`Ordered.acyclic`).
-/

namespace Locking

open Transition

variable {L : Type*}

/-! ## Operations -/

inductive Mode where
  | shared | exclusive
  deriving DecidableEq, Repr

inductive Op (L : Type*) where
  | acquire (mode : Mode) (lock : L)
  | release (mode : Mode) (lock : L)
  deriving DecidableEq, Repr

/-- The locks a thread holds, the latest first. -/
abbrev Held (L : Type*) := List (Mode × L)

section Effect

variable [DecidableEq L]

def Op.effect (held : Held L) : Op L → Option (Held L)
  | .acquire mode lock => some ((mode, lock) :: held)
  | .release mode lock => if (mode, lock) ∈ held then some (held.erase (mode, lock)) else none

/-- A sequence of operations. -/
def effect (ops : List (Op L)) (held : Held L) : Option (Held L) := ops.foldlM Op.effect held

@[simp] theorem effect_nil (held : Held L) : effect [] held = some held := rfl

theorem effect_cons (op : Op L) (ops : List (Op L)) (held : Held L) :
    effect (op :: ops) held = (op.effect held).bind (effect ops) := rfl

@[simp] theorem effect_acquire (mode : Mode) (lock : L) (ops : List (Op L)) (held : Held L) :
    effect (.acquire mode lock :: ops) held = effect ops ((mode, lock) :: held) := rfl

/-- The lock taken last is given back. -/
@[simp] theorem effect_release (mode : Mode) (lock : L) (ops : List (Op L)) (held : Held L) :
    effect (.release mode lock :: ops) ((mode, lock) :: held) = effect ops held := by
  simp [effect_cons, Op.effect]

theorem effect_append (ops more : List (Op L)) (held : Held L) :
    effect (ops ++ more) held = (effect ops held).bind (effect more) := by
  unfold effect
  exact List.foldlM_append

/-- Whatever is held, the operations go through and leave it as it was. -/
def Balanced (ops : List (Op L)) : Prop := ∀ held, effect ops held = some held

theorem balanced_nil : Balanced ([] : List (Op L)) := fun _ => rfl

theorem Balanced.append {ops more : List (Op L)} (h : Balanced ops) (h' : Balanced more) :
    Balanced (ops ++ more) := by
  intro held
  rw [effect_append, h held]
  exact h' held

end Effect

/-! ## Programs -/

/-- What a piece of code does with locks; `T` names places in it. `forever` is a loop that is never
left, and `loop` one that may be left before each turn. To wait for a condition is to give a mutex
back, and to take it again at any time later. -/
inductive Prog (L T : Type*) where
  | skip
  | op (op : Op L)
  | wait (lock : L)
  | seq (first second : Prog L T)
  | either (first second : Prog L T)
  | loop (body : Prog L T)
  | forever (body : Prog L T)
  | reach (place : T)

variable {T : Type*}

/-- One after the other. -/
def Prog.block : List (Prog L T) → Prog L T
  | [] => .skip
  | p :: ps => .seq p (Prog.block ps)

/-- One of them. -/
def Prog.oneOf : List (Prog L T) → Prog L T
  | [] => .skip
  | [p] => p
  | p :: ps => .either p (Prog.oneOf ps)

def Prog.ops (ops : List (Op L)) : Prog L T := .block (ops.map .op)

/-- What a thread has still to do, and the locks it holds. -/
structure Thread (L T : Type*) where
  rest : List (Prog L T)
  held : Held L

/-- The lock that is requested next, and whether there is a marked place before the request. -/
structure Request (L : Type*) where
  marked : Bool
  lock : L
  deriving DecidableEq, Repr

/-- What a program requests next, if it has no other way and does nothing else before; `next` is what
is requested behind the program. -/
def Prog.request : Prog L T → Option (Request L) → Option (Request L)
  | .skip, next => next
  | .op (.acquire _ lock), _ => some ⟨false, lock⟩
  | .op (.release _ _), _ => none
  | .wait _, _ => none
  | .seq p q, next => p.request (q.request next)
  | .either _ _, _ => none
  | .loop _, _ => none
  | .forever p, _ => p.request none
  | .reach _, next => next.map fun r => { r with marked := true }

def nextRequest (rest : List (Prog L T)) : Option (Request L) := rest.foldr Prog.request none

def Thread.Requests (t : Thread L T) (lock : L) : Prop :=
  (nextRequest t.rest).map Request.lock = some lock

/-- The thread has come to a marked place. -/
def Thread.atPlace (t : Thread L T) : Bool := (nextRequest t.rest).any Request.marked

/-- A thread waits for one lock. -/
theorem Thread.Requests.unique {t : Thread L T} {lock lock' : L} (h : t.Requests lock)
    (h' : t.Requests lock') : lock = lock' :=
  Option.some.inj (h.symm.trans h')

theorem Prog.request_mono (p : Prog L T) {next next' : Option (Request L)}
    (h : ∀ r, next' = some r → next = some r) {r : Request L} (hr : p.request next' = some r) :
    p.request next = some r := by
  induction p generalizing next next' r with
  | skip => exact h r hr
  | op op =>
      cases op with
      | acquire mode lock => exact hr
      | release mode lock => cases hr
  | wait lock => cases hr
  | seq p q ihp ihq => exact ihp (fun r hr => ihq h hr) hr
  | either p q => cases hr
  | loop p => cases hr
  | forever p ih => exact hr
  | reach place =>
      obtain ⟨r', hr', rfl⟩ := Option.map_eq_some_iff.mp hr
      rw [Prog.request, h r' hr']
      rfl

/-! ## Steps -/

variable {ι : Type*}

/-- Nobody holds the lock in a way that keeps the request from being granted. -/
def Available (s : ι → Thread L T) (mode : Mode) (lock : L) : Prop :=
  ∀ i, ∀ held ∈ (s i).held, held.2 = lock → mode = .shared ∧ held.1 = .shared

instance [Fintype ι] [DecidableEq L] (s : ι → Thread L T) (mode : Mode) (lock : L) :
    Decidable (Available s mode lock) :=
  inferInstanceAs (Decidable (∀ i, ∀ held ∈ (s i).held, _))

section Step

variable [DecidableEq L]

/-- A thread goes on; `way` says which way where it has the choice. A release of a lock that is not
held has no effect. -/
def Thread.step (t : Thread L T) (available : Mode → L → Bool) (way : Bool) :
    Option (Thread L T) :=
  match t.rest with
  | [] => none
  | .skip :: rest | .reach _ :: rest => some { t with rest }
  | .op (.acquire mode lock) :: rest =>
    if available mode lock then some ⟨rest, (mode, lock) :: t.held⟩ else none
  | .op (.release mode lock) :: rest => some ⟨rest, t.held.erase (mode, lock)⟩
  | .wait lock :: rest =>
    some ⟨.op (.acquire .exclusive lock) :: rest, t.held.erase (.exclusive, lock)⟩
  | .seq p q :: rest => some { t with rest := p :: q :: rest }
  | .either p q :: rest => some { t with rest := (if way then p else q) :: rest }
  | .loop p :: rest => some { t with rest := if way then p :: .loop p :: rest else rest }
  | .forever p :: rest => some { t with rest := p :: .forever p :: rest }

/-- This way the thread comes to a marked place. -/
def Thread.comesToPlace (t : Thread L T) (way : Bool) : Bool :=
  (t.step (fun _ _ => true) way).any Thread.atPlace

/-- If the thread may go on, it comes where it would come if no lock were taken. -/
theorem Thread.step_of_available {t t' : Thread L T} {available : Mode → L → Bool} {way : Bool}
    (h : t.step available way = some t') : t.step (fun _ _ => true) way = some t' := by
  obtain ⟨rest, held⟩ := t
  cases rest with
  | nil => exact h
  | cons p rest =>
      cases p with
      | op op =>
          cases op with
          | acquire mode lock =>
              simp only [Thread.step] at h
              split at h
              · exact h
              · cases h
          | release mode lock => exact h
      | _ => exact h

/-- One of the threads goes on. -/
def step [Fintype ι] [DecidableEq ι] (s : ι → Thread L T) (l : ι × Bool) :
    Option (ι → Thread L T) :=
  ((s l.1).step (fun mode lock => Available s mode lock) l.2).map (Function.update s l.1)

/-- What a step is. -/
theorem step_eq_some [Fintype ι] [DecidableEq ι] {s s' : ι → Thread L T} {l : ι × Bool}
    (h : step s l = some s') :
    ∃ t, (s l.1).step (fun mode lock => Available s mode lock) l.2 = some t ∧
      (s l.1).comesToPlace l.2 = t.atPlace ∧ s' = Function.update s l.1 t := by
  obtain ⟨t, hstep, rfl⟩ := Option.map_eq_some_iff.mp h
  refine ⟨t, hstep, ?_, rfl⟩
  rw [Thread.comesToPlace, Thread.step_of_available hstep]
  rfl

end Step

/-! ## Paths -/

/-- The operations along one of the paths through a program that come out of it. -/
inductive Prog.Path : Prog L T → List (Op L) → Prop
  | skip : Path .skip []
  | op (op : Op L) : Path (.op op) [op]
  | wait (lock : L) : Path (.wait lock) [.release .exclusive lock, .acquire .exclusive lock]
  | seq {p q : Prog L T} {ops more : List (Op L)} :
      Path p ops → Path q more → Path (.seq p q) (ops ++ more)
  | first {p q : Prog L T} {ops : List (Op L)} : Path p ops → Path (.either p q) ops
  | second {p q : Prog L T} {ops : List (Op L)} : Path q ops → Path (.either p q) ops
  | leave {p : Prog L T} : Path (.loop p) []
  | again {p : Prog L T} {ops more : List (Op L)} :
      Path p ops → Path (.loop p) more → Path (.loop p) (ops ++ more)
  | reach (place : T) : Path (.reach place) []

theorem Prog.path_block {ps : List (Prog L T)} {parts : List (List (Op L))} {ops : List (Op L)}
    (h : List.Forall₂ Prog.Path ps parts) (hops : parts.flatten = ops) :
    Prog.Path (Prog.block ps) ops := by
  subst hops
  induction h with
  | nil => exact .skip
  | cons hp _ ih => exact .seq hp ih

theorem Prog.path_ops (ops : List (Op L)) : Prog.Path (Prog.ops ops : Prog L T) ops := by
  induction ops with
  | nil => exact .skip
  | cons op ops ih => exact .seq (.op op) ih

theorem Prog.path_loop {p : Prog L T} {turns : List (List (Op L))}
    (h : ∀ ops ∈ turns, Prog.Path p ops) : Prog.Path (.loop p) turns.flatten := by
  induction turns with
  | nil => exact .leave
  | cons ops turns ih =>
      obtain ⟨hops, hturns⟩ := List.forall_mem_cons.mp h
      exact .again hops (ih hturns)

section Alone

variable [DecidableEq L]

/-- The thread goes on as if no lock were taken by others. -/
def Thread.Goes : Thread L T → Thread L T → Prop :=
  Relation.ReflTransGen fun t t' => ∃ way, t.step (fun _ _ => true) way = some t'

theorem Thread.goes_step {t t' : Thread L T} (way : Bool)
    (h : t.step (fun _ _ => true) way = some t') : t.Goes t' :=
  .single ⟨way, h⟩

/-- **A path is gone.** If the operations go through, they are what the thread does. -/
theorem Prog.Path.goes {p : Prog L T} {ops : List (Op L)} (h : Prog.Path p ops)
    {held held' : Held L} (heffect : effect ops held = some held') (rest : List (Prog L T)) :
    Thread.Goes ⟨p :: rest, held⟩ ⟨rest, held'⟩ := by
  induction h generalizing held held' rest with
  | skip =>
      cases heffect
      exact Thread.goes_step true rfl
  | op op =>
      apply Thread.goes_step true
      cases op with
      | acquire mode lock =>
          cases heffect
          rfl
      | release mode lock =>
          rw [effect_cons] at heffect
          obtain ⟨held₁, hrelease, hend⟩ := Option.bind_eq_some_iff.mp heffect
          cases hend
          simp only [Op.effect] at hrelease
          split at hrelease
          · cases hrelease
            rfl
          · cases hrelease
  | wait lock =>
      rw [effect_cons] at heffect
      obtain ⟨held₁, hrelease, hend⟩ := Option.bind_eq_some_iff.mp heffect
      cases hend
      simp only [Op.effect] at hrelease
      split at hrelease
      · cases hrelease
        -- the mutex is given back, and taken again
        apply (Thread.goes_step true rfl).trans
        exact Thread.goes_step true rfl
      · cases hrelease
  | seq _ _ ihp ihq =>
      rw [effect_append] at heffect
      obtain ⟨held₁, hfirst, hsecond⟩ := Option.bind_eq_some_iff.mp heffect
      apply (Thread.goes_step true rfl).trans
      exact (ihp hfirst _).trans (ihq hsecond rest)
  | first _ ih =>
      apply (Thread.goes_step true rfl).trans
      exact ih heffect rest
  | second _ ih =>
      apply (Thread.goes_step false rfl).trans
      exact ih heffect rest
  | leave =>
      cases heffect
      exact Thread.goes_step false rfl
  | again _ _ ihp ihloop =>
      rw [effect_append] at heffect
      obtain ⟨held₁, hturn, hmore⟩ := Option.bind_eq_some_iff.mp heffect
      apply (Thread.goes_step true rfl).trans
      exact (ihp hturn _).trans (ihloop hmore rest)
  | reach place =>
      cases heffect
      exact Thread.goes_step true rfl

/-- A turn of a loop that is never left. -/
theorem Prog.Path.goes_forever {p : Prog L T} {ops : List (Op L)} (h : Prog.Path p ops)
    {held held' : Held L} (heffect : effect ops held = some held') (rest : List (Prog L T)) :
    Thread.Goes ⟨.forever p :: rest, held⟩ ⟨.forever p :: rest, held'⟩ := by
  apply (Thread.goes_step true rfl).trans
  exact h.goes heffect (.forever p :: rest)

end Alone

/-- At the beginning no thread holds a lock. -/
def start (prog : ι → Prog L T) (i : ι) : Thread L T := ⟨[prog i], []⟩

/-! ## What is held behind a program -/

/-- What is held where the control comes out of a program, if it comes out at all. -/
inductive Outcome (L : Type*) where
  | never
  | holding (held : Held L)
  deriving DecidableEq, Repr

section Outcome

variable [DecidableEq L]

/-- Behind two branches, which must agree. -/
def Outcome.join : Outcome L → Outcome L → Option (Outcome L)
  | .never, o | o, .never => some o
  | .holding held, .holding held' => if held = held' then some (.holding held) else none

/-- The body of a loop comes back, if at all, with the locks it was entered with. -/
def Outcome.comesBack (held : Held L) : Outcome L → Bool
  | .never => true
  | .holding held' => held' = held

theorem Outcome.join_eq_some {o o' r : Outcome L} (h : o.join o' = some r) :
    (o = .never ∨ o = r) ∧ (o' = .never ∨ o' = r) := by
  cases o with
  | never =>
      have hr : o' = r := by cases o' <;> exact Option.some.inj h
      exact ⟨.inl rfl, .inr hr⟩
  | holding held =>
      cases o' with
      | never => exact ⟨.inr (Option.some.inj h), .inl rfl⟩
      | holding held' =>
          simp only [Outcome.join] at h
          split at h
          · next heq =>
              cases h
              exact ⟨.inr rfl, .inr (congrArg _ heq.symm)⟩
          · cases h

theorem Outcome.eq_of_comesBack {held held' : Held L}
    (h : (Outcome.holding held').comesBack held = true) : held' = held :=
  of_decide_eq_true h

end Outcome

/-! ## The order -/

section Order

variable [Preorder L]

/-- Who requests a lock only holds locks before it. -/
def Ordered (s : ι → Thread L T) : Prop :=
  ∀ i lock, (s i).Requests lock → ∀ held ∈ (s i).held, held.2 < lock

/-- `i` requests a lock that `j` holds. -/
def WaitsFor (s : ι → Thread L T) (i j : ι) : Prop :=
  ∃ lock, (s i).Requests lock ∧ ∃ mode, (mode, lock) ∈ (s j).held

/-- Along a chain of threads that wait for each other, the requests go up. -/
theorem Ordered.lt_of_chain {s : ι → Thread L T} (h : Ordered s) {i j : ι}
    (hchain : Relation.TransGen (WaitsFor s) i j) {lock lock' : L} (hi : (s i).Requests lock)
    (hj : (s j).Requests lock') : lock < lock' := by
  induction hchain generalizing lock' with
  | single hwaits =>
      obtain ⟨lock₁, hrequests, mode, hheld⟩ := hwaits
      obtain rfl := hi.unique hrequests
      exact h _ _ hj _ hheld
  | tail _ hwaits ih =>
      obtain ⟨lock₁, hrequests, mode, hheld⟩ := hwaits
      exact lt_trans (ih hrequests) (h _ _ hj _ hheld)

/-- **No set of threads waits for each other's locks in a circle.** -/
theorem Ordered.acyclic {s : ι → Thread L T} (h : Ordered s) (i : ι) :
    ¬ Relation.TransGen (WaitsFor s) i i := by
  intro hcycle
  have hrequests : ∃ lock, (s i).Requests lock := by
    rcases Relation.TransGen.head'_iff.mp hcycle with ⟨j, ⟨lock, hrequests, -⟩, -⟩
    exact ⟨lock, hrequests⟩
  obtain ⟨lock, hlock⟩ := hrequests
  exact lt_irrefl lock (h.lt_of_chain hcycle hlock hlock)

/-! ## The check -/

variable [DecidableEq L] [DecidableLT L]

/-- The locks held are what they should be at a request: before the lock, unless there is a marked
place in between. -/
def Request.Fits (r : Request L) (held : Held L) : Prop :=
  if r.marked then ∃ other ∈ held, ¬ other.2 < r.lock else ∀ other ∈ held, other.2 < r.lock

/-- Go through a program, with what is requested behind it and with the locks that are held before
it. `none` if a lock is requested that does not stand behind all that are held, if one is released
that is not held, or if it depends on the path which locks are held. A marked place is not gone
through; the lock requested behind it must not stand behind all that are held. -/
def check : Prog L T → Option (Request L) → Held L → Option (Outcome L)
  | .skip, _, held => some (.holding held)
  | .op (.acquire mode lock), _, held =>
    if ∀ other ∈ held, other.2 < lock then some (.holding ((mode, lock) :: held)) else none
  | .op (.release mode lock), _, held =>
    if (mode, lock) ∈ held then some (.holding (held.erase (mode, lock))) else none
  | .wait lock, _, held =>
    if (.exclusive, lock) ∈ held ∧ ∀ other ∈ held.erase (.exclusive, lock), other.2 < lock then
      some (.holding ((.exclusive, lock) :: held.erase (.exclusive, lock)))
    else none
  | .seq p q, next, held =>
    match check p (q.request next) held with
    | none => none
    | some .never => some .never
    | some (.holding held') => check q next held'
  | .either p q, next, held =>
    match check p next held, check q next held with
    | some o, some o' => o.join o'
    | _, _ => none
  | .loop p, _, held =>
    match check p none held with
    | some o => if o.comesBack held then some (.holding held) else none
    | none => none
  | .forever p, _, held =>
    match check p (p.request none) held with
    | some o => if o.comesBack held then some .never else none
    | none => none
  | .reach _, next, held =>
    match next with
    | some r => if ∃ other ∈ held, ¬ other.2 < r.lock then some .never else none
    | none => none

/-! ### What is accepted -/

variable {p q : Prog L T} {next : Option (Request L)} {held : Held L} {o : Outcome L}

theorem check_acquire {mode : Mode} {lock : L}
    (h : check (.op (.acquire mode lock) : Prog L T) next held = some o) :
    (∀ other ∈ held, other.2 < lock) ∧ o = .holding ((mode, lock) :: held) := by
  simp only [check] at h
  split at h
  · next hbefore =>
      cases h
      exact ⟨hbefore, rfl⟩
  · cases h

theorem check_release {mode : Mode} {lock : L}
    (h : check (.op (.release mode lock) : Prog L T) next held = some o) :
    o = .holding (held.erase (mode, lock)) := by
  simp only [check] at h
  split at h
  · cases h
    rfl
  · cases h

theorem check_wait {lock : L} (h : check (.wait lock : Prog L T) next held = some o) :
    check (.op (.acquire .exclusive lock) : Prog L T) next (held.erase (.exclusive, lock)) =
      some o := by
  simp only [check] at h ⊢
  split at h
  · next hheld =>
      cases h
      exact if_pos hheld.2
  · cases h

theorem check_seq (h : check (.seq p q) next held = some o) :
    ∃ o', check p (q.request next) held = some o' ∧
      ∀ held', o' = .holding held' → check q next held' = some o := by
  cases hfirst : check p (q.request next) held with
  | none =>
      rw [check, hfirst] at h
      cases h
  | some o' =>
      refine ⟨o', rfl, ?_⟩
      intro held' ho'
      rw [check, hfirst, ho'] at h
      exact h

theorem check_either (h : check (.either p q) next held = some o) :
    ∃ o₁ o₂, check p next held = some o₁ ∧ check q next held = some o₂ ∧
      (o₁ = .never ∨ o₁ = o) ∧ (o₂ = .never ∨ o₂ = o) := by
  simp only [check] at h
  split at h
  · next o₁ o₂ hfirst hsecond =>
      obtain ⟨h₁, h₂⟩ := Outcome.join_eq_some h
      exact ⟨o₁, o₂, hfirst, hsecond, h₁, h₂⟩
  · cases h

theorem check_loop (h : check (.loop p) next held = some o) :
    ∃ o', check p none held = some o' ∧ o'.comesBack held = true ∧ o = .holding held := by
  simp only [check] at h
  split at h
  · next o' hbody =>
      split at h
      · next hback =>
          cases h
          exact ⟨o', hbody, hback, rfl⟩
      · cases h
  · cases h

theorem check_forever (h : check (.forever p) next held = some o) :
    ∃ o', check p (p.request none) held = some o' ∧ o'.comesBack held = true := by
  simp only [check] at h
  split at h
  · next o' hbody =>
      split at h
      · next hback => exact ⟨o', hbody, hback⟩
      · cases h
  · cases h

theorem check_reach {place : T} (h : check (.reach place) next held = some o) :
    ∃ r, next = some r ∧ ∃ other ∈ held, ¬ other.2 < r.lock := by
  simp only [check] at h
  split at h
  · next r =>
      split at h
      · next hbad => exact ⟨r, rfl, hbad⟩
      · cases h
  · cases h

/-! ### Threads that are accepted -/

/-- What is left of a thread is accepted. -/
def Accepted : List (Prog L T) → Held L → Prop
  | [], _ => True
  | p :: rest, held =>
    ∃ o, check p (nextRequest rest) held = some o ∧
      ∀ held', o = .holding held' → Accepted rest held'

variable {t t' : Thread L T} {rest : List (Prog L T)}

/-- The next request of a program fits, if it is that of the program or fits what is held behind
it. -/
theorem fits_of_check (p : Prog L T) {next next' : Option (Request L)} {o : Outcome L}
    (hcheck : check p next held = some o) (hnext : ∀ r, next' = some r → next = some r)
    (hbehind : ∀ r held', next' = some r → o = .holding held' → r.Fits held') {r : Request L}
    (hr : p.request next' = some r) : r.Fits held := by
  induction p generalizing next next' held o r with
  | skip =>
      cases hcheck
      exact hbehind r held hr rfl
  | op op =>
      cases op with
      | acquire mode lock =>
          cases hr
          exact (check_acquire hcheck).1
      | release mode lock => cases hr
  | wait lock => cases hr
  | seq p q ihp ihq =>
      obtain ⟨o', hfirst, hsecond⟩ := check_seq hcheck
      refine ihp hfirst (fun r hr => q.request_mono hnext hr) ?_ hr
      intro r' held' hr' ho'
      exact ihq (hsecond held' ho') hnext hbehind hr'
  | either p q => cases hr
  | loop p => cases hr
  | forever p ih =>
      -- the request is in the body itself
      obtain ⟨o', hbody, -⟩ := check_forever hcheck
      refine ih hbody ?_ ?_ hr
      · intro r' hr'
        cases hr'
      · intro r' held' hr'
        cases hr'
  | reach place =>
      obtain ⟨r', hr', rfl⟩ := Option.map_eq_some_iff.mp hr
      obtain ⟨r, hr, hbad⟩ := check_reach hcheck
      obtain rfl : r = r' := Option.some.inj (hr.symm.trans (hnext r' hr'))
      exact hbad

/-- **The next request of an accepted thread fits.** -/
theorem Accepted.fits {rest : List (Prog L T)} {held : Held L} (h : Accepted rest held)
    {r : Request L} (hr : nextRequest rest = some r) : r.Fits held := by
  induction rest generalizing held r with
  | nil => cases hr
  | cons p rest ih =>
      obtain ⟨o, hcheck, hrest⟩ := h
      exact fits_of_check p hcheck (fun _ hr => hr)
        (fun r held' hr' ho => ih (hrest held' ho) hr') hr

/-- One of the outcomes is that of the branch that is taken. -/
theorem accepted_of_branch {p : Prog L T} {o r : Outcome L}
    (hp : check p (nextRequest rest) held = some o) (hr : o = .never ∨ o = r)
    (hrest : ∀ held', r = .holding held' → Accepted rest held') : Accepted (p :: rest) held := by
  refine ⟨o, hp, ?_⟩
  intro held' ho
  rcases hr with rfl | rfl
  · cases ho
  · exact hrest held' ho

/-- The body of a loop, in front of the loop. -/
theorem accepted_of_loop {p q : Prog L T} {o : Outcome L}
    (hp : check p (nextRequest (q :: rest)) held = some o) (hback : o.comesBack held = true)
    (hq : Accepted (q :: rest) held) : Accepted (p :: q :: rest) held := by
  refine ⟨o, hp, ?_⟩
  intro held' ho'
  subst ho'
  rw [Outcome.eq_of_comesBack hback]
  exact hq

/-- **A step of an accepted thread leaves something accepted**, unless the thread is at a marked
place. -/
theorem Accepted.step {available : Mode → L → Bool} {way : Bool} (h : Accepted t.rest t.held)
    (hplace : t.atPlace = false) (hstep : t.step available way = some t') :
    Accepted t'.rest t'.held := by
  obtain ⟨todo, held⟩ := t
  cases todo with
  | nil => cases hstep
  | cons p rest =>
      obtain ⟨o, hp, hrest⟩ := h
      cases p with
      | skip =>
          cases hstep
          cases hp
          exact hrest _ rfl
      | op op =>
          cases op with
          | acquire mode lock =>
              simp only [Thread.step] at hstep
              split at hstep
              · cases hstep
                exact hrest _ (check_acquire hp).2
              · cases hstep
          | release mode lock =>
              cases hstep
              exact hrest _ (check_release hp)
      | wait lock =>
          cases hstep
          exact ⟨o, check_wait hp, hrest⟩
      | seq p q =>
          cases hstep
          obtain ⟨o', hfirst, hsecond⟩ := check_seq hp
          refine ⟨o', hfirst, ?_⟩
          intro held' ho'
          exact ⟨o, hsecond held' ho', hrest⟩
      | either p q =>
          cases hstep
          obtain ⟨o₁, o₂, hfirst, hsecond, h₁, h₂⟩ := check_either hp
          cases way with
          | true => exact accepted_of_branch hfirst h₁ hrest
          | false => exact accepted_of_branch hsecond h₂ hrest
      | loop p =>
          cases hstep
          obtain ⟨o', hbody, hback, ho⟩ := check_loop hp
          cases way with
          | true => exact accepted_of_loop hbody hback ⟨o, hp, hrest⟩
          | false => exact hrest held ho
      | forever p =>
          cases hstep
          obtain ⟨o', hbody, hback⟩ := check_forever hp
          exact accepted_of_loop hbody hback ⟨o, hp, hrest⟩
      | reach place =>
          -- there is a request behind the place, so the thread is at it
          obtain ⟨r, hr, -⟩ := check_reach hp
          have hat : (nextRequest (.reach place :: rest)).any Request.marked = false := hplace
          rw [nextRequest, List.foldr_cons] at hat
          unfold nextRequest at hr
          rw [hr] at hat
          cases hat

/-! ## All threads -/

variable {prog : ι → Prog L T} {s s' : ι → Thread L T}

/-- The threads are accepted, and none of them is at a marked place. -/
structure InOrder (s : ι → Thread L T) : Prop where
  accepted : ∀ i, Accepted (s i).rest (s i).held
  unmarked : ∀ i, (s i).atPlace = false

theorem InOrder.ordered (h : InOrder s) : Ordered s := by
  intro i lock hrequests
  obtain ⟨⟨marked, lock⟩, hr, rfl⟩ := Option.map_eq_some_iff.mp hrequests
  have hunmarked := h.unmarked i
  unfold Thread.atPlace at hunmarked
  rw [hr] at hunmarked
  obtain rfl : marked = false := hunmarked
  exact (h.accepted i).fits hr

/-- The step does not lead to a marked place. -/
def KeepsOff (s : ι → Thread L T) (l : ι × Bool) : Prop := (s l.1).comesToPlace l.2 = false

instance (s : ι → Thread L T) (l : ι × Bool) : Decidable (KeepsOff s l) :=
  inferInstanceAs (Decidable (_ = _))

section Fintype

variable [Fintype ι] [DecidableEq ι]

theorem InOrder.step {l : ι × Bool} (h : InOrder s) (hkeeps : KeepsOff s l)
    (hs' : Locking.step s l = some s') : InOrder s' := by
  obtain ⟨t, hstep, hplace, rfl⟩ := step_eq_some hs'
  have haccepted := (h.accepted l.1).step (h.unmarked l.1) hstep
  have hunmarked : t.atPlace = false := hplace.symm.trans hkeeps
  constructor
  · intro j
    by_cases hj : j = l.1
    · subst hj
      rw [Function.update_self]
      exact haccepted
    · rw [Function.update_of_ne hj]
      exact h.accepted j
  · intro j
    by_cases hj : j = l.1
    · subst hj
      rw [Function.update_self]
      exact hunmarked
    · rw [Function.update_of_ne hj]
      exact h.unmarked j

/-- At a marked place the order is broken. -/
theorem InOrder.break {l : ι × Bool} (h : InOrder s) (hkeeps : ¬ KeepsOff s l)
    (hs' : Locking.step s l = some s') : ¬ Ordered s' := by
  obtain ⟨t, hstep, hplace, rfl⟩ := step_eq_some hs'
  intro hordered
  have haccepted := (h.accepted l.1).step (h.unmarked l.1) hstep
  have hat : t.atPlace = true := by
    rw [← hplace]
    exact Bool.eq_true_of_not_eq_false hkeeps
  obtain ⟨⟨marked, lock⟩, hr, hmarked⟩ := (Option.any_eq_true _ _).mp hat
  obtain rfl : marked = true := hmarked
  obtain ⟨other, hother, hbad⟩ : ∃ other ∈ t.held, ¬ other.2 < lock := haccepted.fits hr
  have hself : Function.update s l.1 t l.1 = t := Function.update_self l.1 t s
  apply hbad
  apply hordered l.1 lock
  · rw [hself]
    show (nextRequest t.rest).map Request.lock = some lock
    rw [hr]
    rfl
  · rw [hself]
    exact hother

/-- **The check may be trusted.** Accepted programs request the locks in order exactly as long as
none of them comes to a marked place. -/
theorem always_ordered_iff (hcheck : ∀ i, (check (prog i) none []).isSome)
    (hplace : ∀ i, (start prog i).atPlace = false) (steps : List (ι × Bool)) :
    Always step Ordered (start prog) steps ↔ Guarded step KeepsOff (start prog) steps := by
  refine always_iff_guarded (fun _ => InOrder.ordered)
    (fun _ _ _ h hkeeps hs' => InOrder.step h hkeeps hs')
    (fun _ _ _ h hkeeps hs' => InOrder.break h hkeeps hs') ⟨?_, hplace⟩ steps
  intro i
  obtain ⟨o, ho⟩ := Option.isSome_iff_exists.mp (hcheck i)
  exact ⟨o, ho, fun _ _ => trivial⟩

end Fintype

end Order

end Locking
