import Mathlib.Data.List.Perm.Subperm
import Squash.Foundations.LinkedList
import Squash.Foundations.Transition
import Squash.Global

/-!
# The player's command queue

`player_command` is a linked list with a `head`, a `tail` and a `size`. The input threads append to
it with `player_queue_command`; `player` empties it in one pass while it holds the lock.

The draining half is right on every well-formed queue (`drain_wellFormed`). The appending half
moves the wrong pointer when exactly one command is pending: it advances `head` where it should
advance `tail`, so the pending command drops out of the list, and from then on `tail` is stale. The
queue therefore behaves as a FIFO exactly as long as no command is queued while another one is
pending (`fifo_iff_queued_when_empty`).
-/

namespace Squash.Player

open LinkedList Transition

/-- `player_command_t`, with the heap its entries live in. -/
structure PlayerCommandQueue where
  heap : Heap PlayerCommand
  head : Option Nat
  tail : Option Nat
  size : Int
  deriving DecidableEq, Repr

namespace PlayerCommandQueue

/-- The queue as `main` sets it up. -/
def init : PlayerCommandQueue := ⟨[], none, none, 0⟩

/-- `player_queue_command`; `none` is a dereference of a null or dangling pointer. -/
def playerQueueCommand (q : PlayerCommandQueue) (command : PlayerCommand) :
    Option PlayerCommandQueue :=
  let (heap, newEntry) := q.heap.malloc ⟨command, none⟩
  match q.head with
  | none => some ⟨heap, some newEntry, some newEntry, q.size + 1⟩
  | some _ => do
      let tail ← q.tail
      let heap ← heap.setNext tail (some newEntry)
      -- the source assigns `head` here, not `tail`
      let head := if q.tail = q.head then some newEntry else q.head
      some ⟨heap, head, q.tail, q.size + 1⟩

/-- The `while( command_entry != NULL )` loop of `player`, with the commands it executes. -/
def drainLoop : Nat → PlayerCommandQueue → Option Nat →
    Option (PlayerCommandQueue × List PlayerCommand)
  | _, q, none => some (q, [])
  | 0, _, some _ => none
  | fuel + 1, q, some commandEntry => do
      let entry ← q.heap.read commandEntry
      let tail := if q.head = q.tail then entry.next else q.tail
      let heap ← match q.head with
        | none => some q.heap
        | some a => q.heap.free a
      let (q', executed) ← drainLoop fuel ⟨heap, entry.next, tail, q.size - 1⟩ entry.next
      some (q', entry.val :: executed)

/-- One drain pass. Every round of the loop releases a cell, so there are at most as many rounds as
cells in the heap. -/
def drain (q : PlayerCommandQueue) : Option (PlayerCommandQueue × List PlayerCommand) :=
  drainLoop q.heap.length q q.head

/-- The list `l` hangs from `head`, `tail` is its last entry and `size` its length. -/
structure WellFormed (q : PlayerCommandQueue) (l : List (Nat × PlayerCommand)) : Prop where
  list : IsList q.heap q.head l
  tail : q.tail = lastPtr l
  size : q.size = l.length

theorem init_wellFormed : WellFormed init [] := ⟨.nil none, rfl, rfl⟩

/-! ## Draining -/

/-- The loop executes the pending commands in order and leaves the empty queue. -/
theorem drainLoop_wellFormed {l : List (Nat × PlayerCommand)} {fuel : Nat}
    {q : PlayerCommandQueue} (h : WellFormed q l) (hfuel : l.length ≤ fuel) :
    ∃ q', drainLoop fuel q q.head = some (q', l.map Prod.snd) ∧ WellFormed q' [] := by
  induction l generalizing fuel q with
  | nil =>
      have hhead : q.head = none := h.list.null_iff.mpr rfl
      exact ⟨q, by rw [hhead]; cases fuel <;> rfl, h⟩
  | cons c l ih =>
      obtain ⟨a, v⟩ := c
      obtain ⟨hhead, -⟩ := h.list.cons_inv
      obtain ⟨H', n, hread, hfree, -, hrest⟩ := h.list.free_head
      cases fuel with
      | zero => simp at hfuel
      | succ fuel =>
          -- the queue after this round
          have hnext : WellFormed
              ⟨H', n, if q.head = q.tail then n else q.tail, q.size - 1⟩ l := by
            refine ⟨hrest, ?_, ?_⟩
            · cases l with
              | nil =>
                  have htail : q.tail = some a := h.tail
                  simp only [hhead, htail, ↓reduceIte]
                  exact hrest.null_iff.mpr rfl
              | cons c' l =>
                  have hnd := h.list.nodup
                  have hlast : q.tail = lastPtr (c' :: l) := by
                    rw [h.tail]
                    simp [lastPtr]
                  -- the last entry is one of the later cells, hence not the head
                  have hne : q.head ≠ q.tail := by
                    rw [hhead, hlast]
                    intro heq
                    obtain ⟨b, hb, hba⟩ := Option.map_eq_some_iff.mp heq.symm
                    apply (List.nodup_cons.mp hnd).1
                    apply List.mem_map.mpr
                    exact ⟨b, List.mem_of_getLast? hb, hba⟩
                  rw [if_neg hne]
                  exact hlast
            · have hsize := h.size
              simp only [List.length_cons] at hsize
              show q.size - 1 = (l.length : Int)
              omega
          obtain ⟨q', hloop, hempty⟩ := ih hnext (by simpa using hfuel)
          refine ⟨q', ?_, hempty⟩
          simp only at hloop
          rw [hhead]
          simp only [drainLoop, hread, hhead, hfree, Option.bind_eq_bind, Option.bind_some]
          rw [hhead] at hloop
          simp [hloop]

theorem drain_wellFormed {q : PlayerCommandQueue} {l : List (Nat × PlayerCommand)}
    (h : WellFormed q l) :
    ∃ q', drain q = some (q', l.map Prod.snd) ∧ WellFormed q' [] :=
  drainLoop_wellFormed h h.list.length_le

/-! ## Queueing -/

theorem playerQueueCommand_null {q : PlayerCommandQueue} (h : q.head = none)
    (command : PlayerCommand) : q.playerQueueCommand command =
      some ⟨(q.heap.malloc ⟨command, none⟩).1, some q.heap.length, some q.heap.length,
        q.size + 1⟩ := by
  simp [playerQueueCommand, h]

/-- Queueing on the empty queue makes the command the only entry. -/
theorem playerQueueCommand_of_empty {q : PlayerCommandQueue} (h : WellFormed q [])
    (command : PlayerCommand) :
    ∃ q', q.playerQueueCommand command = some q' ∧
      WellFormed q' [(q.heap.length, command)] := by
  have hhead : q.head = none := h.list.null_iff.mpr rfl
  refine ⟨_, playerQueueCommand_null hhead command, ?_, rfl, ?_⟩
  · exact .cons (Heap.read_malloc_new _ _) (.nil none)
  · have hsize := h.size
    simp only [List.length_nil] at hsize
    simp [hsize]

/-- Queueing behind a single pending command drops that command from the list. -/
theorem playerQueueCommand_of_single {q q' : PlayerCommandQueue} {a : Nat}
    {v command : PlayerCommand} (h : WellFormed q [(a, v)])
    (hq : q.playerQueueCommand command = some q') :
    IsList q'.heap q'.head [(q.heap.length, command)] := by
  obtain ⟨hhead, -⟩ := h.list.cons_inv
  have htail : q.tail = some a := h.tail
  obtain ⟨H', hset, hlist⟩ := IsList.snoc (l := []) (w := command) h.list
  obtain ⟨-, n, -, hnew⟩ := Seg.cons_inv hlist
  obtain ⟨rfl, n', hread, hnil⟩ := hnew.cons_inv
  simp only [playerQueueCommand, hhead, htail, Heap.malloc_snd, hset, Option.bind_eq_bind,
    Option.bind_some, ↓reduceIte, Option.some.injEq] at hq
  subst hq
  exact .cons hread hnil

/-- Queueing behind two or more pending commands leaves `head` and `tail` where they were. -/
theorem playerQueueCommand_of_longer {q q' : PlayerCommandQueue}
    {l : List (Nat × PlayerCommand)} {a : Nat} {v command : PlayerCommand} (hl : l ≠ [])
    (h : WellFormed q (l ++ [(a, v)])) (hq : q.playerQueueCommand command = some q') :
    IsList q'.heap q'.head (l ++ [(a, v)] ++ [(q.heap.length, command)]) ∧
      q'.tail = some a ∧ a ≠ q.heap.length := by
  have htail : q.tail = some a := by simpa using h.tail
  obtain ⟨H', hset, hlist⟩ := IsList.snoc (w := command) h.list
  obtain ⟨⟨b, w⟩, l, rfl⟩ := List.exists_cons_of_ne_nil hl
  obtain ⟨hhead, -⟩ := h.list.cons_inv
  have hne : a ≠ b := by
    have hnd := h.list.nodup
    rintro rfl
    simp at hnd
  simp only [playerQueueCommand, hhead, htail, Heap.malloc_snd, hset, Option.bind_eq_bind,
    Option.bind_some, Option.some.injEq, hne, ↓reduceIte] at hq
  subst hq
  have hlt : a < q.heap.length := h.list.addr_lt (by simp)
  exact ⟨hhead ▸ hlist, rfl, Nat.ne_of_lt hlt⟩

end PlayerCommandQueue

/-! ## The queue as a FIFO -/

/-- What happens to the queue, one critical section of `player_command.lock` at a time: an input
thread queues a command, or `player` drains the queue. -/
inductive QueueStep where
  | queue (command : PlayerCommand)
  | drain
  deriving DecidableEq, Repr

/-- What a step is seen to do. -/
inductive QueueEvent where
  | queued (command : PlayerCommand)
  | executed (command : PlayerCommand)
  | drained
  deriving DecidableEq, Repr

/-- One critical section. -/
def queueStep (q : PlayerCommandQueue) : QueueStep → Option (PlayerCommandQueue × List QueueEvent)
  | .queue command => (q.playerQueueCommand command).map fun q' => (q', [.queued command])
  | .drain => q.drain.map fun r => (r.1, r.2.map .executed ++ [.drained])

/-- The commands queued so far. -/
def queued (t : List QueueEvent) : List PlayerCommand :=
  t.filterMap fun | .queued c => some c | _ => none

/-- The commands executed so far. -/
def executed (t : List QueueEvent) : List PlayerCommand :=
  t.filterMap fun | .executed c => some c | _ => none

/-- The queue has lost nothing: it is well formed, the commands executed followed by the ones
pending are the ones queued, and a drain pass leaves nothing behind. -/
structure Fifo (s : PlayerCommandQueue × List QueueEvent) : Prop where
  pending : ∃ l, s.1.WellFormed l ∧ executed s.2 ++ l.map Prod.snd = queued s.2
  drained : s.2.getLast? = some .drained →
    s.1.head = none ∧ s.1.tail = none ∧ s.1.size = 0 ∧ executed s.2 = queued s.2

/-- No command is queued while another one is pending. -/
def QueuedWhenEmpty (s : PlayerCommandQueue × List QueueEvent) : QueueStep → Prop
  | .queue _ => s.1.head = none
  | .drain => True

@[simp] theorem queued_append (t u : List QueueEvent) : queued (t ++ u) = queued t ++ queued u :=
  List.filterMap_append

@[simp] theorem executed_append (t u : List QueueEvent) :
    executed (t ++ u) = executed t ++ executed u :=
  List.filterMap_append

theorem queued_drained (cs : List PlayerCommand) :
    queued (cs.map .executed ++ [.drained]) = [] := by
  simp [queued, List.filterMap_map]

theorem executed_drained (cs : List PlayerCommand) :
    executed (cs.map .executed ++ [.drained]) = cs := by
  simp [executed, List.filterMap_map]

theorem fifo_init : Fifo (.init, []) :=
  ⟨⟨[], PlayerCommandQueue.init_wellFormed, rfl⟩, by simp⟩

/-- A step that queues only on the empty queue keeps the queue a FIFO. -/
theorem fifo_step {s s' : PlayerCommandQueue × List QueueEvent} {l : QueueStep} (h : Fifo s)
    (hG : QueuedWhenEmpty s l) (hs : observe queueStep s l = some s') : Fifo s' := by
  obtain ⟨q, t⟩ := s
  obtain ⟨p, es, hstep, rfl⟩ := observe_eq_some.mp hs
  obtain ⟨pend, hwf, hlog⟩ := h.pending
  cases l with
  | queue command =>
      obtain rfl : pend = [] := hwf.list.null_iff.mp hG
      obtain ⟨q', hq, hwf'⟩ := PlayerCommandQueue.playerQueueCommand_of_empty hwf command
      simp only [queueStep, hq, Option.map_some, Option.some.injEq, Prod.mk.injEq] at hstep
      obtain ⟨rfl, rfl⟩ := hstep
      refine ⟨⟨_, hwf', ?_⟩, by simp⟩
      rw [executed_append, queued_append, ← hlog]
      simp [executed, queued]
  | drain =>
      obtain ⟨q', hq, hwf'⟩ := PlayerCommandQueue.drain_wellFormed hwf
      simp only [queueStep, hq, Option.map_some, Option.some.injEq, Prod.mk.injEq] at hstep
      obtain ⟨rfl, rfl⟩ := hstep
      have hall : executed (t ++ (pend.map Prod.snd |>.map .executed) ++ [QueueEvent.drained]) =
          queued (t ++ (pend.map Prod.snd |>.map .executed) ++ [QueueEvent.drained]) := by
        rw [List.append_assoc, executed_append, queued_append, executed_drained, queued_drained,
          List.append_nil]
        exact hlog
      rw [List.append_assoc] at hall
      refine ⟨⟨[], hwf', by simpa using hall⟩, fun _ => ⟨?_, hwf'.tail, ?_, hall⟩⟩
      · exact hwf'.list.null_iff.mpr rfl
      · simpa using hwf'.size

/-- A command queued while another one is pending breaks the FIFO. -/
theorem not_fifo_of_queued {s s' : PlayerCommandQueue × List QueueEvent} {l : QueueStep}
    (h : Fifo s) (hG : ¬ QueuedWhenEmpty s l) (hs : observe queueStep s l = some s') :
    ¬ Fifo s' := by
  obtain ⟨q, t⟩ := s
  obtain ⟨p, es, hstep, rfl⟩ := observe_eq_some.mp hs
  obtain ⟨pend, hwf, hlog⟩ := h.pending
  cases l with
  | drain => exact absurd trivial hG
  | queue command =>
      obtain ⟨q', hq, hqe⟩ := Option.map_eq_some_iff.mp hstep
      simp only [Prod.mk.injEq] at hqe
      obtain ⟨rfl, rfl⟩ := hqe
      have hne : pend ≠ [] := fun hnil => hG (hwf.list.null_iff.mpr hnil)
      rintro ⟨⟨pend', hwf', hlog'⟩, -⟩
      rw [executed_append, queued_append, ← hlog] at hlog'
      simp only [executed, queued, List.filterMap_cons_none, List.filterMap_nil, List.append_nil,
        List.append_assoc, List.append_cancel_left_eq] at hlog'
      obtain ⟨init, ⟨a, v⟩, rfl⟩ : ∃ i x, pend = i ++ [x] :=
        ⟨_, _, (List.dropLast_append_getLast hne).symm⟩
      by_cases hinit : init = []
      · subst hinit
        -- the pending command is gone: one entry is left where there should be two
        have hlist := PlayerCommandQueue.playerQueueCommand_of_single hwf hq
        rw [IsList.unique hwf'.list hlist] at hlog'
        simp at hlog'
      · -- `tail` still points to the entry before the new one
        obtain ⟨hlist, htail, hfresh⟩ :=
          PlayerCommandQueue.playerQueueCommand_of_longer hinit hwf hq
        have htail' := hwf'.tail
        rw [IsList.unique hwf'.list hlist, htail, lastPtr_snoc] at htail'
        exact hfresh (Option.some.inj htail')

end Squash.Player
