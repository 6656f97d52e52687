import Mathlib.Data.List.Nodup
import Mathlib.Data.List.Perm.Subperm
import Mathlib.Tactic.Common

/-!
# Singly linked lists in a heap of cells

A heap is the list of all cells ever allocated, addressed by position; a freed cell is `none`, so a
dangling pointer is a read that answers `none`. Pointers are `Option Nat`, with `none` for the null
pointer.

`Seg H p l q` says that following the `next` fields from `p` visits the cells `l` (addresses with
their values) and arrives at `q`. A complete list is a segment that arrives at the null pointer.
The frame lemmas all come from `Seg.congr`: a segment depends on the cells it visits and on nothing
else in the heap.
-/

namespace LinkedList

variable {α : Type}

/-- A list cell: a value and the pointer to the next cell. -/
structure Cell (α : Type) where
  val : α
  next : Option Nat
  deriving DecidableEq, Repr

/-- All cells ever allocated; a freed cell is `none`. -/
abbrev Heap (α : Type) := List (Option (Cell α))

namespace Heap

/-- Follow a pointer. -/
def read (H : Heap α) (a : Nat) : Option (Cell α) := H[a]?.join

/-- Allocate a cell at an address never used before. -/
def malloc (H : Heap α) (c : Cell α) : Heap α × Nat := (H ++ [some c], H.length)

/-- Store `next` through the pointer `a`. -/
def setNext (H : Heap α) (a : Nat) (next : Option Nat) : Option (Heap α) :=
  (H.read a).map fun c => H.set a (some { c with next })

/-- Release a cell; releasing one that is not allocated is an error. -/
def free (H : Heap α) (a : Nat) : Option (Heap α) := (H.read a).map fun _ => H.set a none

/-- Walk to the null pointer and collect the values, in at most so many rounds. -/
def values (H : Heap α) : Nat → Option Nat → Option (List α)
  | _, none => some []
  | 0, some _ => none
  | fuel + 1, some a => do
      let c ← H.read a
      let rest ← values H fuel c.next
      some (c.val :: rest)

/-- Release the cells from a pointer on, in at most so many rounds. -/
def freeFrom (H : Heap α) : Nat → Option Nat → Option (Heap α)
  | _, none => some H
  | 0, some _ => none
  | fuel + 1, some a => do
      let c ← H.read a
      let H ← H.free a
      freeFrom H fuel c.next

theorem lt_of_read {H : Heap α} {a : Nat} {c : Cell α} (h : H.read a = some c) :
    a < H.length := by
  by_contra hge
  rw [read, List.getElem?_eq_none (Nat.le_of_not_lt hge)] at h
  cases h

@[simp] theorem read_malloc_new (H : Heap α) (c : Cell α) :
    (H.malloc c).1.read H.length = some c := by
  simp [read, malloc]

theorem read_malloc_old {H : Heap α} {a : Nat} (c : Cell α) (ha : a < H.length) :
    (H.malloc c).1.read a = H.read a := by
  simp [read, malloc, List.getElem?_append_left ha]

@[simp] theorem malloc_snd (H : Heap α) (c : Cell α) : (H.malloc c).2 = H.length := rfl

/-- Releasing an allocated cell succeeds and leaves all others as they are. -/
theorem free_of_read {H : Heap α} {a : Nat} {c : Cell α} (h : H.read a = some c) :
    ∃ H', H.free a = some H' ∧ H'.length = H.length ∧ ∀ b, b ≠ a → H'.read b = H.read b := by
  refine ⟨H.set a none, by simp [free, h], by simp, fun b hb => ?_⟩
  simp [read, List.getElem?_set_ne (Ne.symm hb)]

/-- Storing through a valid pointer succeeds; it changes that cell's `next` and nothing else. -/
theorem setNext_of_read {H : Heap α} {a : Nat} {c : Cell α} (h : H.read a = some c)
    (next : Option Nat) :
    ∃ H', H.setNext a next = some H' ∧ H'.length = H.length ∧
      H'.read a = some { c with next } ∧ ∀ b, b ≠ a → H'.read b = H.read b := by
  have ha := lt_of_read h
  refine ⟨H.set a (some { c with next }), by simp [setNext, h], by simp, ?_, ?_⟩
  · simp [read, ha]
  · intro b hb
    simp [read, List.getElem?_set_ne (Ne.symm hb)]

theorem length_of_setNext {H H' : Heap α} {a : Nat} {next : Option Nat}
    (h : H.setNext a next = some H') : H'.length = H.length := by
  obtain ⟨c, -, rfl⟩ := Option.map_eq_some_iff.mp h
  exact List.length_set

end Heap

/-! ## Segments -/

/-- From `p`, the `next` fields visit the cells `l` and arrive at `q`. -/
inductive Seg (H : Heap α) : Option Nat → List (Nat × α) → Option Nat → Prop
  | nil (p : Option Nat) : Seg H p [] p
  | cons {a : Nat} {v : α} {n q : Option Nat} {l : List (Nat × α)} :
      H.read a = some ⟨v, n⟩ → Seg H n l q → Seg H (some a) ((a, v) :: l) q

/-- The cells `l` are the whole list that starts at `p`. -/
abbrev IsList (H : Heap α) (p : Option Nat) (l : List (Nat × α)) : Prop := Seg H p l none

/-- The pointer to the last cell visited, null when there is none. -/
def lastPtr (l : List (Nat × α)) : Option Nat := l.getLast?.map Prod.fst

@[simp] theorem lastPtr_nil : lastPtr ([] : List (Nat × α)) = none := rfl

@[simp] theorem lastPtr_snoc (l : List (Nat × α)) (a : Nat) (v : α) :
    lastPtr (l ++ [(a, v)]) = some a := by
  simp [lastPtr]

namespace Seg

variable {H H' : Heap α} {p q r : Option Nat} {l m : List (Nat × α)}

theorem nil_inv (h : Seg H p [] q) : p = q := by
  cases h
  rfl

theorem cons_inv {a : Nat} {v : α} (h : Seg H p ((a, v) :: l) q) :
    p = some a ∧ ∃ n, H.read a = some ⟨v, n⟩ ∧ Seg H n l q := by
  cases h with
  | cons hread hrest => exact ⟨rfl, _, hread, hrest⟩

theorem append (h₁ : Seg H p l q) (h₂ : Seg H q m r) : Seg H p (l ++ m) r := by
  induction h₁ with
  | nil => exact h₂
  | cons hread _ ih => exact .cons hread (ih h₂)

theorem split (h : Seg H p (l ++ m) r) : ∃ q, Seg H p l q ∧ Seg H q m r := by
  induction l generalizing p with
  | nil => exact ⟨p, .nil p, h⟩
  | cons c l ih =>
      obtain ⟨rfl, n, hread, hrest⟩ := cons_inv h
      obtain ⟨q, hl, hm⟩ := ih hrest
      exact ⟨q, .cons hread hl, hm⟩

/-- A segment depends only on the cells it visits. -/
theorem congr (h : Seg H p l q) (hH : ∀ a ∈ l.map Prod.fst, H'.read a = H.read a) :
    Seg H' p l q := by
  induction h with
  | nil p => exact .nil p
  | cons hread _ ih =>
      apply Seg.cons
      · exact (hH _ List.mem_cons_self).trans hread
      · apply ih
        intro a ha
        apply hH a
        exact List.mem_cons_of_mem _ ha

theorem addr_lt (h : Seg H p l q) {a : Nat} (ha : a ∈ l.map Prod.fst) : a < H.length := by
  induction h with
  | nil => cases ha
  | cons hread _ ih =>
      rcases List.mem_cons.mp ha with rfl | ha
      · exact Heap.lt_of_read hread
      · exact ih ha

/-- Allocation leaves every list as it is. -/
theorem malloc (h : Seg H p l q) (c : Cell α) : Seg (H.malloc c).1 p l q :=
  h.congr fun _ ha => Heap.read_malloc_old c (h.addr_lt ha)

end Seg

/-! ## Complete lists -/

namespace IsList

variable {H : Heap α} {p : Option Nat} {l m : List (Nat × α)}

theorem null_iff (h : IsList H p l) : p = none ↔ l = [] := by
  constructor
  · rintro rfl
    cases h
    rfl
  · rintro rfl
    exact h.nil_inv

/-- The list that starts at a pointer is unique. -/
theorem unique (h : IsList H p l) (h' : IsList H p m) : l = m := by
  induction l generalizing p m with
  | nil =>
      obtain rfl := h.nil_inv
      exact ((null_iff h').mp rfl).symm
  | cons c l ih =>
      obtain ⟨rfl, n, hread, hrest⟩ := h.cons_inv
      cases h' with
      | cons hread' hrest' =>
          rw [hread] at hread'
          cases hread'
          rw [ih hrest hrest']

theorem read_of_getElem? (h : IsList H p l) {i : Nat} {c : Nat × α} (hc : l[i]? = some c) :
    ∃ n, H.read c.1 = some ⟨c.2, n⟩ := by
  obtain ⟨before, behind, rfl⟩ := List.append_of_mem (List.mem_of_getElem? hc)
  obtain ⟨q, -, hrest⟩ := h.split
  obtain ⟨-, n, hread, -⟩ := hrest.cons_inv
  exact ⟨n, hread⟩

/-- No cell is visited twice: a list that came back to a cell would never end. -/
theorem nodup (h : IsList H p l) : (l.map Prod.fst).Nodup := by
  induction l generalizing p with
  | nil => exact List.nodup_nil
  | cons c l ih =>
      obtain ⟨rfl, n, hread, hrest⟩ := h.cons_inv
      apply List.nodup_cons.mpr
      refine ⟨?_, ih hrest⟩
      intro hmem
      obtain ⟨⟨a, v⟩, hin, hac⟩ := List.mem_map.mp hmem
      obtain ⟨pre, post, rfl⟩ := List.append_of_mem hin
      obtain ⟨q, _, hpost⟩ := hrest.split
      obtain ⟨rfl, _⟩ := hpost.cons_inv
      obtain rfl : a = c.1 := hac
      -- the list from the cell's own address has two different lengths
      have hlen := congrArg List.length (unique h hpost)
      simp at hlen
      omega

/-- A list has no more cells than the heap. -/
theorem length_le (h : IsList H p l) : l.length ≤ H.length := by
  have hsub : l.map Prod.fst ⊆ List.range H.length := fun _ ha => List.mem_range.mpr (h.addr_lt ha)
  simpa using (h.nodup.subperm hsub).length_le

/-- As many rounds as the heap has cells are enough for every list. -/
theorem values_eq (h : IsList H p l) {fuel : Nat} (hfuel : l.length ≤ fuel) :
    H.values fuel p = some (l.map Prod.snd) := by
  induction l generalizing p fuel with
  | nil =>
      obtain rfl := h.nil_inv
      cases fuel <;> rfl
  | cons c l ih =>
      obtain ⟨rfl, n, hread, hrest⟩ := h.cons_inv
      cases fuel with
      | zero => simp at hfuel
      | succ fuel =>
          have hvalues := ih hrest (by simpa using hfuel)
          simp [Heap.values, hread, hvalues]

/-- Releasing the first cell leaves the rest of the list. -/
theorem free_head {a : Nat} {v : α} (h : IsList H p ((a, v) :: l)) :
    ∃ H' n, H.read a = some ⟨v, n⟩ ∧ H.free a = some H' ∧ H'.length = H.length ∧
      IsList H' n l := by
  obtain ⟨rfl, n, hread, hrest⟩ := h.cons_inv
  obtain ⟨H', hfree, hlen, hother⟩ := Heap.free_of_read hread
  have hnd := nodup h
  refine ⟨H', n, hread, hfree, hlen, hrest.congr fun b hb => hother b ?_⟩
  rintro rfl
  exact (List.nodup_cons.mp hnd).1 hb

/-- Linking a fresh cell behind the last one appends it to the list. -/
theorem snoc {a : Nat} {v w : α} (h : IsList H p (l ++ [(a, v)])) :
    ∃ H', (H.malloc ⟨w, none⟩).1.setNext a (some H.length) = some H' ∧
      IsList H' p (l ++ [(a, v)] ++ [(H.length, w)]) := by
  obtain ⟨q, hl, hlast⟩ := h.split
  obtain ⟨rfl, n, hread, hnil⟩ := hlast.cons_inv
  have ha : a < H.length := Heap.lt_of_read hread
  have hread' : (H.malloc ⟨w, none⟩).1.read a = some ⟨v, n⟩ :=
    (Heap.read_malloc_old _ ha).trans hread
  obtain ⟨H', hset, -, hcell, hother⟩ := Heap.setNext_of_read hread' (some H.length)
  refine ⟨H', hset, ?_⟩
  have hfresh : a ∉ l.map Prod.fst := by
    have hnd := nodup h
    rw [List.map_append, List.nodup_append] at hnd
    intro hmem
    exact hnd.2.2 a hmem a (by simp) rfl
  have hnew : H'.read H.length = some ⟨w, none⟩ := by
    rw [hother _ (Nat.ne_of_gt ha), Heap.read_malloc_new]
  have hpre : Seg H' p l (some a) := by
    apply (hl.malloc ⟨w, none⟩).congr
    intro b hb
    apply hother b
    rintro rfl
    exact hfresh hb
  rw [List.append_assoc]
  exact hpre.append (.cons hcell (.cons hnew (.nil none)))

/-- Linking around a cell and releasing it takes it out of the list. -/
theorem unlink {a b : Nat} {v w : α} (h : IsList H p (l ++ (b, w) :: (a, v) :: m)) :
    ∃ n H' H'', H.read a = some ⟨v, n⟩ ∧ H.setNext b n = some H' ∧ H'.free a = some H'' ∧
      IsList H'' p (l ++ (b, w) :: m) := by
  have hnd := nodup h
  simp only [List.map_append, List.map_cons, List.nodup_append, List.nodup_cons,
    List.mem_cons] at hnd
  obtain ⟨-, ⟨hb, ha, -⟩, hl⟩ := hnd
  obtain ⟨q, hpre, hrest⟩ := h.split
  obtain ⟨rfl, n, hreadb, hrest⟩ := hrest.cons_inv
  obtain ⟨rfl, n', hreada, hpost⟩ := hrest.cons_inv
  obtain ⟨H', hset, -, hcell, hother⟩ := Heap.setNext_of_read hreadb n'
  have hab : a ≠ b := fun hab => hb (.inl hab.symm)
  have hreada' : H'.read a = some ⟨v, n'⟩ := (hother a hab).trans hreada
  obtain ⟨H'', hfree, -, hother'⟩ := Heap.free_of_read hreada'
  refine ⟨n', H', H'', hreada, hset, hfree, ?_⟩
  -- neither of the two cells is visited before or behind
  have hframe : ∀ c, c ≠ b → c ≠ a → H''.read c = H.read c :=
    fun c hcb hca => (hother' c hca).trans (hother c hcb)
  have hpre' : Seg H'' p l (some b) := by
    apply hpre.congr
    intro c hc
    apply hframe c
    · exact hl c hc b (.inl rfl)
    · exact hl c hc a (.inr (.inl rfl))
  have hpost' : IsList H'' n' m := by
    apply hpost.congr
    intro c hc
    apply hframe c
    · rintro rfl
      exact hb (.inr hc)
    · rintro rfl
      exact ha hc
  exact hpre'.append (.cons ((hother' b hab.symm).trans hcell) hpost')

/-- A fresh cell in front of the list. -/
theorem push (h : IsList H p l) (v : α) :
    IsList (H.malloc ⟨v, p⟩).1 (some H.length) ((H.length, v) :: l) :=
  .cons (Heap.read_malloc_new _ _) (h.malloc _)

/-- Releasing a whole list leaves the other cells as they are. -/
theorem freeFrom (h : IsList H p l) {fuel : Nat} (hfuel : l.length ≤ fuel) :
    ∃ H', H.freeFrom fuel p = some H' ∧ H'.length = H.length ∧
      ∀ b ∉ l.map Prod.fst, H'.read b = H.read b := by
  induction l generalizing H p fuel with
  | nil =>
      obtain rfl := h.nil_inv
      exact ⟨H, by cases fuel <;> rfl, rfl, fun b _ => rfl⟩
  | cons c l ih =>
      obtain ⟨rfl, -⟩ := h.cons_inv
      obtain ⟨H', n, hread, hfree, hlen, hrest⟩ := h.free_head
      cases fuel with
      | zero => simp at hfuel
      | succ fuel =>
          obtain ⟨H'', hall, hlen', hother⟩ := ih hrest (by simpa using hfuel)
          refine ⟨H'', ?_, hlen'.trans hlen, ?_⟩
          · rw [Heap.freeFrom]
            simp only [hread, hfree, Option.bind_eq_bind, Option.bind_some]
            exact hall
          · intro b hb
            rw [List.map_cons, List.mem_cons, not_or] at hb
            obtain ⟨_, hset, -, hother'⟩ := Heap.free_of_read hread
            rw [hfree] at hset
            cases hset
            exact (hother b hb.2).trans (hother' b hb.1)

/-- Ending a list behind one of its cells, and releasing the rest. -/
theorem cutBehind {b : Nat} {w : α} (h : IsList H p (l ++ (b, w) :: m)) {fuel : Nat}
    (hfuel : m.length ≤ fuel) :
    ∃ n H' H'', H.read b = some ⟨w, n⟩ ∧ H.setNext b none = some H' ∧
      H'.freeFrom fuel n = some H'' ∧ IsList H'' p (l ++ [(b, w)]) := by
  have hnd := nodup h
  simp only [List.map_append, List.map_cons, List.nodup_append, List.nodup_cons,
    List.mem_cons] at hnd
  obtain ⟨-, ⟨hb, -⟩, hl⟩ := hnd
  obtain ⟨q, hpre, hrest⟩ := h.split
  obtain ⟨rfl, n, hread, hpost⟩ := hrest.cons_inv
  obtain ⟨H', hset, -, hcell, hother⟩ := Heap.setNext_of_read hread none
  have hpost' : IsList H' n m := by
    apply hpost.congr
    intro c hc
    apply hother c
    rintro rfl
    exact hb hc
  obtain ⟨H'', hfree, -, hother'⟩ := hpost'.freeFrom hfuel
  have hpre' : Seg H'' p l (some b) := by
    apply hpre.congr
    intro c hc
    have hcm : c ∉ m.map Prod.fst := fun hm => hl c hc c (.inr hm) rfl
    have hcb : c ≠ b := hl c hc b (.inl rfl)
    exact (hother' c hcm).trans (hother c hcb)
  have hread' : H''.read b = some ⟨w, none⟩ := (hother' b hb).trans hcell
  exact ⟨n, H', H'', hread, hset, hfree, hpre'.append (.cons hread' (.nil none))⟩

end IsList

theorem lastPtr_append_cons (l m : List (Nat × α)) (c : Nat × α) :
    lastPtr (l ++ c :: m) = lastPtr (c :: m) := by
  simp [lastPtr, List.getLast?_append, List.getLast?_cons]

theorem mem_of_lastPtr {l : List (Nat × α)} {a : Nat} (h : lastPtr l = some a) :
    a ∈ l.map Prod.fst := by
  obtain ⟨c, hc, rfl⟩ := Option.map_eq_some_iff.mp h
  exact List.mem_map_of_mem (List.mem_of_getLast? hc)

end LinkedList
