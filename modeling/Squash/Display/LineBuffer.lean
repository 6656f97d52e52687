import Squash.Database.Meta
import Squash.Foundations.Buffer
import Squash.Foundations.Filling

/-!
# Line buffers

The two functions that draw the values of a song's tags, for the terminal and for the EMPEG, put them
into a buffer first. Both run over the keys and the values of each key, with the same guard on the two
loops, which makes one loop over all the values (`eachValue_eq`); each value is followed by a separator,
and the last separator is taken away at the end.

A run ends with a `Fault` where the C program would do what is not defined. The integers are exact.
-/

namespace Squash.Display

open Filling

inductive Fault where
  | nullPointer
  /-- an index outside of the buffer -/
  | outOfBounds
  /-- a string without an end -/
  | unterminated
  /-- a conversion without its argument -/
  | badFormat
  deriving DecidableEq, Repr

/-- A text on the screen. -/
structure Printed where
  top : Int
  left : Int
  text : List Char
  deriving DecidableEq, Repr

def dots : List Char := ['.', '.', '.']

/-- Characters written to `buffer` from index `k` on. -/
def store (buffer : List Char) (k : Int) (text : List Char) : Except Fault (List Char) :=
  if 0 ≤ k then (Buffer.write buffer k.toNat text).elim (.error .outOfBounds) .ok
  else .error .outOfBounds

/-- `buffer[k]`. -/
def load (buffer : List Char) (k : Int) : Except Fault Char :=
  if 0 ≤ k then buffer[k.toNat]?.elim (.error .outOfBounds) .ok else .error .outOfBounds

/-- A function that takes a string reads the buffer up to its end. -/
def readString (buffer : List Char) : Except Fault (List Char) :=
  if '\x00' ∈ buffer then .ok (cString buffer) else .error .unterminated

/-- The values of a key; there are none when the song, or its key, is not there. -/
def keyValues (song : Option (List MetaKey)) (key : List Char) : List (Option (List Char)) :=
  ((song.bind fun metaKeys => getMetaData metaKeys key).map Prod.snd).getD []

/-- All values of the keys that are present, in the order of the keys. -/
def metaValues (song : Option (List MetaKey)) (keySet : List (List Char)) :
    List (Option (List Char)) := keySet.flatMap (keyValues song)

/-- The loops over `key_set.keys` and `meta_data->values`, both as long as there is room. -/
def eachValue {σ : Type} (room : σ → Prop) [DecidablePred room]
    (add : σ → Option (List Char) → Except Fault σ) (song : Option (List MetaKey))
    (keySet : List (List Char)) (s : σ) : Except Fault σ :=
  fill room (fun s key =>
    match song.bind fun metaKeys => getMetaData metaKeys key with
    | none => .ok s
    | some metaData => fill room add s metaData.2) s keySet

/-- **The two loops are one loop.** -/
theorem eachValue_eq {σ : Type} {room : σ → Prop} [DecidablePred room]
    {add : σ → Option (List Char) → Except Fault σ} (song : Option (List MetaKey))
    (keySet : List (List Char)) (s : σ) :
    eachValue room add song keySet s = fill room add s (metaValues song keySet) := by
  rw [metaValues, ← fill_flatMap, eachValue]
  congr 1
  funext s key
  unfold keyValues
  cases song.bind fun metaKeys => getMetaData metaKeys key with
  | none => rfl
  | some metaData => rfl

/-! ## Runs -/

section Runs

variable {α β : Type}

@[simp] theorem ok_bind (a : α) (f : α → Except Fault β) : (Except.ok a >>= f) = f a := rfl

@[simp] theorem error_bind (e : Fault) (f : α → Except Fault β) :
    (Except.error e >>= f) = .error e := rfl

theorem bind_eq_ok {x : Except Fault α} {f : α → Except Fault β} {b : β} :
    (x >>= f) = .ok b ↔ ∃ a, x = .ok a ∧ f a = .ok b := by
  cases x <;> simp

theorem bind_eq_error {x : Except Fault α} {f : α → Except Fault β} {e : Fault} :
    (x >>= f) = .error e ↔ x = .error e ∨ ∃ a, x = .ok a ∧ f a = .error e := by
  cases x <;> simp

end Runs

/-! ## Indices -/

section Indices

variable {pre old text post : List Char} {k : Int}

theorem store_append (hk : k = pre.length) (h : old.length = text.length) :
    store (pre ++ (old ++ post)) k text = .ok (pre ++ (text ++ post)) := by
  subst hk
  rw [store, if_pos (Int.natCast_nonneg _), Int.toNat_natCast, Buffer.write_append h]
  rfl

theorem store_one (pre : List Char) (c : Char) (post : List Char) {d : Char} (hk : k = pre.length) :
    store (pre ++ c :: post) k [d] = .ok (pre ++ d :: post) :=
  @store_append pre [c] [d] post k hk rfl

theorem store_outOfBounds {buffer : List Char} (h : (buffer.length : Int) < k + text.length) :
    store buffer k text = .error .outOfBounds := by
  unfold store
  split
  · rw [Buffer.write_eq_none.mpr (by omega)]
    rfl
  · rfl

theorem load_append {c : Char} (hk : k = pre.length) : load (pre ++ c :: post) k = .ok c := by
  subst hk
  rw [load, if_pos (Int.natCast_nonneg _), Int.toNat_natCast, List.getElem?_append_right le_rfl,
    Nat.sub_self]
  rfl

theorem readString_append (h : '\x00' ∉ text) :
    readString (text ++ '\x00' :: post) = .ok text := by
  rw [readString, if_pos (by simp), cString_append h]
  simp [cString]

end Indices

/-! ## Values with separators -/

/-- The characters of a value, of which a null pointer has none. -/
def valueText (value : Option (List Char)) : List Char := cString (value.getD [])

def separator : List Char := [';', ' ']

/-- What the loops put into the buffer: each value with a separator behind it. -/
def separated (values : List (Option (List Char))) : List Char :=
  values.flatMap fun value => valueText value ++ separator

/-- The values joined by separators. -/
def joined (values : List (Option (List Char))) : List Char :=
  separator.intercalate (values.map valueText)

@[simp] theorem separated_nil : separated [] = [] := rfl

theorem separated_cons (value : Option (List Char)) (values : List (Option (List Char))) :
    separated (value :: values) = valueText value ++ separator ++ separated values := rfl

theorem separated_append (values values' : List (Option (List Char))) :
    separated (values ++ values') = separated values ++ separated values' := List.flatMap_append

/-- The last separator is one too many. -/
theorem separated_eq {values : List (Option (List Char))} (h : values ≠ []) :
    separated values = joined values ++ separator := by
  induction values with
  | nil => exact absurd rfl h
  | cons value values ih =>
      cases values with
      | nil => simp [separated, joined]
      | cons value' values =>
          rw [separated_cons, ih (List.cons_ne_nil _ _)]
          simp [joined, List.intercalate_cons_cons]

theorem length_separated {values : List (Option (List Char))} (h : values ≠ []) :
    (separated values).length = (joined values).length + 2 := by
  rw [separated_eq h, List.length_append]
  rfl

theorem joined_append {values values' : List (Option (List Char))} (h : values ≠ [])
    (h' : values' ≠ []) : joined (values ++ values') = separated values ++ joined values' := by
  have hne : values ++ values' ≠ [] := List.append_ne_nil_of_left_ne_nil h values'
  have hboth := separated_append values values'
  rw [separated_eq hne, separated_eq h', ← List.append_assoc] at hboth
  exact List.append_cancel_right hboth

theorem null_not_mem_separated (values : List (Option (List Char))) :
    '\x00' ∉ separated values := by
  intro h
  obtain ⟨value, -, h⟩ := List.mem_flatMap.mp h
  rcases List.mem_append.mp h with h | h
  · exact not_mem_cString _ h
  · exact absurd h (by decide)

theorem null_not_mem_joined (values : List (Option (List Char))) : '\x00' ∉ joined values := by
  intro h
  cases values with
  | nil => simp [joined] at h
  | cons value values =>
      refine null_not_mem_separated (value :: values) ?_
      rw [separated_eq (List.cons_ne_nil _ _)]
      exact List.mem_append_left _ h

end Squash.Display
