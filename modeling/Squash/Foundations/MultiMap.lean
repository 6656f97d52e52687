import Mathlib.Data.List.Induction
import Mathlib.Tactic.Common

/-!
# Multimaps as lists

A list of keys, each with the list of its values. A value is inserted at the first key that is the
same as the one it comes with, or at the end with a new key. Which keys are the same is a Boolean
relation, so that a key may be found under another spelling.

Insertion keeps a map proper (`insert_proper`): its keys differ and none is without values. A proper
map can be written down as a list of pairs and built again from it (`ofPairs_pairs`). What is found
under a key are the values of the pairs with that key (`map_lookup_ofPairs`).
-/

namespace MultiMap

variable {κ β : Type} (same : κ → κ → Bool)

/-- Insert a value at the first key that is the same. -/
def insert (key : κ) (value : β) : List (κ × List β) → List (κ × List β)
  | [] => [(key, [value])]
  | entry :: m =>
    if same key entry.1 then (entry.1, entry.2 ++ [value]) :: m
    else entry :: insert key value m

/-- The first key that is the same, with its values. -/
def lookup (m : List (κ × List β)) (key : κ) : Option (κ × List β) :=
  m.find? fun entry => same key entry.1

def insertPair (m : List (κ × List β)) (pair : κ × β) : List (κ × List β) :=
  insert same pair.1 pair.2 m

/-- The map that pairs are inserted into, one after another. -/
def ofPairs (pairs : List (κ × β)) : List (κ × List β) := pairs.foldl (insertPair same) []

/-- The map as a list of pairs. -/
def pairs (m : List (κ × List β)) : List (κ × β) :=
  m.flatMap fun entry => entry.2.map fun value => (entry.1, value)

/-- The keys differ, and each has values. -/
structure Proper (m : List (κ × List β)) : Prop where
  distinct : m.Pairwise fun a b => same b.1 a.1 = false
  nonempty : ∀ entry ∈ m, entry.2 ≠ []

/-- The keys that are the same form classes. -/
structure Classes : Prop where
  refl : ∀ a, same a a = true
  symm : ∀ a b, same a b = true → same b a = true
  trans : ∀ a b c, same a b = true → same b c = true → same a c = true

variable {same} {m : List (κ × List β)} {key : κ} {value : β}

theorem insert_of_not_mem (h : ∀ entry ∈ m, same key entry.1 = false) :
    insert same key value m = m ++ [(key, [value])] := by
  induction m with
  | nil => rfl
  | cons entry m ih =>
      have hentry := h entry List.mem_cons_self
      rw [insert, hentry, ih fun e he => h e (List.mem_cons_of_mem entry he)]
      rfl

/-- Insertion passes over the keys that are not the same. -/
theorem insert_append {m' : List (κ × List β)} (h : ∀ entry ∈ m, same key entry.1 = false) :
    insert same key value (m ++ m') = m ++ insert same key value m' := by
  induction m with
  | nil => rfl
  | cons entry m ih =>
      have hentry := h entry List.mem_cons_self
      rw [List.cons_append, insert, hentry, ih fun e he => h e (List.mem_cons_of_mem entry he)]
      rfl

/-- The entries after an insertion: the old ones, one of which may have got the value, or a new one. -/
theorem mem_insert {entry : κ × List β} (h : entry ∈ insert same key value m) :
    (∃ old ∈ m, entry = old ∨ entry = (old.1, old.2 ++ [value])) ∨ entry = (key, [value]) := by
  induction m with
  | nil => exact .inr (List.mem_singleton.mp h)
  | cons old m ih =>
      rw [insert] at h
      split at h
      · rcases List.mem_cons.mp h with rfl | hmem
        · exact .inl ⟨old, List.mem_cons_self, .inr rfl⟩
        · exact .inl ⟨entry, List.mem_cons_of_mem old hmem, .inl rfl⟩
      · rcases List.mem_cons.mp h with rfl | hmem
        · exact .inl ⟨entry, List.mem_cons_self, .inl rfl⟩
        · rcases ih hmem with ⟨old', hold, hentry⟩ | hnew
          · exact .inl ⟨old', List.mem_cons_of_mem old hold, hentry⟩
          · exact .inr hnew

/-- The keys after an insertion: the old ones, and the new one if it was not there. -/
theorem mem_insert_key {entry : κ × List β} (h : entry ∈ insert same key value m) :
    (∃ old ∈ m, old.1 = entry.1) ∨ entry.1 = key := by
  rcases mem_insert h with ⟨old, hold, rfl | rfl⟩ | rfl
  · exact .inl ⟨entry, hold, rfl⟩
  · exact .inl ⟨old, hold, rfl⟩
  · exact .inr rfl

/-- The values after an insertion: the old ones of the key, and the new one under a key that is the
same. -/
theorem mem_insert_value {entry : κ × List β} {v : β} (h : entry ∈ insert same key value m)
    (hv : v ∈ entry.2) : (∃ old ∈ m, old.1 = entry.1 ∧ v ∈ old.2) ∨ v = value := by
  rcases mem_insert h with ⟨old, hold, rfl | rfl⟩ | rfl
  · exact .inl ⟨entry, hold, rfl, hv⟩
  · rcases List.mem_append.mp hv with hmem | hnew
    · exact .inl ⟨old, hold, rfl, hmem⟩
    · exact .inr (List.mem_singleton.mp hnew)
  · exact .inr (List.mem_singleton.mp hv)

/-! ## Proper maps -/

theorem insert_proper (h : Proper same m) (key : κ) (value : β) :
    Proper same (insert same key value m) := by
  induction m with
  | nil =>
      refine ⟨List.pairwise_singleton _ _, ?_⟩
      intro entry hentry
      obtain rfl := List.mem_singleton.mp hentry
      exact List.cons_ne_nil _ _
  | cons entry m ih =>
      obtain ⟨hentry, hm⟩ := List.pairwise_cons.mp h.distinct
      have hproper : Proper same m := ⟨hm, fun e he => h.nonempty e (List.mem_cons_of_mem entry he)⟩
      rw [insert]
      split
      · refine ⟨List.pairwise_cons.mpr ⟨hentry, hm⟩, ?_⟩
        intro e he
        rcases List.mem_cons.mp he with rfl | he
        · simp
        · exact hproper.nonempty e he
      · next hnot =>
          have ih := ih hproper
          refine ⟨List.pairwise_cons.mpr ⟨?_, ih.distinct⟩, ?_⟩
          · intro e he
            rcases mem_insert_key he with ⟨old, hold, hkey⟩ | hkey
            · rw [← hkey]
              exact hentry old hold
            · rw [hkey]
              exact Bool.eq_false_iff.mpr hnot
          · intro e he
            rcases List.mem_cons.mp he with rfl | he
            · exact h.nonempty e List.mem_cons_self
            · exact ih.nonempty e he

theorem foldl_insertPair_proper (h : Proper same m) (ps : List (κ × β)) :
    Proper same (ps.foldl (insertPair same) m) := by
  induction ps generalizing m with
  | nil => exact h
  | cons p ps ih => exact ih (insert_proper h p.1 p.2)

theorem ofPairs_proper (ps : List (κ × β)) : Proper same (ofPairs same ps) :=
  foldl_insertPair_proper ⟨.nil, nofun⟩ ps

/-- All values of a new key, one after another. -/
theorem foldl_insertPair_key (hsame : Classes same) (h : ∀ entry ∈ m, same key entry.1 = false)
    (first : β) (rest : List β) :
    ((first :: rest).map fun value => (key, value)).foldl (insertPair same) m =
      m ++ [(key, first :: rest)] := by
  have hone : insertPair same m (key, first) = m ++ [(key, [first])] := insert_of_not_mem h
  -- the values that follow are inserted at the key that is there now
  have hmore : ∀ past, (rest.map fun value => (key, value)).foldl (insertPair same)
      (m ++ [(key, past)]) = m ++ [(key, past ++ rest)] := by
    induction rest with
    | nil => simp
    | cons value rest ih =>
        intro past
        have hstep : insertPair same (m ++ [(key, past)]) (key, value) =
            m ++ [(key, past ++ [value])] := by
          rw [insertPair, insert_append h, insert, hsame.refl key]
          rfl
        rw [List.map_cons, List.foldl_cons, hstep, ih, List.append_assoc]
        rfl
  rw [List.map_cons, List.foldl_cons, hone, hmore]
  rfl

theorem foldl_insertPair_pairs (hsame : Classes same) {rest : List (κ × List β)}
    (h : Proper same (m ++ rest)) : (pairs rest).foldl (insertPair same) m = m ++ rest := by
  induction rest generalizing m with
  | nil => simp [pairs]
  | cons entry rest ih =>
      have hassoc : m ++ entry :: rest = m ++ [entry] ++ rest := by simp
      have hnew : ∀ e ∈ m, same entry.1 e.1 = false := by
        intro e he
        have hpair := (List.pairwise_append.mp h.distinct).2.2
        exact hpair e he entry List.mem_cons_self
      have hvalues := h.nonempty entry (by simp)
      obtain ⟨first, more, hentry⟩ := List.exists_cons_of_ne_nil hvalues
      have hkey := foldl_insertPair_key hsame hnew first more
      rw [← hentry] at hkey
      rw [hassoc] at h
      rw [pairs, List.flatMap_cons, List.foldl_append, hkey, hassoc]
      exact ih h

/-- **A proper map is built again from its pairs.** -/
theorem ofPairs_pairs (hsame : Classes same) (h : Proper same m) :
    ofPairs same (pairs m) = m := foldl_insertPair_pairs hsame (m := []) h

/-! ## The keys -/

variable (same) in
/-- The keys that are not the same as an earlier one. -/
def firsts : List κ → List κ
  | [] => []
  | key :: keys => key :: (firsts keys).filter fun key' => !same key' key

theorem firsts_snoc (keys : List κ) (key : κ) :
    firsts same (keys ++ [key]) =
      if keys.any (same key) then firsts same keys else firsts same keys ++ [key] := by
  induction keys with
  | nil => rfl
  | cons first keys ih =>
      rw [List.cons_append, firsts, firsts, ih, List.any_cons]
      cases hany : keys.any (same key) with
      | true => simp
      | false => cases hfirst : same key first <;> simp [hfirst]

/-- A key that is the same as one of the keys is the same as one of the first. -/
theorem any_firsts (hsame : Classes same) (keys : List κ) (key : κ) :
    (firsts same keys).any (same key) = keys.any (same key) := by
  induction keys with
  | nil => rfl
  | cons first keys ih =>
      rw [firsts, List.any_cons, List.any_cons, ← ih, List.any_filter]
      cases hfirst : same key first with
      | true => rfl
      | false =>
          -- what is left out is the same as `first`, which the key is not
          congr 2
          funext key'
          cases hkey : same key key' with
          | false => exact Bool.and_false _
          | true =>
              rw [Bool.and_true, Bool.not_eq_true', Bool.eq_false_iff]
              intro hkey'
              exact absurd (hsame.trans _ _ _ hkey hkey') (by simp [hfirst])

theorem map_fst_insert (m : List (κ × List β)) (key : κ) (value : β) :
    (insert same key value m).map Prod.fst =
      if (m.map Prod.fst).any (same key) then m.map Prod.fst else m.map Prod.fst ++ [key] := by
  induction m with
  | nil => rfl
  | cons entry m ih =>
      rw [insert, List.map_cons, List.any_cons]
      cases hentry : same key entry.1 with
      | true => rfl
      | false =>
          rw [if_neg Bool.false_ne_true, List.map_cons, ih, Bool.false_or]
          split <;> rfl

/-- **The keys stand in the order in which they came first**, as they were spelled then. -/
theorem map_fst_ofPairs (hsame : Classes same) (ps : List (κ × β)) :
    (ofPairs same ps).map Prod.fst = firsts same (ps.map Prod.fst) := by
  induction ps using List.reverseRecOn with
  | nil => rfl
  | append_singleton ps p ih =>
      rw [ofPairs, List.foldl_append, List.foldl_cons, List.foldl_nil, insertPair]
      change (insert same p.1 p.2 (ofPairs same ps)).map Prod.fst = _
      rw [map_fst_insert, ih, any_firsts hsame, List.map_append, List.map_cons, List.map_nil,
        firsts_snoc]

/-! ## Lookup -/

theorem mem_of_lookup {entry : κ × List β} (h : lookup same m key = some entry) :
    entry ∈ m ∧ same key entry.1 = true :=
  ⟨List.mem_of_find?_eq_some h, by simpa using List.find?_some h⟩

/-- **What is found after an insertion**: the value is behind the others of its key. -/
theorem map_lookup_insert (hsame : Classes same) (m : List (κ × List β)) (key' : κ) (value : β) :
    (lookup same (insert same key' value m) key).map Prod.snd =
      if same key key' then some (((lookup same m key).map Prod.snd).getD [] ++ [value])
      else (lookup same m key).map Prod.snd := by
  induction m with
  | nil =>
      cases hkey : same key key' <;> simp [lookup, insert, hkey]
  | cons entry m ih =>
      rw [insert]
      split
      · next hentry =>
          -- the keys are the same, so they are found together
          have hboth : same key entry.1 = same key key' := by
            apply Bool.eq_iff_iff.mpr
            constructor
            · exact fun h => hsame.trans _ _ _ h (hsame.symm _ _ hentry)
            · exact fun h => hsame.trans _ _ _ h hentry
          cases hkey : same key key' <;> simp [lookup, hboth, hkey]
      · next hentry =>
          cases hfound : same key entry.1 with
          | true =>
              have hkey : same key key' = false := by
                apply Bool.eq_false_iff.mpr
                exact fun h => hentry (hsame.trans _ _ _ (hsame.symm _ _ h) hfound)
              simp [lookup, hfound, hkey]
          | false => simpa [lookup, hfound] using ih

/-- **What is found among pairs**: the values of the key, in their order. -/
theorem map_lookup_ofPairs (hsame : Classes same) (ps : List (κ × β)) (key : κ) :
    (lookup same (ofPairs same ps) key).map Prod.snd =
      match (ps.filter fun p => same key p.1).map Prod.snd with
      | [] => none
      | value :: values => some (value :: values) := by
  induction ps using List.reverseRecOn with
  | nil => rfl
  | append_singleton ps p ih =>
      rw [ofPairs, List.foldl_append, List.foldl_cons, List.foldl_nil, insertPair,
        map_lookup_insert hsame]
      change (if same key p.1 then some (((lookup same (ofPairs same ps) key).map Prod.snd).getD [] ++ _)
        else (lookup same (ofPairs same ps) key).map Prod.snd) = _
      rw [ih, List.filter_append, List.map_append]
      cases hkey : same key p.1 <;>
        cases (ps.filter fun p => same key p.1).map Prod.snd <;> simp [hkey]

/-- Every pair that was inserted can be found. -/
theorem lookup_ofPairs (hsame : Classes same) {ps : List (κ × β)} {p : κ × β} (h : p ∈ ps) :
    ∃ entry, lookup same (ofPairs same ps) p.1 = some entry ∧ p.2 ∈ entry.2 := by
  have hmem : p.2 ∈ (ps.filter fun q => same p.1 q.1).map Prod.snd :=
    List.mem_map_of_mem (List.mem_filter.mpr ⟨h, hsame.refl p.1⟩)
  have hlookup := map_lookup_ofPairs hsame ps p.1
  split at hlookup
  · next hnil =>
      rw [hnil] at hmem
      cases hmem
  · next hvalues =>
      obtain ⟨entry, hentry, hsnd⟩ := Option.map_eq_some_iff.mp hlookup
      refine ⟨entry, hentry, ?_⟩
      rw [hsnd, ← hvalues]
      exact hmem

theorem mem_foldl_insertPair {ps : List (κ × β)} {entry : κ × List β}
    (h : entry ∈ ps.foldl (insertPair same) m) :
    ((∃ old ∈ m, old.1 = entry.1) ∨ ∃ p ∈ ps, p.1 = entry.1) ∧
      ∀ v ∈ entry.2, (∃ old ∈ m, v ∈ old.2) ∨ ∃ p ∈ ps, p.2 = v := by
  induction ps generalizing m with
  | nil => exact ⟨.inl ⟨entry, h, rfl⟩, fun v hv => .inl ⟨entry, h, hv⟩⟩
  | cons p ps ih =>
      obtain ⟨hkey, hvalues⟩ := ih h
      constructor
      · rcases hkey with ⟨old, hold, hkey⟩ | ⟨q, hq, hkey⟩
        · rcases mem_insert_key hold with ⟨older, holder, hkey'⟩ | hkey'
          · exact .inl ⟨older, holder, hkey'.trans hkey⟩
          · exact .inr ⟨p, List.mem_cons_self, hkey'.symm.trans hkey⟩
        · exact .inr ⟨q, List.mem_cons_of_mem p hq, hkey⟩
      · intro v hv
        rcases hvalues v hv with ⟨old, hold, hv⟩ | ⟨q, hq, hv⟩
        · rcases mem_insert_value hold hv with ⟨older, holder, -, hv⟩ | hv
          · exact .inl ⟨older, holder, hv⟩
          · exact .inr ⟨p, List.mem_cons_self, hv.symm⟩
        · exact .inr ⟨q, List.mem_cons_of_mem p hq, hv⟩

/-- All keys and values come from the pairs. -/
theorem mem_ofPairs {ps : List (κ × β)} {entry : κ × List β} (h : entry ∈ ofPairs same ps) :
    (∃ p ∈ ps, p.1 = entry.1) ∧ ∀ v ∈ entry.2, ∃ p ∈ ps, p.2 = v := by
  obtain ⟨hkey, hvalues⟩ := mem_foldl_insertPair h
  constructor
  · exact hkey.resolve_left nofun
  · intro v hv
    exact (hvalues v hv).resolve_left nofun

end MultiMap
