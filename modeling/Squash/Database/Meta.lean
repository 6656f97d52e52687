import Squash.Foundations.MultiMap
import Squash.Text.Grammar

/-!
# Tags and the `.info` file

The tags of a song are keys with lists of values. `insert_meta_data` finds a key whatever its case
and appends a value to it; `save_meta_data` writes a line for each value, and `parse_file` with
`insert_meta_data` reads them again.

`parseMeta_metaText` is the round trip: what can be written on lines comes back as it was, key for
key and value for value.
-/

namespace Squash

/-- `strcasecmp( s, t ) == 0`. -/
def strcasecmp (s t : List Char) : Bool := s.map Char.toLower == t.map Char.toLower

/-- `meta_key_t`: a key and its values, of which some may be the null pointer. -/
abbrev MetaKey := List Char × List (Option (List Char))

/-- `get_meta_data`. -/
def getMetaData (metaKeys : List MetaKey) (metaKey : List Char) : Option MetaKey :=
  MultiMap.lookup strcasecmp metaKeys metaKey

/-- `insert_meta_data`. -/
def insertMetaData (metaKeys : List MetaKey) (call : AddData) : List MetaKey :=
  MultiMap.insert strcasecmp call.key call.value metaKeys

/-- The lines of one key. There is nothing to write for a null pointer. -/
def metaKeyText (key : List Char) : List (Option (List Char)) → Option (List Char)
  | [] => some []
  | value :: values => do
    let value ← value
    let rest ← metaKeyText key values
    return keyLine key value ++ rest

def metaKeyTexts : List MetaKey → Option (List Char)
  | [] => some []
  | metaKey :: metaKeys => do
    let text ← metaKeyText metaKey.1 metaKey.2
    let rest ← metaKeyTexts metaKeys
    return text ++ rest

/-- What `save_meta_data` writes. -/
def metaText (metaKeys : List MetaKey) : Option (List Char) :=
  (metaKeyTexts metaKeys).map (· ++ ['\n'])

/-- `parse_file( metaname, insert_meta_data, song )`. -/
def parseMeta (info : Option (List Char)) (metaKeys : List MetaKey) :
    Option (List MetaKey × Bool) :=
  parseFile info (fun metaKeys call => some (insertMetaData metaKeys call)) metaKeys

theorem strcasecmp_classes : MultiMap.Classes strcasecmp where
  refl a := by simp [strcasecmp]
  symm a b h := by
    simp only [strcasecmp, beq_iff_eq] at h ⊢
    exact h.symm
  trans a b c hab hbc := by
    simp only [strcasecmp, beq_iff_eq] at hab hbc ⊢
    exact hab.trans hbc

theorem foldlM_insertMetaData (calls : List AddData) (metaKeys : List MetaKey) :
    calls.foldlM (fun metaKeys call => some (insertMetaData metaKeys call)) metaKeys =
      some ((calls.map fun call => (call.key, call.value)).foldl
        (MultiMap.insertPair strcasecmp) metaKeys) := by
  induction calls generalizing metaKeys with
  | nil => rfl
  | cons call calls ih => exact ih (insertMetaData metaKeys call)

/-- The file stands for the pairs of its calls. -/
theorem parseMeta_some {text : List Char} (h : text ≠ []) (metaKeys : List MetaKey) :
    parseMeta (some text) metaKeys =
      some (((parse ⟨.beforeToken, none⟩ text).map fun call => (call.key, call.value)).foldl
        (MultiMap.insertPair strcasecmp) metaKeys, true) := by
  rw [parseMeta, parseFile_some h, foldlM_insertMetaData]
  rfl

/-- Parsing tells whether there was anything in the file. -/
theorem parseMeta_eq (info : Option (List Char)) (metaKeys : List MetaKey) :
    ∃ loaded, parseMeta info metaKeys = some (loaded, decide (info.getD [] ≠ [])) := by
  rcases info with _ | _ | ⟨c, text⟩
  · exact ⟨metaKeys, rfl⟩
  · exact ⟨metaKeys, rfl⟩
  · exact ⟨_, parseMeta_some (List.cons_ne_nil c text) metaKeys⟩

/-! ## All insertions together -/

/-- The tags as a map of pairs. -/
theorem foldl_insertMetaData (calls : List AddData) :
    calls.foldl insertMetaData [] =
      MultiMap.ofPairs strcasecmp (calls.map fun call => (call.key, call.value)) := by
  rw [MultiMap.ofPairs, List.foldl_map]
  rfl

/-- The tags are what these insertions make: the keys differ, they stand in the order in which they
came first, as they were spelled then, and under each name all its values are found in their
order. -/
structure Collects (calls : List AddData) (metaKeys : List MetaKey) : Prop where
  distinct : metaKeys.Pairwise fun a b => strcasecmp b.1 a.1 = false
  spellings : metaKeys.map Prod.fst = MultiMap.firsts strcasecmp (calls.map AddData.key)
  values : ∀ name, (getMetaData metaKeys name).map Prod.snd =
    match (calls.filter fun call => strcasecmp name call.key).map AddData.value with
    | [] => none
    | value :: values => some (value :: values)

/-- **Tags are a map from keys, whatever their case, to lists of values.** -/
theorem insertMetaData_collects (calls : List AddData) :
    Collects calls (calls.foldl insertMetaData []) := by
  rw [foldl_insertMetaData]
  refine ⟨(MultiMap.ofPairs_proper _).distinct, ?_, ?_⟩
  · rw [MultiMap.map_fst_ofPairs strcasecmp_classes, List.map_map]
    rfl
  · intro name
    have hvalues : ((calls.map fun call => (call.key, call.value)).filter
        fun p => strcasecmp name p.1).map Prod.snd =
          (calls.filter fun call => strcasecmp name call.key).map AddData.value := by
      rw [List.filter_map, List.map_map]
      rfl
    rw [getMetaData, MultiMap.map_lookup_ofPairs strcasecmp_classes, hvalues]
    cases (calls.filter fun call => strcasecmp name call.key).map AddData.value <;> rfl

/-! ## The round trip -/

/-- A key and values that can be written on lines. -/
structure Writable (metaKey : MetaKey) : Prop where
  key : IsKey metaKey.1
  values : ∀ value ∈ metaKey.2, ∃ text, value = some text ∧ Trimmed text

/-- The calls that read tags again. -/
def metaCalls (metaKeys : List MetaKey) : List AddData :=
  (MultiMap.pairs metaKeys).map fun p => ⟨none, p.1, p.2⟩

theorem metaCalls_cons (metaKey : MetaKey) (metaKeys : List MetaKey) :
    metaCalls (metaKey :: metaKeys) =
      (metaKey.2.map fun value => ⟨none, metaKey.1, value⟩) ++ metaCalls metaKeys := by
  simp [metaCalls, MultiMap.pairs]

theorem metaKeyText_writable {key : List Char} {values : List (Option (List Char))}
    (hkey : IsKey key) (hvalues : ∀ value ∈ values, ∃ text, value = some text ∧ Trimmed text) :
    ∃ text, metaKeyText key values = some text ∧
      ∀ rest, parse ⟨.beforeToken, none⟩ (text ++ rest) =
        (values.map fun value => ⟨none, key, value⟩) ++ parse ⟨.beforeToken, none⟩ rest := by
  induction values with
  | nil => exact ⟨[], rfl, fun rest => rfl⟩
  | cons value values ih =>
      obtain ⟨text, rfl, htext⟩ := hvalues value List.mem_cons_self
      obtain ⟨texts, htexts, hparse⟩ := ih fun v hv => hvalues v (List.mem_cons_of_mem _ hv)
      refine ⟨keyLine key text ++ texts, ?_, ?_⟩
      · rw [metaKeyText, htexts]
        rfl
      · intro rest
        rw [List.append_assoc, parse_keyLine hkey htext, hparse]
        rfl

theorem metaKeyTexts_writable {metaKeys : List MetaKey} (h : ∀ m ∈ metaKeys, Writable m) :
    ∃ text, metaKeyTexts metaKeys = some text ∧
      ∀ rest, parse ⟨.beforeToken, none⟩ (text ++ rest) =
        metaCalls metaKeys ++ parse ⟨.beforeToken, none⟩ rest := by
  induction metaKeys with
  | nil => exact ⟨[], rfl, fun rest => rfl⟩
  | cons m metaKeys ih =>
      have hm := h m List.mem_cons_self
      obtain ⟨text, htext, hparse⟩ := metaKeyText_writable hm.key hm.values
      obtain ⟨texts, htexts, hparses⟩ := ih fun m' hm' => h m' (List.mem_cons_of_mem m hm')
      refine ⟨text ++ texts, ?_, ?_⟩
      · rw [metaKeyTexts, htext, htexts]
        rfl
      · intro rest
        rw [List.append_assoc, hparse, hparses, metaCalls_cons, List.append_assoc]

/-- **The reader makes one call for each value that was written.** -/
theorem parse_metaText {metaKeys : List MetaKey} (h : ∀ m ∈ metaKeys, Writable m) :
    ∃ text, metaText metaKeys = some text ∧ text ≠ [] ∧
      parse ⟨.beforeToken, none⟩ text = metaCalls metaKeys := by
  obtain ⟨text, htext, hparse⟩ := metaKeyTexts_writable h
  refine ⟨text ++ ['\n'], ?_, by simp, ?_⟩
  · rw [metaText, htext]
    rfl
  · rw [hparse, parse_newline]
    exact List.append_nil _

theorem metaCalls_pairs (metaKeys : List MetaKey) :
    ((metaCalls metaKeys).map fun call => (call.key, call.value)) = MultiMap.pairs metaKeys := by
  rw [metaCalls, List.map_map]
  exact List.map_id _

/-- **What was written is read again**, by a song without tags. The tags were built by
`insert_meta_data`, starting without any. -/
theorem parseMeta_metaText (calls : List AddData) (metaKeys : List MetaKey)
    (hbuilt : calls.foldl insertMetaData [] = metaKeys) (hwritable : ∀ m ∈ metaKeys, Writable m) :
    ∃ text, metaText metaKeys = some text ∧ parseMeta (some text) [] = some (metaKeys, true) := by
  have hproper : MultiMap.Proper strcasecmp metaKeys := by
    rw [← hbuilt, foldl_insertMetaData]
    exact MultiMap.ofPairs_proper _
  obtain ⟨text, htext, hne, hparse⟩ := parse_metaText hwritable
  refine ⟨text, htext, ?_⟩
  rw [parseMeta_some hne, hparse, metaCalls_pairs]
  show some (MultiMap.ofPairs strcasecmp (MultiMap.pairs metaKeys), true) = _
  rw [MultiMap.ofPairs_pairs strcasecmp_classes hproper]

/-- Two artists, one of them under another spelling of the key, and a title. -/
theorem parseMeta_metaText_twoArtists :
    ∃ text, metaText [("Artist".toList, [some "Heart".toList, some "Ann W.".toList]),
          ("title".toList, [some "Crazy = on [you]".toList])] = some text ∧
      parseMeta (some text) [] = some ([("Artist".toList, [some "Heart".toList,
        some "Ann W.".toList]), ("title".toList, [some "Crazy = on [you]".toList])], true) := by
  refine parseMeta_metaText [⟨none, "Artist".toList, some "Heart".toList⟩,
    ⟨none, "title".toList, some "Crazy = on [you]".toList⟩,
    ⟨none, "ARTIST".toList, some "Ann W.".toList⟩] _ (by decide) ?_
  intro m hm
  have hmem : m = ("Artist".toList, [some "Heart".toList, some "Ann W.".toList]) ∨
      m = ("title".toList, [some "Crazy = on [you]".toList]) := by simpa using hm
  rcases hmem with rfl | rfl
  · refine ⟨by decide, ?_⟩
    intro value hvalue
    have hvalue : value = some "Heart".toList ∨ value = some "Ann W.".toList := by
      rcases List.mem_cons.mp hvalue with rfl | hvalue
      · exact .inl rfl
      · exact .inr (List.mem_singleton.mp hvalue)
    rcases hvalue with rfl | rfl
    · exact ⟨_, rfl, by decide⟩
    · exact ⟨_, rfl, by decide⟩
  · refine ⟨by decide, ?_⟩
    intro value hvalue
    obtain rfl := List.mem_singleton.mp hvalue
    exact ⟨_, rfl, by decide⟩

end Squash
