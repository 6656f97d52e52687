import Squash.Database.Meta
import Squash.Database.Song
import Squash.Foundations.Memory
import Squash.Foundations.Transition

/-!
# `set_config`

The options are a table of keys, each with the address of a field of `config` and a type by which
the value of the key is converted and written there. `config` is modelled as the bytes that it is.

The types of the table agree with those of the fields but for one: `db_manual_rating_bias` is a
`float`, and its key has `TYPE_DOUBLE`. The write is twice as long as the field, and reaches into
`global_state_path` behind it (`setConfig_faithful_iff`).
-/

namespace Squash

open ByteMemory Transition

/-! ## The model -/

/-- What the program is compiled for: the size of pointers, `EMPEG_DSP` and `DEBUG`. -/
structure ConfigBuild where
  wide : Bool
  empegDsp : Bool
  debug : Bool
  deriving DecidableEq, Repr

/-- The fields of `config_s`. -/
inductive ConfigField where
  | dbPaths (basename : BasenameType)
  | dbMasterlistPath
  | dbReadonly
  | dbSaveinfo
  | dbOverwriteinfo
  | dbManualRatingBias
  | globalStatePath
  | inputFifoPath
  | playlistManagerPlaylistSize
  | playlistManagerPastlistSize
  | minSaveVolume
  | maxSaveVolume
  | squashLogPath
  deriving DecidableEq, Repr

/-- The type of a field. -/
inductive FieldType where
  | pointer | int | float
  deriving DecidableEq, Repr

def ConfigField.type : ConfigField → FieldType
  | .dbPaths _ | .dbMasterlistPath | .globalStatePath | .inputFifoPath | .squashLogPath => .pointer
  | .dbReadonly | .dbSaveinfo | .dbOverwriteinfo | .playlistManagerPlaylistSize
  | .playlistManagerPastlistSize | .minSaveVolume | .maxSaveVolume => .int
  | .dbManualRatingBias => .float

namespace ConfigBuild

def pointerSize (build : ConfigBuild) : Nat := if build.wide then 8 else 4

/-- `sizeof` of a field. -/
def size (build : ConfigBuild) (field : ConfigField) : Nat :=
  match field.type with
  | .pointer => build.pointerSize
  | .int | .float => 4

/-- `config_s`. All fields are aligned where the one before them ends. -/
def fields (build : ConfigBuild) : List ConfigField :=
  [.dbPaths .basenameSong, .dbPaths .basenameMeta, .dbPaths .basenameStat, .dbMasterlistPath,
    .dbReadonly, .dbSaveinfo, .dbOverwriteinfo, .dbManualRatingBias, .globalStatePath,
    .inputFifoPath, .playlistManagerPlaylistSize, .playlistManagerPastlistSize] ++
  (if build.empegDsp then [.minSaveVolume, .maxSaveVolume] else []) ++
  if build.debug then [.squashLogPath] else []

/-- The address of a field. -/
def address (build : ConfigBuild) (field : ConfigField) : Nat :=
  offset build.size build.fields field

end ConfigBuild

/-- `enum data_type_e`. -/
inductive DataType where
  | string | int | double
  deriving DecidableEq, Repr

/-- `config_keys_t`. -/
structure ConfigKey where
  header : List Char
  key : List Char
  value : ConfigField
  type : DataType
  deriving DecidableEq, Repr

/-- `config_keys`. -/
def ConfigBuild.configKeys (build : ConfigBuild) : List ConfigKey :=
  [⟨"Database".toList, "Info_Path".toList, .dbPaths .basenameMeta, .string⟩,
    ⟨"Database".toList, "Stat_Path".toList, .dbPaths .basenameStat, .string⟩,
    ⟨"Database".toList, "Song_Path".toList, .dbPaths .basenameSong, .string⟩,
    ⟨"Database".toList, "Masterlist_Filename".toList, .dbMasterlistPath, .string⟩,
    ⟨"Database".toList, "Readonly".toList, .dbReadonly, .int⟩,
    ⟨"Database".toList, "Save_Info".toList, .dbSaveinfo, .int⟩,
    ⟨"Database".toList, "Overwrite_Info".toList, .dbOverwriteinfo, .int⟩,
    ⟨"Database".toList, "Manual_Rating_Bias".toList, .dbManualRatingBias, .double⟩,
    ⟨"Global".toList, "State_Filename".toList, .globalStatePath, .string⟩,
    ⟨"Global".toList, "Control_Filename".toList, .inputFifoPath, .string⟩] ++
  (if build.debug then [⟨"Global".toList, "Log_Filename".toList, .squashLogPath, .string⟩]
    else []) ++
  (if build.empegDsp then
    [⟨"Empeg".toList, "save_volume_minimum".toList, .minSaveVolume, .int⟩,
      ⟨"Empeg".toList, "save_volume_maximum".toList, .maxSaveVolume, .int⟩] else []) ++
  [⟨"Playlist".toList, "Size".toList, .playlistManagerPlaylistSize, .int⟩,
    ⟨"Pastlist".toList, "Size".toList, .playlistManagerPastlistSize, .int⟩]

/-- Floating point of the C library, as bits: `atof`, and the conversion to a `float`. -/
structure FloatLibrary where
  atof : List Char → BitVec 64
  toFloat : BitVec 64 → BitVec 32

/-- The value of a call: the text and the address it lives at. The null pointer is `none`. -/
abbrev ConfigText := Option (List Char × Nat)

/-- The bytes of an `int`. -/
def intBytes (x : Int) : List UInt8 := bytesLE 4 (x % 2 ^ 32).toNat

/-- `*((T *)config_keys[i].value) = ...`: the bytes that are written, by the type of the table.
`none` when a null pointer is converted to a number. -/
def DataType.convert (lib : FloatLibrary) (build : ConfigBuild) (value : ConfigText) :
    DataType → Option (List UInt8)
  | .string => some (bytesLE build.pointerSize ((value.map Prod.snd).getD 0))
  | .int => value.map fun value => intBytes (Decimal.parse value.1)
  | .double => value.map fun value => bytesLE 8 (lib.atof value.1).toNat

/-- `!strcasecmp(key, config_keys[i].key) && !(header && strcasecmp(header, config_keys[i].header))`. -/
def ConfigKey.matches (entry : ConfigKey) (header : Option (List Char)) (key : List Char) : Bool :=
  strcasecmp key entry.key && header.all fun header => strcasecmp header entry.header

/-- The loop over the rest of the table. A key that matched is freed, and so is a value that was
converted, which makes both of them null. -/
def setConfigLoop (lib : FloatLibrary) (build : ConfigBuild) (header : Option (List Char)) :
    List ConfigKey → (Nat → UInt8) → Option (List Char) → ConfigText → Option (Nat → UInt8)
  | [], config, _, _ => some config
  | entry :: entries, config, key, value =>
    match key with
    | none => setConfigLoop lib build header entries config none value
    | some text =>
      if entry.matches header text then do
        let bytes ← entry.type.convert lib build value
        setConfigLoop lib build header entries (store config (build.address entry.value) bytes)
          none (if entry.type = .string then value else none)
      else setConfigLoop lib build header entries config key value

/-- `set_config`. -/
def setConfig (lib : FloatLibrary) (build : ConfigBuild) (config : Nat → UInt8)
    (header : Option (List Char)) (key : List Char) (value : ConfigText) : Option (Nat → UInt8) :=
  setConfigLoop lib build header build.configKeys config (some key) value

/-! ## One call -/

section Call

variable {lib : FloatLibrary} {build : ConfigBuild} {config : Nat → UInt8}
  {header : Option (List Char)} {key : List Char} {value : ConfigText}

theorem setConfigLoop_freed (entries : List ConfigKey) :
    setConfigLoop lib build header entries config none value = some config := by
  induction entries with
  | nil => rfl
  | cons entry entries ih => exact ih

/-- **Only the first entry that matches counts.** -/
theorem setConfigLoop_eq (entries : List ConfigKey) :
    setConfigLoop lib build header entries config (some key) value =
      match entries.find? fun entry => entry.matches header key with
      | none => some config
      | some entry => (entry.type.convert lib build value).map
          (store config (build.address entry.value)) := by
  induction entries with
  | nil => rfl
  | cons entry entries ih =>
      rw [setConfigLoop]
      cases hmatches : entry.matches header key with
      | true =>
          simp only [if_true, List.find?_cons, hmatches, setConfigLoop_freed]
          cases entry.type.convert lib build value <;> rfl
      | false =>
          simp only [Bool.false_eq_true, if_false, List.find?_cons, hmatches]
          exact ih

end Call

/-! ## Runs -/

/-- The arguments of a call with a value. -/
structure SetConfigCall where
  header : Option (List Char)
  key : List Char
  value : List Char
  valueAddress : Nat
  deriving DecidableEq, Repr

/-- The entry that a call sets: the first one with the key, under the header if there is one. -/
def SetConfigCall.entry (build : ConfigBuild) (call : SetConfigCall) : Option ConfigKey :=
  build.configKeys.find? fun entry => entry.matches call.header call.key

/-- A call, which reports itself. -/
def configStep (lib : FloatLibrary) (build : ConfigBuild) (config : Nat → UInt8)
    (call : SetConfigCall) : Option ((Nat → UInt8) × List SetConfigCall) :=
  (setConfig lib build config call.header call.key (some (call.value, call.valueAddress))).map
    fun config => (config, [call])

/-- The value of a call, converted to the type of a field. -/
def FieldType.convert (lib : FloatLibrary) (build : ConfigBuild) (call : SetConfigCall) :
    FieldType → List UInt8
  | .pointer => bytesLE build.pointerSize call.valueAddress
  | .int => intBytes (Decimal.parse call.value)
  | .float => bytesLE 4 (lib.toFloat (lib.atof call.value)).toNat

/-- What a field is. -/
def readField (build : ConfigBuild) (config : Nat → UInt8) (field : ConfigField) : List UInt8 :=
  load config (build.address field) (build.size field)

/-- What a field should be after the calls: the value of the last one that sets it, or what it was
before them. -/
def expected (lib : FloatLibrary) (build : ConfigBuild) (before : Nat → UInt8)
    (calls : List SetConfigCall) (field : ConfigField) : List UInt8 :=
  match calls.reverse.find? fun call => (call.entry build).any fun entry => entry.value = field with
  | some call => field.type.convert lib build call
  | none => readField build before field

/-- Every field is what it should be. -/
def FieldsHold (lib : FloatLibrary) (build : ConfigBuild) (before : Nat → UInt8)
    (s : (Nat → UInt8) × List SetConfigCall) : Prop :=
  ∀ field ∈ build.fields, readField build s.1 field = expected lib build before s.2 field

/-- A call that sets the bias has a `double` whose first half is the `float`, and whose second half is
what `global_state_path` begins with. -/
def BiasHarmless (lib : FloatLibrary) (build : ConfigBuild)
    (s : (Nat → UInt8) × List SetConfigCall) (call : SetConfigCall) : Prop :=
  ∀ entry, call.entry build = some entry → entry.value = .dbManualRatingBias →
    bytesLE 4 (lib.atof call.value).toNat = bytesLE 4 (lib.toFloat (lib.atof call.value)).toNat ∧
      bytesLE 4 ((lib.atof call.value).toNat / 256 ^ 4) =
        load s.1 (build.address .globalStatePath) 4

/-! ## The table and the record -/

/-- Every entry of the table is about a field that is there. -/
theorem value_mem_fields (build : ConfigBuild) :
    ∀ entry ∈ build.configKeys, entry.value ∈ build.fields := by
  obtain ⟨wide, empegDsp, debug⟩ := build
  cases wide <;> cases empegDsp <;> cases debug <;> decide

/-- The type by which the table has a field converted. -/
def FieldType.dataType : FieldType → DataType
  | .pointer => .string
  | .int => .int
  | .float => .double

/-- The table and the record agree, and the only `float` is the bias. -/
theorem type_agrees (build : ConfigBuild) : ∀ entry ∈ build.configKeys,
    entry.type = entry.value.type.dataType ∧
      (entry.value.type = .float ↔ entry.value = .dbManualRatingBias) := by
  obtain ⟨wide, empegDsp, debug⟩ := build
  cases wide <;> cases empegDsp <;> cases debug <;> decide

/-- The path of the state lies behind the bias. -/
theorem address_globalStatePath (build : ConfigBuild) :
    build.address .globalStatePath = build.address .dbManualRatingBias + 4 := by
  obtain ⟨wide, empegDsp, debug⟩ := build
  cases wide <;> cases empegDsp <;> cases debug <;> rfl

section Step

variable {lib : FloatLibrary} {build : ConfigBuild} {before : Nat → UInt8}
  {s : (Nat → UInt8) × List SetConfigCall} {call : SetConfigCall}

theorem length_convert (field : ConfigField) :
    (field.type.convert lib build call).length = build.size field := by
  rw [ConfigBuild.size]
  cases field.type <;> simp [FieldType.convert, intBytes]

theorem fieldsHold_mk {config : Nat → UInt8} {calls : List SetConfigCall} :
    FieldsHold lib build before (config, calls) ↔
      ∀ field ∈ build.fields, readField build config field = expected lib build before calls field :=
  Iff.rfl

/-- One more call changes what is expected of the field it sets. -/
theorem expected_snoc (calls : List SetConfigCall) (field : ConfigField) :
    expected lib build before (calls ++ [call]) field =
      if (call.entry build).any fun entry => entry.value = field then
        field.type.convert lib build call
      else expected lib build before calls field := by
  rw [expected, List.reverse_append, List.reverse_singleton, List.singleton_append, List.find?_cons]
  cases (call.entry build).any fun entry => entry.value = field <;> rfl

/-- **One step**: no call follows a null pointer, and a call that sets no field changes nothing. -/
theorem configStep_eq : observe (configStep lib build) s call =
    some (match call.entry build with
      | none => s.1
      | some entry => store s.1 (build.address entry.value)
          (((entry.type.convert lib build (some (call.value, call.valueAddress)))).getD []),
      s.2 ++ [call]) := by
  have hconvert : ∀ type : DataType, ∃ bytes,
      type.convert lib build (some (call.value, call.valueAddress)) = some bytes := by
    intro type
    cases type <;> exact ⟨_, rfl⟩
  apply observe_eq_some.mpr
  refine ⟨_, [call], ?_, rfl⟩
  rw [configStep, setConfig, setConfigLoop_eq]
  show Option.map _ (match call.entry build with | none => _ | some entry => _) = _
  cases call.entry build with
  | none => rfl
  | some entry =>
      obtain ⟨bytes, hbytes⟩ := hconvert entry.type
      simp only [hbytes]
      rfl

theorem readField_store_self {config : Nat → UInt8} {field : ConfigField} {bytes : List UInt8}
    (h : bytes.length = build.size field) :
    readField build (store config (build.address field) bytes) field = bytes := by
  rw [readField, ← h, load_store_self]

/-- Other fields keep their bytes. -/
theorem readField_store_of_ne {config : Nat → UInt8} {field other : ConfigField}
    {bytes : List UInt8} (hfield : field ∈ build.fields) (hother : other ∈ build.fields)
    (hne : other ≠ field) (h : bytes.length ≤ build.size field) :
    readField build (store config (build.address field) bytes) other =
      readField build config other := by
  have hdisjoint : build.address other + build.size other ≤ build.address field ∨
      build.address field + build.size field ≤ build.address other :=
    offset_disjoint hother hfield hne
  apply load_store_of_disjoint
  omega

/-- **A call for a field of the right type** sets the field, and nothing else. -/
theorem FieldsHold.store_agrees (h : FieldsHold lib build before s) {entry : ConfigKey}
    (hentry : call.entry build = some entry) (hbias : entry.value ≠ .dbManualRatingBias) :
    FieldsHold lib build before (store s.1 (build.address entry.value)
      ((entry.type.convert lib build (some (call.value, call.valueAddress))).getD []),
      s.2 ++ [call]) := by
  have hmem := List.mem_of_find?_eq_some hentry
  obtain ⟨htype, hfloat⟩ := type_agrees build entry hmem
  have hbytes : (entry.type.convert lib build (some (call.value, call.valueAddress))).getD [] =
      entry.value.type.convert lib build call := by
    rw [htype]
    cases hvalue : entry.value.type with
    | pointer => rfl
    | int => rfl
    | float => exact absurd (hfloat.mp hvalue) hbias
  intro field hfield
  rw [expected_snoc, hentry, hbytes]
  by_cases heq : entry.value = field
  · subst heq
    rw [readField_store_self (length_convert _)]
    simp
  · rw [readField_store_of_ne (value_mem_fields build entry hmem) hfield (Ne.symm heq)
      (Nat.le_of_eq (length_convert _)), h field hfield]
    simp [heq]

/-- The path of the state is four bytes and the rest of the pointer. -/
theorem size_globalStatePath (build : ConfigBuild) : ∃ rest, build.size .globalStatePath = 4 + rest := by
  obtain ⟨wide, empegDsp, debug⟩ := build
  cases wide with
  | true => exact ⟨4, rfl⟩
  | false => exact ⟨0, rfl⟩

/-- Four bytes at its beginning change the path of the state, unless they are what it begins with. -/
theorem readField_globalStatePath_store_iff {config : Nat → UInt8} {bytes : List UInt8}
    (h : bytes.length = 4) :
    readField build (store config (build.address .globalStatePath) bytes) .globalStatePath =
      readField build config .globalStatePath ↔
      bytes = load config (build.address .globalStatePath) 4 := by
  obtain ⟨rest, hrest⟩ := size_globalStatePath build
  rw [readField, readField, hrest, load_add (m := config), ← h, load_store_beginning]
  exact List.append_left_inj _

section Bias

variable {config : Nat → UInt8} {low high : List UInt8}

theorem globalStatePath_mem : ConfigField.globalStatePath ∈ build.fields := by
  simp [ConfigBuild.fields]

theorem dbManualRatingBias_mem : ConfigField.dbManualRatingBias ∈ build.fields := by
  simp [ConfigBuild.fields]

/-- Eight bytes at the bias are four for it and four for the path of the state. -/
theorem store_bias_eq (hlow : low.length = 4) :
    store config (build.address .dbManualRatingBias) (low ++ high) =
      store (store config (build.address .dbManualRatingBias) low)
        (build.address .globalStatePath) high := by
  rw [store_append, hlow, ← address_globalStatePath]

theorem readField_bias (hlow : low.length = 4) (hhigh : high.length = 4) :
    readField build (store config (build.address .dbManualRatingBias) (low ++ high))
      .dbManualRatingBias = low := by
  obtain ⟨rest, hrest⟩ := size_globalStatePath build
  rw [store_bias_eq hlow,
    readField_store_of_ne globalStatePath_mem dbManualRatingBias_mem (by simp) (by omega),
    readField_store_self hlow]

theorem readField_path_iff (hlow : low.length = 4) (hhigh : high.length = 4) :
    readField build (store config (build.address .dbManualRatingBias) (low ++ high))
      .globalStatePath = readField build config .globalStatePath ↔
      high = load config (build.address .globalStatePath) 4 := by
  have hbefore : load (store config (build.address .dbManualRatingBias) low)
      (build.address .globalStatePath) 4 = load config (build.address .globalStatePath) 4 := by
    apply load_store_of_disjoint
    rw [address_globalStatePath]
    omega
  have hpath : readField build (store config (build.address .dbManualRatingBias) low)
      .globalStatePath = readField build config .globalStatePath :=
    readField_store_of_ne dbManualRatingBias_mem globalStatePath_mem (by simp) (Nat.le_of_eq hlow)
  rw [store_bias_eq hlow, ← hpath, readField_globalStatePath_store_iff hhigh, hbefore]

theorem readField_other (hlow : low.length = 4) (hhigh : high.length = 4) {field : ConfigField}
    (hmem : field ∈ build.fields) (hbias : field ≠ .dbManualRatingBias)
    (hpath : field ≠ .globalStatePath) :
    readField build (store config (build.address .dbManualRatingBias) (low ++ high)) field =
      readField build config field := by
  obtain ⟨rest, hrest⟩ := size_globalStatePath build
  rw [store_bias_eq hlow, readField_store_of_ne globalStatePath_mem hmem hpath (by omega),
    readField_store_of_ne dbManualRatingBias_mem hmem hbias (Nat.le_of_eq hlow)]

end Bias

/-- Only the bias is expected to change by a call for it. -/
theorem expected_bias {entry : ConfigKey} (hentry : call.entry build = some entry)
    (hbias : entry.value = .dbManualRatingBias) (calls : List SetConfigCall)
    (field : ConfigField) : expected lib build before (calls ++ [call]) field =
      if field = .dbManualRatingBias then bytesLE 4 (lib.toFloat (lib.atof call.value)).toNat
      else expected lib build before calls field := by
  rw [expected_snoc, hentry]
  simp only [Option.any_some, hbias, decide_eq_true_eq]
  split
  · next heq =>
      subst heq
      rfl
  · next hne => rw [if_neg (Ne.symm hne)]

/-- **A call for the bias** sets the field and what lies behind it. -/
theorem FieldsHold.store_bias_iff (h : FieldsHold lib build before s) {entry : ConfigKey}
    (hentry : call.entry build = some entry) (hbias : entry.value = .dbManualRatingBias) :
    FieldsHold lib build before (store s.1 (build.address entry.value)
      ((entry.type.convert lib build (some (call.value, call.valueAddress))).getD []),
      s.2 ++ [call]) ↔ BiasHarmless lib build s call := by
  obtain ⟨htype, -⟩ := type_agrees build entry (List.mem_of_find?_eq_some hentry)
  have hsplit : (DataType.convert lib build (some (call.value, call.valueAddress)) .double).getD [] =
      bytesLE 4 (lib.atof call.value).toNat ++ bytesLE 4 ((lib.atof call.value).toNat / 256 ^ 4) :=
    bytesLE_add 4 4 _
  have hharmless : BiasHarmless lib build s call ↔
      bytesLE 4 (lib.atof call.value).toNat = bytesLE 4 (lib.toFloat (lib.atof call.value)).toNat ∧
        bytesLE 4 ((lib.atof call.value).toNat / 256 ^ 4) =
          load s.1 (build.address .globalStatePath) 4 :=
    ⟨fun harmless => harmless entry hentry hbias, fun harmless _ _ _ => harmless⟩
  rw [hharmless, htype, hbias]
  show FieldsHold lib build before (store s.1 _ ((DataType.convert _ _ _ .double).getD []), _) ↔ _
  rw [hsplit, fieldsHold_mk]
  have hlow := length_bytesLE 4 (lib.atof call.value).toNat
  have hhigh := length_bytesLE 4 ((lib.atof call.value).toNat / 256 ^ 4)
  simp only [expected_bias hentry hbias]
  constructor
  · intro hold
    refine ⟨(readField_bias hlow hhigh).symm.trans (hold _ dbManualRatingBias_mem), ?_⟩
    apply (readField_path_iff hlow hhigh).mp
    rw [hold _ globalStatePath_mem, if_neg (by simp)]
    exact (h _ globalStatePath_mem).symm
  · rintro ⟨hfloat, hpath⟩ field hmem
    split
    · next heq =>
        rw [heq, readField_bias hlow hhigh]
        exact hfloat
    · next hne =>
        rw [← h field hmem]
        by_cases heq : field = .globalStatePath
        · rw [heq]
          exact (readField_path_iff hlow hhigh).mpr hpath
        · exact readField_other hlow hhigh hmem hne heq

end Step

/-! ## Any number of calls -/

section Run

variable (lib : FloatLibrary) (build : ConfigBuild) (before : Nat → UInt8)

/-- **The fields are what the calls set them to** as long as no call for the bias does harm. -/
theorem setConfig_faithful_iff (calls : List SetConfigCall) :
    Always (observe (configStep lib build)) (FieldsHold lib build before) (before, []) calls ↔
      Guarded (observe (configStep lib build)) (BiasHarmless lib build) (before, []) calls := by
  -- a call keeps the fields exactly when it does no harm
  have hstep : ∀ s call s', FieldsHold lib build before s →
      observe (configStep lib build) s call = some s' →
      (FieldsHold lib build before s' ↔ BiasHarmless lib build s call) := by
    intro s call s' h hs'
    rw [configStep_eq] at hs'
    obtain rfl := Option.some.inj hs'
    cases hentry : call.entry build with
    | none =>
        have hharmless : BiasHarmless lib build s call := by
          intro entry hsome
          rw [hentry] at hsome
          cases hsome
        refine iff_of_true ?_ hharmless
        intro field hfield
        rw [expected_snoc, hentry]
        exact h field hfield
    | some entry =>
        by_cases hbias : entry.value = .dbManualRatingBias
        · exact h.store_bias_iff hentry hbias
        · refine iff_of_true (h.store_agrees hentry hbias) ?_
          intro other hother hvalue
          obtain rfl := Option.some.inj (hentry.symm.trans hother)
          exact absurd hvalue hbias
  apply always_iff_guarded (fun s (h : FieldsHold lib build before s) => h)
  · intro s call s' h hguard hs'
    exact (hstep s call s' h hs').mpr hguard
  · intro s call s' h hguard hs' hold
    exact hguard ((hstep s call s' h hs').mp hold)
  · intro field hfield
    rfl

end Run

/-- `Manual_Rating_Bias=0.25`: as a `double` the number begins with zeros, and it ends in the
pointer. -/
theorem setConfig_unfaithful :
    ¬ Always (observe (configStep ⟨fun _ => 0x3FD0000000000000#64, fun _ => 0x3E800000#32⟩
        ⟨true, false, false⟩))
      (FieldsHold ⟨fun _ => 0x3FD0000000000000#64, fun _ => 0x3E800000#32⟩ ⟨true, false, false⟩
        (fun _ => 0))
      ((fun _ => 0), []) [⟨none, "Manual_Rating_Bias".toList, "0.25".toList, 0⟩] := by
  intro h
  have hend := h.2 _ configStep_eq .dbManualRatingBias (by decide)
  revert hend
  decide

end Squash
