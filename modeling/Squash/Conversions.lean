import Squash.Config.SetConfig
import Squash.Database.Meta
import Squash.State.Load
import Squash.Text.Grammar

/-!
# Empty values

`parse_file` gives the null pointer for the value of a line like `key=`, and `atoi`, `atol` and
`atof` must not be given it. `FileKind.arguments` lists what they are given while a file of Squash's
own is read, and for an `.info` file also while the length of the song is looked up in its tags.

Nothing but the lines of the file keeps the null pointer away from them: `null_not_mem_arguments_iff`
says which ones must not be empty.
-/

namespace Squash

/-! ## The arguments of the conversions -/

/-- What the program is compiled for. -/
structure ReaderBuild extends ConfigBuild where
  empeg : Bool
  ncurses : Bool
  deriving DecidableEq, Repr

/-- The arguments as the C library sees them. -/
def AddData.strings (call : AddData) : AddData :=
  ⟨call.header.map cString, cString call.key, call.value.map cString⟩

/-- What is given to a conversion. -/
abbrev Argument := Option (List Char)

/-- `set_config`: the first entry that matches has its value converted, unless it is a text. -/
def setConfigArguments (build : ConfigBuild) (call : AddData) : List Argument :=
  match build.configKeys.find? fun entry => entry.matches call.header call.key with
  | some entry => if entry.type = .string then [] else [call.value]
  | none => []

/-- `set_stat_data`: the value is converted whatever the key. -/
def setStatArguments (call : AddData) : List Argument := [call.value]

/-- The keys of `load_state_callback` that have numbers. -/
def isStateNumber (build : ReaderBuild) (key : List Char) : Bool :=
  if strncasecmp "entry_filename".toList key 16 then false
  else if strncasecmp "entry_position".toList key 16 then true
  else if strncasecmp "current_entry".toList key 15 then true
  else if build.empegDsp && strncasecmp "volume".toList key 7 then true
  else if build.empeg && strncasecmp "brightness".toList key 11 then true
  else if build.ncurses && strncasecmp "window_number".toList key 14 then true
  else build.ncurses && strncasecmp "window_state".toList key 13

/-- `load_state_callback`. -/
def loadStateArguments (build : ReaderBuild) (call : AddData) : List Argument :=
  if isStateNumber build call.key then [call.value] else []

/-- `ensure_song_fully_loaded`, on a song with some tags and a `play_length`. -/
def ensureSongFullyLoadedArguments (playLength : Int) (metaKeys : List MetaKey) : List Argument :=
  if playLength = -1 then
    let metaLength := match getMetaData metaKeys "duration".toList with
      | none => getMetaData metaKeys "length".toList
      | some metaKey => some metaKey
    match metaLength with
    | some (_, value :: _) => [value]
    | some (_, []) | none => []
  else []

/-- The files of Squash's own. An `.info` file is for a song with a `play_length`. -/
inductive FileKind where
  | config
  | stat
  | state
  | info (playLength : Int)
  deriving DecidableEq, Repr

/-- What the callback for a file gives to the conversions. -/
def FileKind.callbackArguments (build : ReaderBuild) : FileKind → AddData → List Argument
  | .config, call => setConfigArguments build.toConfigBuild call
  | .stat, call => setStatArguments call
  | .state, call => loadStateArguments build call
  | .info _, _ => []

/-- The tags that an `.info` file gives to a song. -/
def infoTags (text : List Char) : List MetaKey :=
  (((parseFile (some text) fun metaKeys call => some (insertMetaData metaKeys call.strings)) []).map
    Prod.fst).getD []

/-- What is given to the conversions in all. -/
def FileKind.arguments (build : ReaderBuild) (kind : FileKind) (text : List Char) : List Argument :=
  (((parseFile (some text) fun past call =>
    some (past ++ kind.callbackArguments build call.strings)) []).map Prod.fst).getD [] ++
  match kind with
  | .info playLength => ensureSongFullyLoadedArguments playLength (infoTags text)
  | .config | .stat | .state => []

/-! ## What the readers do with a null pointer

The readers go as far as they do, or end, by what they give to the conversions. -/

theorem setConfig_eq_none_iff (lib : FloatLibrary) (build : ConfigBuild) (config : Nat → UInt8)
    (header : Option (List Char)) (key : List Char) (value : ConfigText) :
    setConfig lib build config header key value = none ↔
      none ∈ setConfigArguments build ⟨header, key, value.map Prod.fst⟩ := by
  rw [setConfig, setConfigLoop_eq, setConfigArguments]
  cases build.configKeys.find? fun entry => entry.matches header key with
  | none => simp
  | some entry =>
      cases htype : entry.type <;> cases value <;> simp [DataType.convert, htype]

theorem setStatData_eq_none_iff (song : SongInfo) (call : AddData) :
    setStatData song call = none ↔ none ∈ setStatArguments call := by
  rw [setStatData, setStatArguments, List.mem_singleton, Option.map_eq_none_iff, eq_comm]

/-- Of the build with ncurses that is not for the empeg. -/
theorem loadStateCallback_eq_none (config : ConfigBuild) (hdsp : config.empegDsp = false)
    (info : StateInfo) {call : AddData}
    (h : none ∈ loadStateArguments ⟨config, false, true⟩ call) :
    loadStateCallback info call = none := by
  have hnumber : isStateNumber ⟨config, false, true⟩ call.key = true ∧ call.value = none := by
    rw [loadStateArguments] at h
    split at h
    · next hnumber => exact ⟨hnumber, (List.mem_singleton.mp h).symm⟩
    · cases h
  obtain ⟨header, key, value⟩ := call
  obtain ⟨hkey, rfl⟩ := hnumber
  simp only [isStateNumber, hdsp, Bool.false_and, Bool.true_and, Bool.false_eq_true, if_false] at hkey
  unfold loadStateCallback
  generalize strncasecmp "entry_filename".toList key 16 = filename at *
  generalize strncasecmp "entry_position".toList key 16 = position at *
  generalize strncasecmp "current_entry".toList key 15 = current at *
  generalize strncasecmp "window_number".toList key 14 = number at *
  generalize strncasecmp "window_state".toList key 13 = state at *
  cases filename with
  | true => cases hkey
  | false =>
      -- the first key that matches has its value bound
      cases position with
      | true => rfl
      | false =>
          cases current with
          | true => rfl
          | false =>
              cases number with
              | true => rfl
              | false =>
                  cases state with
                  | true => rfl
                  | false => cases hkey

/-! ## Lines without a value -/

/-- The entries on the lines of a file. -/
def fileEntries (text : List Char) : List AddData :=
  (lineCalls none (visible (marked text))).map AddData.strings

/-- The entry that `ensure_song_fully_loaded` has the length from. -/
def lengthEntry (entries : List AddData) : Option AddData :=
  (entries.find? fun entry => strcasecmp "duration".toList entry.key).or
    (entries.find? fun entry => strcasecmp "length".toList entry.key)

/-- The entries without a value are not for numbers. -/
def FileKind.Fits (build : ReaderBuild) (entries : List AddData) : FileKind → Prop
  | .config => ∀ entry ∈ entries, entry.value = none → ∀ configKey,
      (build.configKeys.find? fun configKey => configKey.matches entry.header entry.key) =
        some configKey → configKey.type = .string
  | .stat => ∀ entry ∈ entries, entry.value ≠ none
  | .state => ∀ entry ∈ entries, entry.value = none → isStateNumber build entry.key = false
  | .info playLength => playLength = -1 → ∀ entry, lengthEntry entries = some entry →
      entry.value ≠ none

section Parse

variable {α : Type}

/-- A callback that adds to a list. -/
theorem parseFile_append (f : AddData → List α) (text : List Char) :
    ((parseFile (some text) (fun past call => some (past ++ f call.strings)) []).map Prod.fst).getD
      [] = (fileEntries text).flatMap f := by
  have hfold : ∀ (calls : List AddData) (past : List α),
      calls.foldlM (fun past call => some (past ++ f call.strings)) past =
        some (past ++ (calls.map AddData.strings).flatMap f) := by
    intro calls
    induction calls with
    | nil => simp
    | cons call calls ih =>
        intro past
        rw [List.foldlM_cons]
        show List.foldlM _ (past ++ f call.strings) calls = _
        rw [ih]
        simp
  rw [fileEntries, ← parse_eq_visible]
  cases text with
  | nil => rfl
  | cons c text =>
      rw [parseFile_some (List.cons_ne_nil c text), hfold]
      rfl

theorem infoTags_eq (text : List Char) : infoTags text =
    MultiMap.ofPairs strcasecmp ((fileEntries text).map fun entry => (entry.key, entry.value)) := by
  rw [infoTags, fileEntries, ← parse_eq_visible]
  cases text with
  | nil => rfl
  | cons c text =>
      have hfold := foldlM_insertMetaData
        ((parse ⟨.beforeToken, none⟩ (c :: text)).map AddData.strings) []
      rw [List.foldlM_map] at hfold
      rw [parseFile_some (List.cons_ne_nil c text), hfold, MultiMap.ofPairs]
      rfl

end Parse

/-! ## When there is no null pointer -/

/-- A key is found with the value of its first entry in front. -/
theorem getMetaData_infoTags (text key : List Char) :
    match (fileEntries text).find? fun entry => strcasecmp key entry.key with
    | none => getMetaData (infoTags text) key = none
    | some entry => ∃ name rest, getMetaData (infoTags text) key = some (name, entry.value :: rest) := by
  have hlookup := MultiMap.map_lookup_ofPairs strcasecmp_classes
    ((fileEntries text).map fun entry => (entry.key, entry.value)) key
  rw [← infoTags_eq, List.filter_map, List.map_map] at hlookup
  rw [← List.head?_filter]
  cases hentries : (fileEntries text).filter fun entry => strcasecmp key entry.key with
  | nil =>
      simp only [Function.comp_def, hentries, List.map_nil] at hlookup
      exact Option.map_eq_none_iff.mp hlookup
  | cons entry entries =>
      simp only [Function.comp_def, hentries, List.map_cons] at hlookup
      obtain ⟨metaKey, hfound, hvalues⟩ := Option.map_eq_some_iff.mp hlookup
      exact ⟨metaKey.1, _, hfound.trans (congrArg some (Prod.ext rfl hvalues))⟩

/-- **The length of a song** is converted from the first entry for it. -/
theorem ensureSongFullyLoadedArguments_infoTags (playLength : Int) (text : List Char) :
    ensureSongFullyLoadedArguments playLength (infoTags text) =
      if playLength = -1 then ((lengthEntry (fileEntries text)).map AddData.value).toList
      else [] := by
  rw [ensureSongFullyLoadedArguments, lengthEntry]
  split
  · have hduration := getMetaData_infoTags text "duration".toList
    have hlength := getMetaData_infoTags text "length".toList
    cases hentry : (fileEntries text).find? fun entry => strcasecmp "duration".toList entry.key with
    | some entry =>
        rw [hentry] at hduration
        obtain ⟨name, rest, hfound⟩ := hduration
        rw [hfound]
        rfl
    | none =>
        rw [hentry] at hduration
        rw [hduration]
        cases hentry : (fileEntries text).find? fun entry => strcasecmp "length".toList entry.key with
        | some entry =>
            rw [hentry] at hlength
            obtain ⟨name, rest, hfound⟩ := hlength
            rw [hfound]
            rfl
        | none =>
            rw [hentry] at hlength
            rw [hlength]
            rfl
  · rfl

/-- **No conversion is given the null pointer** exactly when the lines for numbers are not empty: for
a configuration file, those of a key with a number; for a `.stat` file, all of them; for the state
file, those of a key with a number; and for an `.info` file the first one for the length, if it is
needed. -/
theorem null_not_mem_arguments_iff (build : ReaderBuild) (kind : FileKind) (text : List Char) :
    none ∉ kind.arguments build text ↔ kind.Fits build (fileEntries text) := by
  unfold FileKind.arguments
  rw [parseFile_append]
  cases kind with
  | config =>
      simp only [List.append_nil, List.mem_flatMap, not_exists, not_and, FileKind.callbackArguments,
        FileKind.Fits]
      apply forall₂_congr
      intro entry _
      rw [setConfigArguments]
      cases build.configKeys.find? fun configKey => configKey.matches entry.header entry.key with
      | none => simp
      | some configKey =>
          by_cases htype : configKey.type = .string
          · simp [htype]
          · simp [htype, eq_comm (a := none)]
  | stat =>
      simp [FileKind.callbackArguments, FileKind.Fits, setStatArguments, eq_comm]
  | state =>
      simp only [List.append_nil, List.mem_flatMap, not_exists, not_and, FileKind.callbackArguments,
        FileKind.Fits]
      apply forall₂_congr
      intro entry _
      rw [loadStateArguments]
      cases isStateNumber build entry.key <;> simp [eq_comm]
  | info playLength =>
      have hcallback : (fileEntries text).flatMap
          (FileKind.callbackArguments build (.info playLength)) = [] := by
        rw [List.flatMap_eq_nil_iff]
        intro entry _
        rfl
      show none ∉ _ ++ ensureSongFullyLoadedArguments playLength (infoTags text) ↔ _
      rw [hcallback, ensureSongFullyLoadedArguments_infoTags, FileKind.Fits]
      by_cases hlength : playLength = -1
      · cases lengthEntry (fileEntries text) <;> simp [hlength, eq_comm (a := none)]
      · simp [hlength]

/-- Lines without a value, for a file of each kind. -/
theorem null_mem_arguments :
    none ∈ FileKind.config.arguments ⟨⟨true, false, false⟩, false, true⟩ "Readonly=\n".toList ∧
      none ∈ FileKind.stat.arguments ⟨⟨true, false, false⟩, false, true⟩ "x=\n".toList ∧
      none ∈ FileKind.state.arguments ⟨⟨true, false, false⟩, false, true⟩ "current_entry=".toList ∧
      none ∈ (FileKind.info (-1)).arguments ⟨⟨true, false, false⟩, false, true⟩
        "length=\nlength=1\n".toList := by
  decide

end Squash
