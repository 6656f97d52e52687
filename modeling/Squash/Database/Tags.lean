import Squash.Database.Meta

/-!
# Tags from music files, and their cache

A song without an `.info` file gets its tags from the music file, by the loader of its type, and
`load_meta_data` writes them to an `.info` file, from which they come the next time. What the
decoders' libraries find in a file is given: the comments of an Ogg or FLAC file, and the text frames
of an MP3.

The second time the tags are the same exactly when each pair that the loader passes on can be written
on a line (`loadMetaInfo_cached_iff`). The MP3 loader cuts texts at line breaks, the other two do
not.
-/

namespace Squash

/-! ## The loaders -/

/-- What the Ogg and FLAC loaders make of one comment. -/
def commentCall (comment : List Char) : Option AddData :=
  if comment.contains '=' then some ⟨none, before '=' comment, some (after '=' comment)⟩ else none

/-- The calls of `insert_meta_data` in `ogg_load_meta`. -/
def oggLoadMeta (userComments : List (List Char)) : List AddData :=
  userComments.filterMap fun comment => commentCall (cString comment)

/-- `FLAC__StreamMetadata`. -/
inductive FlacMetadata where
  | vorbisComment (comments : List (List Char))
  | other
  deriving DecidableEq, Repr

def flacMetadataCallbackLoadMeta : FlacMetadata → List AddData
  | .vorbisComment comments => comments.filterMap fun comment => commentCall (cString comment)
  | .other => []

/-- `ID3_FrameID`, as far as `mp3_load_meta` tells them apart. -/
inductive FrameId where
  | noFrame | privateFrame | comment | syncedLyrics | album | bpm | composer | contentType | date
  | lyricist | fileType | contentGroup | title | subtitle | language | songLen | mediaType
  | origAlbum | origLyricist | origArtist | leadArtist | band | conductor | mixArtist | partInSet
  | trackNum | isrc | userText | year | unsyncedLyrics | other
  deriving DecidableEq, Repr

/-- The first and the last column of `fid_to_db`. -/
def fidToDb : List (FrameId × List Char) :=
  [(.comment, "comment".toList), (.syncedLyrics, "lyrics_syncronized".toList),
    (.album, "album".toList), (.bpm, "bpm".toList), (.composer, "artist_composer".toList),
    (.contentType, "genre".toList), (.date, "".toList), (.lyricist, "artist_lyrics".toList),
    (.fileType, "file_type".toList), (.contentGroup, "music_group".toList),
    (.title, "title".toList), (.subtitle, "song_mix".toList), (.language, "language".toList),
    (.songLen, "length".toList), (.mediaType, "original_media".toList),
    (.origAlbum, "album_original".toList), (.origLyricist, "artist_lyrics_original".toList),
    (.origArtist, "artist_original".toList), (.leadArtist, "artist".toList),
    (.band, "artist_extra".toList), (.conductor, "artist_conductor".toList),
    (.mixArtist, "artist_remix".toList), (.partInSet, "disc".toList),
    (.trackNum, "tracknumber".toList), (.isrc, "isrc".toList), (.userText, "user_text".toList),
    (.year, "year".toList), (.unsyncedLyrics, "lyrics".toList)]

def frameKey (frameId : FrameId) : Option (List Char) :=
  if frameId = .noFrame ∨ frameId = .privateFrame then none
  else (fidToDb.find? fun entry => entry.1 = frameId).map Prod.snd

/-- A text frame: its kind, and what `ID3Field_GetASCII` copies into the buffer for it. -/
structure Id3Frame where
  frameId : FrameId
  text : List Char
  deriving DecidableEq, Repr

/-- The character goes on a value: it ends neither the buffer's string nor a line. -/
def isPlain (c : Char) : Bool := c != '\x00' && !isEol c

/-- The loop of `mp3_load_meta` over the rest of the buffer, from `cur_ptr` on. -/
def mp3Values (buffer : List Char) : List (List Char) :=
  match _hstop : buffer.dropWhile isPlain with
  | [] => [buffer.takeWhile isPlain]
  | c :: behind =>
    if isEol c && !(behind.dropWhile isEol).isEmpty then
      buffer.takeWhile isPlain :: mp3Values (behind.dropWhile isEol)
    else [buffer.takeWhile isPlain]
termination_by buffer.length
decreasing_by
  have hbuffer := List.length_dropWhile_le isPlain buffer
  have hbehind := List.length_dropWhile_le isEol behind
  rw [_hstop, List.length_cons] at hbuffer
  omega

/-- The calls of `insert_meta_data` in `mp3_load_meta`. -/
def mp3LoadMeta (frames : List Id3Frame) : List AddData :=
  frames.flatMap fun frame =>
    match frameKey frame.frameId with
    | none => []
    | some key => (mp3Values frame.text).map fun value => ⟨none, key, some value⟩

/-- The tags in a music file of a known type. -/
inductive SongTags where
  | ogg (userComments : List (List Char))
  | flac (blocks : List FlacMetadata)
  | mp3 (frames : List Id3Frame)
  deriving DecidableEq, Repr

/-- The `switch` of `load_meta_data`. -/
def SongTags.calls : SongTags → List AddData
  | .ogg userComments => oggLoadMeta userComments
  | .flac blocks => blocks.flatMap flacMetadataCallbackLoadMeta
  | .mp3 frames => mp3LoadMeta frames

/-- The part of `config` that the `.info` files depend on. -/
structure InfoConfig where
  dbSaveinfo : Bool
  dbOverwriteinfo : Bool

/-- `load_meta_data( song, TYPE_META )`: the tags afterwards, and the `.info` file. The file may not
exist, and the type of the music file may be unknown. -/
def loadMetaInfo (config : InfoConfig) (tags : Option SongTags) (info : Option (List Char))
    (metaKeys : List MetaKey) : Option (List MetaKey × Option (List Char)) := do
  let (metaKeys, success) ←
    if config.dbOverwriteinfo && config.dbSaveinfo then some (metaKeys, false)
    else parseMeta info metaKeys
  match tags with
  | none => return (metaKeys, info)
  | some tags =>
    if success then return (metaKeys, info)
    else
      let metaKeys := tags.calls.foldl insertMetaData metaKeys
      if config.dbSaveinfo && (info.isNone || config.dbOverwriteinfo) then
        let text ← metaText metaKeys
        return (metaKeys, some text)
      else return (metaKeys, info)

/-! ## Which pairs come back -/

/-- A pair that can be written on a line. -/
structure Cacheable (call : AddData) : Prop where
  key : IsKey call.key
  value : ∃ text, call.value = some text ∧ Trimmed text

/-- All tags that loaders make have values, so they can be written, whatever is in them. -/
theorem metaKeyText_some (key : List Char) {values : List (Option (List Char))}
    (h : ∀ value ∈ values, value ≠ none) : ∃ text, metaKeyText key values = some text := by
  induction values with
  | nil => exact ⟨[], rfl⟩
  | cons value values ih =>
      obtain ⟨texts, htexts⟩ := ih fun v hv => h v (List.mem_cons_of_mem value hv)
      cases value with
      | none => exact absurd rfl (h none List.mem_cons_self)
      | some text =>
          refine ⟨keyLine key text ++ texts, ?_⟩
          rw [metaKeyText, htexts]
          rfl

theorem metaText_some {metaKeys : List MetaKey}
    (h : ∀ m ∈ metaKeys, ∀ value ∈ m.2, value ≠ none) :
    ∃ text, metaText metaKeys = some text ∧ text ≠ [] := by
  have htexts : ∃ text, metaKeyTexts metaKeys = some text := by
    induction metaKeys with
    | nil => exact ⟨[], rfl⟩
    | cons m metaKeys ih =>
        obtain ⟨text, htext⟩ := metaKeyText_some m.1 (h m List.mem_cons_self)
        obtain ⟨texts, htexts⟩ := ih fun m' hm' => h m' (List.mem_cons_of_mem m hm')
        refine ⟨text ++ texts, ?_⟩
        rw [metaKeyTexts, htext, htexts]
        rfl
  obtain ⟨text, htext⟩ := htexts
  refine ⟨text ++ ['\n'], ?_, by simp⟩
  rw [metaText, htext]
  rfl

theorem mem_tags {calls : List AddData} {m : MetaKey} (h : m ∈ calls.foldl insertMetaData []) :
    (∃ call ∈ calls, call.key = m.1) ∧ ∀ value ∈ m.2, ∃ call ∈ calls, call.value = value := by
  rw [foldl_insertMetaData] at h
  obtain ⟨⟨p, hp, hkey⟩, hvalues⟩ := MultiMap.mem_ofPairs h
  constructor
  · obtain ⟨call, hcall, rfl⟩ := List.mem_map.mp hp
    exact ⟨call, hcall, hkey⟩
  · intro value hvalue
    obtain ⟨p, hp, hvalue⟩ := hvalues value hvalue
    obtain ⟨call, hcall, rfl⟩ := List.mem_map.mp hp
    exact ⟨call, hcall, hvalue⟩

/-- A character that the reader of `.info` files takes as more than a letter. -/
def isSpecial (c : Char) : Bool := isBlank c || isEol c || c == '#' || c == '['

theorem eq_of_toLower_eq {c d : Char} (hc : isSpecial c = true) (h : d.toLower = c.toLower) :
    d = c := by
  have hcases : c = ' ' ∨ c = '\t' ∨ c = '\r' ∨ c = '\n' ∨ c = '#' ∨ c = '[' := by
    simpa [isSpecial, isBlank, isEol, or_assoc] using hc
  have hletter : ¬ ('a'.val ≤ c.val ∧ c.val ≤ 'z'.val) ∧ c.toLower = c := by
    rcases hcases with rfl | rfl | rfl | rfl | rfl | rfl <;> decide
  exact eq_of_toLower hletter.1 (h.trans hletter.2)

/-- A key that is found under another spelling is as special as that. -/
theorem special_of_strcasecmp {s t : List Char} (h : strcasecmp s t = true) {c : Char}
    (hc : isSpecial c = true) :
    (c ∈ s → c ∈ t) ∧ (c ∈ s.head? → c ∈ t.head?) ∧ (c ∈ s.getLast? → c ∈ t.getLast?) := by
  have hmap : s.map Char.toLower = t.map Char.toLower := by simpa [strcasecmp] using h
  refine ⟨?_, ?_, ?_⟩
  · intro hmem
    have hlower : c.toLower ∈ t.map Char.toLower := hmap ▸ List.mem_map_of_mem hmem
    obtain ⟨d, hd, heq⟩ := List.mem_map.mp hlower
    exact eq_of_toLower_eq hc heq ▸ hd
  · intro hhead
    have hlower := congrArg List.head? hmap
    rw [List.head?_map, List.head?_map, Option.mem_def.mp hhead] at hlower
    obtain ⟨d, hd, heq⟩ := Option.map_eq_some_iff.mp hlower.symm
    exact eq_of_toLower_eq hc heq ▸ hd
  · intro hlast
    have hlower := congrArg List.getLast? hmap
    rw [List.getLast?_map, List.getLast?_map, Option.mem_def.mp hlast] at hlower
    obtain ⟨d, hd, heq⟩ := Option.map_eq_some_iff.mp hlower.symm
    exact eq_of_toLower_eq hc heq ▸ hd

theorem IsKey.of_strcasecmp {s t : List Char} (h : strcasecmp s t = true) (heq : '=' ∉ s)
    (ht : Trimmed t) (hstart : ∀ c ∈ t.head?, c ≠ '#' ∧ c ≠ '[') : IsKey s := by
  have hspecial := fun c (hc : isSpecial c = true) => special_of_strcasecmp h hc
  refine ⟨⟨?_, ?_, ?_, ?_⟩, heq, ?_⟩
  · rintro rfl
    have hmap : t.map Char.toLower = [] := by simpa [strcasecmp] using h
    exact ht.ne_nil (List.map_eq_nil_iff.mp hmap)
  · intro c hc
    by_contra hno
    have heol : isEol c = true := by simpa using hno
    have hmem := (hspecial c (by simp [isSpecial, heol])).1 hc
    simp [ht.no_eol c hmem] at heol
  · intro c hc
    by_contra hno
    have hblank : isBlank c = true := by simpa using hno
    have hmem := (hspecial c (by simp [isSpecial, hblank])).2.1 hc
    simp [ht.head c hmem] at hblank
  · intro c hc
    by_contra hno
    have hblank : isBlank c = true := by simpa using hno
    have hmem := (hspecial c (by simp [isSpecial, hblank])).2.2 hc
    simp [ht.last c hmem] at hblank
  · intro c hc
    constructor
    · rintro rfl
      exact (hstart '#' ((hspecial '#' rfl).2.1 hc)).1 rfl
    · rintro rfl
      exact (hstart '[' ((hspecial '[' rfl).2.1 hc)).2 rfl

/-- **The tags are the same again exactly when every pair can be written on a line.** -/
theorem getMetaData_again_iff {calls : List AddData}
    (hvalues : ∀ call ∈ calls, ∃ text, call.value = some text)
    (hkeys : ∀ call ∈ calls, '=' ∉ call.key) :
    ∃ text second, metaText (calls.foldl insertMetaData []) = some text ∧
      parseMeta (some text) [] = some (second, true) ∧
      ((∀ key, getMetaData (calls.foldl insertMetaData []) key = getMetaData second key) ↔
        ∀ call ∈ calls, Cacheable call) := by
  have hsome : ∀ m ∈ calls.foldl insertMetaData [], ∀ value ∈ m.2, value ≠ none := by
    intro m hm value hvalue
    obtain ⟨call, hcall, rfl⟩ := (mem_tags hm).2 value hvalue
    obtain ⟨text, htext⟩ := hvalues call hcall
    simp [htext]
  obtain ⟨text, htext, hne⟩ := metaText_some hsome
  let read := parse ⟨.beforeToken, none⟩ text
  have hparse : parseMeta (some text) [] = some (read.foldl insertMetaData [], true) := by
    rw [parseMeta_some hne, foldl_insertMetaData]
    rfl
  refine ⟨text, read.foldl insertMetaData [], htext, hparse, ?_⟩
  constructor
  · intro hsame call hcall
    have hpair : (call.key, call.value) ∈ calls.map fun call => (call.key, call.value) :=
      List.mem_map_of_mem hcall
    obtain ⟨m, hm, hvalue⟩ := MultiMap.lookup_ofPairs strcasecmp_classes hpair
    rw [← foldl_insertMetaData] at hm
    have hagain : getMetaData (read.foldl insertMetaData []) call.key = some m :=
      (hsame call.key).symm.trans hm
    -- what was read is trimmed
    obtain ⟨hmem, hkey⟩ := MultiMap.mem_of_lookup hagain
    obtain ⟨⟨keyCall, hkeyCall, hread⟩, hreadValues⟩ := mem_tags hmem
    obtain ⟨htrim, hstart, -⟩ := parse_trimmed hkeyCall
    rw [hread] at htrim hstart
    obtain ⟨valueCall, hvalueCall, hread'⟩ := hreadValues call.value hvalue
    obtain ⟨value, hsome'⟩ := hvalues call hcall
    refine ⟨IsKey.of_strcasecmp hkey (hkeys call hcall) htrim hstart, value, hsome', ?_⟩
    exact (parse_trimmed hvalueCall).2.2 value (by rw [hread', hsome']; rfl)
  · intro hcacheable key
    have hwritable : ∀ m ∈ calls.foldl insertMetaData [], Writable m := by
      intro m hm
      obtain ⟨⟨call, hcall, hkey⟩, hmvalues⟩ := mem_tags hm
      refine ⟨hkey ▸ (hcacheable call hcall).key, ?_⟩
      intro value hvalue
      obtain ⟨call', hcall', rfl⟩ := hmvalues value hvalue
      exact (hcacheable call' hcall').value
    obtain ⟨text', htext', hparse'⟩ := parseMeta_metaText calls _ rfl hwritable
    obtain rfl : text = text' := Option.some.inj (htext.symm.trans htext')
    have hread : (read.foldl insertMetaData [], true) = (calls.foldl insertMetaData [], true) :=
      Option.some.inj (hparse.symm.trans hparse')
    rw [(Prod.mk.inj hread).1]

/-! ## What must be in the tags -/

/-- A comment whose key and value can be written on a line, if it has a key. -/
def CommentFits (comment : List Char) : Prop :=
  ∀ key value, comment = key ++ '=' :: value → '=' ∉ key → IsKey key ∧ Trimmed value

/-- A text in a buffer whose lines can be written as values: the first line is a value even if it is
empty, and so is the end of the string behind a line break, unless the buffer is over there. -/
structure TextFits (buffer : List Char) : Prop where
  first : ∀ line ∈ ((cString buffer).splitOnP isEol).head?, Trimmed line
  lines : ∀ line ∈ (cString buffer).splitOnP isEol, line ≠ [] → Trimmed line
  ended : ∀ c ∈ (cString buffer).getLast?, isEol c = true → cString buffer = buffer

/-- A frame that is not looked at, or one with a key and a text that can be written. -/
def FrameFits (frame : Id3Frame) : Prop :=
  frameKey frame.frameId ≠ none → frame.frameId ≠ .date ∧ TextFits frame.text

def SongTags.Fit : SongTags → Prop
  | .ogg userComments => ∀ comment ∈ userComments, CommentFits (cString comment)
  | .flac blocks =>
    ∀ comments, .vorbisComment comments ∈ blocks → ∀ comment ∈ comments, CommentFits (cString comment)
  | .mp3 frames => ∀ frame ∈ frames, FrameFits frame

theorem before_after_append {c : Char} {s : List Char} (h : c ∉ s) (t : List Char) :
    before c (s ++ c :: t) = s ∧ after c (s ++ c :: t) = t := by
  induction s with
  | nil => simp [before, after]
  | cons d s ih =>
      have hd : d ≠ c := fun hd => h (hd ▸ List.mem_cons_self)
      obtain ⟨hbefore, hafter⟩ := ih fun hmem => h (List.mem_cons_of_mem d hmem)
      constructor
      · rw [before] at hbefore ⊢
        simp [hd, hbefore]
      · rw [after] at hafter ⊢
        simp [hd, hafter]

theorem commentCall_eq_some {comment : List Char} {call : AddData} :
    commentCall comment = some call ↔ ∃ key value,
      comment = key ++ '=' :: value ∧ '=' ∉ key ∧ call = ⟨none, key, some value⟩ := by
  constructor
  · intro h
    unfold commentCall at h
    split at h
    · next hkey =>
        cases h
        refine ⟨_, _, eq_before_after hkey, ?_, rfl⟩
        intro hmem
        exact (mem_before hmem).2 rfl
    · cases h
  · rintro ⟨key, value, rfl, hkey, rfl⟩
    obtain ⟨hbefore, hafter⟩ := before_after_append hkey value
    simp [commentCall, hbefore, hafter]

theorem comments_cacheable_iff (comments : List (List Char)) :
    (∀ call ∈ comments.filterMap fun comment => commentCall (cString comment), Cacheable call) ↔
      ∀ comment ∈ comments, CommentFits (cString comment) := by
  constructor
  · intro h comment hcomment key value heq hkey
    have hcall : commentCall (cString comment) = some ⟨none, key, some value⟩ :=
      commentCall_eq_some.mpr ⟨key, value, heq, hkey, rfl⟩
    have hcacheable := h _ (List.mem_filterMap.mpr ⟨comment, hcomment, hcall⟩)
    obtain ⟨text, htext, htrim⟩ := hcacheable.value
    cases htext
    exact ⟨hcacheable.key, htrim⟩
  · intro h call hcall
    obtain ⟨comment, hcomment, hcall⟩ := List.mem_filterMap.mp hcall
    obtain ⟨key, value, heq, hkey, rfl⟩ := commentCall_eq_some.mp hcall
    obtain ⟨hiskey, htrim⟩ := h comment hcomment key value heq hkey
    exact ⟨hiskey, value, rfl, htrim⟩

/-! ### The lines of a frame -/

theorem not_mem_of_isEol {s : List Char} (h : ∀ c ∈ s, isEol c = true) : '\x00' ∉ s := by
  intro hmem
  exact absurd (h _ hmem) (by decide)

/-- Line breaks in front of a text add empty lines only. -/
theorem mem_splitOnP_eols {s : List Char} (h : ∀ c ∈ s, isEol c = true) (t : List Char)
    {line : List Char} (hne : line ≠ []) :
    line ∈ (s ++ t).splitOnP isEol ↔ line ∈ t.splitOnP isEol := by
  induction s with
  | nil => rfl
  | cons c s ih =>
      have hc := h c List.mem_cons_self
      rw [List.cons_append, List.splitOnP_cons_eq_if_modifyHead, if_pos hc, List.mem_cons,
        ih fun d hd => h d (List.mem_cons_of_mem c hd)]
      exact or_iff_right hne

/-- A text that is one line. -/
theorem textFits_line {buffer line : List Char} (hstring : cString buffer = line)
    (hline : ∀ c ∈ line, isEol c = false) : TextFits buffer ↔ Trimmed line := by
  subst hstring
  have hsplit : (cString buffer).splitOnP isEol = [cString buffer] :=
    List.splitOnP_eq_singleton hline
  constructor
  · intro h
    exact h.first _ (by rw [hsplit]; rfl)
  · intro h
    refine ⟨?_, ?_, ?_⟩
    · intro line hmem
      rw [hsplit] at hmem
      cases hmem
      exact h
    · intro line hmem _
      rw [hsplit] at hmem
      exact List.mem_singleton.mp hmem ▸ h
    · intro c hc heol
      have hno := hline c (List.mem_of_getLast? hc)
      rw [hno] at heol
      cases heol

/-- A text that does not start with a line break has a first line. -/
theorem ne_nil_of_first {s line : List Char} (hs : s ≠ []) (hfirst : ∀ c ∈ s.head?, isEol c = false)
    (hline : line ∈ (s.splitOnP isEol).head?) : line ≠ [] := by
  obtain ⟨c, s, rfl⟩ := List.exists_cons_of_ne_nil hs
  rw [List.splitOnP_cons_eq_if_modifyHead, hfirst c rfl] at hline
  rintro rfl
  cases hlines : s.splitOnP isEol <;> simp [hlines] at hline

/-! ### Lines that are cut off -/

section Plain

variable {line : List Char} (h : ∀ c ∈ line, isPlain c = true)

include h

theorem not_mem_of_plain : '\x00' ∉ line := fun hmem => absurd (h _ hmem) (by decide)

theorem isEol_of_plain : ∀ c ∈ line, isEol c = false := by
  intro c hc
  have hplain := h c hc
  simp only [isPlain, Bool.and_eq_true, Bool.not_eq_true'] at hplain
  exact hplain.2

end Plain

theorem takeWhile_isPlain (buffer : List Char) : ∀ c ∈ buffer.takeWhile isPlain, isPlain c = true :=
  fun _ => List.mem_takeWhile_imp

section Break

/-! A line, line breaks, and the rest of the buffer. -/

variable {value eols rest : List Char}

theorem cString_break (hvalue : ∀ c ∈ value, isPlain c = true)
    (heols : ∀ c ∈ eols, isEol c = true) (rest : List Char) :
    cString (value ++ (eols ++ rest)) = value ++ (eols ++ cString rest) := by
  rw [cString_append (not_mem_of_plain hvalue), cString_append (not_mem_of_isEol heols)]

/-- The line is the first, and what is behind it are the lines of the rest. -/
theorem splitOnP_break (hvalue : ∀ c ∈ value, isPlain c = true)
    (heols : ∀ c ∈ eols, isEol c = true) (hne : eols ≠ []) (rest : List Char) :
    ∃ lines, (cString (value ++ (eols ++ rest))).splitOnP isEol = value :: lines ∧
      ∀ line, line ≠ [] → (line ∈ lines ↔ line ∈ (cString rest).splitOnP isEol) := by
  rw [cString_break hvalue heols]
  obtain ⟨e, es, rfl⟩ := List.exists_cons_of_ne_nil hne
  have hes : ∀ c ∈ es, isEol c = true := fun c hc => heols c (List.mem_cons_of_mem e hc)
  refine ⟨(es ++ cString rest).splitOnP isEol, ?_, ?_⟩
  · exact List.splitOnP_append_cons_of_forall_mem (isEol_of_plain hvalue) e
      (heols e List.mem_cons_self) _
  · intro line hnonempty
    exact mem_splitOnP_eols hes _ hnonempty

theorem getLast?_break (hvalue : ∀ c ∈ value, isPlain c = true)
    (heols : ∀ c ∈ eols, isEol c = true) (hgoes : cString rest ≠ []) :
    (cString (value ++ (eols ++ rest))).getLast? = (cString rest).getLast? := by
  rw [cString_break hvalue heols, ← List.append_assoc, List.getLast?_append_of_ne_nil _ hgoes]

/-- A buffer that is not over behind the line breaks goes on with a string, which would end in a line
break otherwise. -/
theorem TextFits.goesOn (h : TextFits (value ++ (eols ++ rest)))
    (hvalue : ∀ c ∈ value, isPlain c = true) (heols : ∀ c ∈ eols, isEol c = true) (hne : eols ≠ [])
    (hmore : rest ≠ []) : cString rest ≠ [] := by
  intro hempty
  have hstring := cString_break hvalue heols rest
  rw [hempty, List.append_nil] at hstring
  have hlast : (cString (value ++ (eols ++ rest))).getLast? = some (eols.getLast hne) := by
    rw [hstring, List.getLast?_append_of_ne_nil _ hne]
    exact List.getLast?_eq_some_getLast hne
  have hended := h.ended _ hlast (heols _ (List.getLast_mem hne))
  rw [hstring] at hended
  simp [hmore] at hended

theorem TextFits.behind (h : TextFits (value ++ (eols ++ rest)))
    (hvalue : ∀ c ∈ value, isPlain c = true) (heols : ∀ c ∈ eols, isEol c = true) (hne : eols ≠ [])
    (hrest : ∀ c ∈ rest.head?, isEol c = false) (hmore : rest ≠ []) : TextFits rest := by
  have hgoes := h.goesOn hvalue heols hne hmore
  obtain ⟨lines, hsplit, hlines⟩ := splitOnP_break hvalue heols hne rest
  have hmem : ∀ line ∈ (cString rest).splitOnP isEol, line ≠ [] → Trimmed line := by
    intro line hline hnonempty
    apply h.lines line _ hnonempty
    rw [hsplit]
    exact List.mem_cons_of_mem value ((hlines line hnonempty).mpr hline)
  refine ⟨?_, hmem, ?_⟩
  · have hfirst : ∀ c ∈ (cString rest).head?, isEol c = false := by
      intro c hc
      apply hrest c
      cases rest with
      | nil => cases hc
      | cons d rest =>
          rw [cString, List.takeWhile_cons] at hc
          split at hc
          · exact hc
          · cases hc
    intro line hline
    apply hmem line (List.mem_of_mem_head? hline)
    exact ne_nil_of_first hgoes hfirst hline
  · intro c hc heol
    rw [← getLast?_break hvalue heols hgoes] at hc
    have hended := h.ended c hc heol
    rw [cString_break hvalue heols] at hended
    exact List.append_cancel_left (List.append_cancel_left hended)

theorem TextFits.inFront (htrim : Trimmed value) (hvalue : ∀ c ∈ value, isPlain c = true)
    (heols : ∀ c ∈ eols, isEol c = true) (hne : eols ≠ []) (hmore : rest ≠ [] → TextFits rest) :
    TextFits (value ++ (eols ++ rest)) := by
  obtain ⟨lines, hsplit, hlines⟩ := splitOnP_break hvalue heols hne rest
  refine ⟨?_, ?_, ?_⟩
  · intro line hmem
    rw [hsplit] at hmem
    cases hmem
    exact htrim
  · intro line hmem hnonempty
    rw [hsplit] at hmem
    rcases List.mem_cons.mp hmem with rfl | hmem
    · exact htrim
    · have hline := (hlines line hnonempty).mp hmem
      by_cases hover : rest = []
      · subst hover
        have hnil : line = [] := by simpa [cString] using hline
        exact absurd hnil hnonempty
      · exact (hmore hover).lines line hline hnonempty
  · intro c hc heol
    have hstring := cString_break hvalue heols rest
    by_cases hover : rest = []
    · subst hover
      exact hstring
    · have hfits := hmore hover
      have hgoes : cString rest ≠ [] := by
        intro hempty
        have hfirst : Trimmed [] := by
          apply hfits.first []
          rw [hempty]
          rfl
        exact hfirst.ne_nil rfl
      rw [getLast?_break hvalue heols hgoes] at hc
      rw [hstring, hfits.ended c hc heol]

theorem textFits_break (hvalue : ∀ c ∈ value, isPlain c = true)
    (heols : ∀ c ∈ eols, isEol c = true) (hne : eols ≠ [])
    (hrest : ∀ c ∈ rest.head?, isEol c = false) :
    TextFits (value ++ (eols ++ rest)) ↔ Trimmed value ∧ (rest ≠ [] → TextFits rest) := by
  constructor
  · intro h
    obtain ⟨lines, hsplit, -⟩ := splitOnP_break hvalue heols hne rest
    constructor
    · apply h.first value
      rw [hsplit]
      rfl
    · exact h.behind hvalue heols hne hrest
  · rintro ⟨htrim, hmore⟩
    exact TextFits.inFront htrim hvalue heols hne hmore

end Break

theorem mp3Values_nil {buffer : List Char} (h : buffer.dropWhile isPlain = []) :
    mp3Values buffer = [buffer.takeWhile isPlain] := by
  rw [mp3Values]
  split
  · rfl
  · next c behind hstop =>
      rw [h] at hstop
      cases hstop

theorem mp3Values_cons {buffer behind : List Char} {c : Char}
    (h : buffer.dropWhile isPlain = c :: behind) :
    mp3Values buffer = if isEol c && !(behind.dropWhile isEol).isEmpty then
      buffer.takeWhile isPlain :: mp3Values (behind.dropWhile isEol)
    else [buffer.takeWhile isPlain] := by
  rw [mp3Values]
  split
  · next hstop =>
      rw [h] at hstop
      cases hstop
  · next c' behind' hstop =>
      rw [h] at hstop
      cases hstop
      rfl

section Cut

variable {buffer behind : List Char} {c : Char}

/-- The line, the line breaks behind it and the rest. -/
theorem eq_cut (h : buffer.dropWhile isPlain = c :: behind) : buffer = buffer.takeWhile isPlain ++
    (c :: behind.takeWhile isEol ++ behind.dropWhile isEol) := by
  rw [List.cons_append, List.takeWhile_append_dropWhile, ← h]
  exact List.takeWhile_append_dropWhile.symm

theorem eols_cut (heol : isEol c = true) : ∀ d ∈ c :: behind.takeWhile isEol, isEol d = true := by
  intro d hd
  rcases List.mem_cons.mp hd with rfl | hd
  · exact heol
  · exact List.mem_takeWhile_imp hd

theorem rest_cut (behind : List Char) :
    ∀ d ∈ (behind.dropWhile isEol).head?, isEol d = false := by
  intro d hd
  have hnot := List.head?_dropWhile_not isEol behind
  rw [Option.mem_def.mp hd] at hnot
  exact hnot

/-- A line stops at a line break or at a terminator. -/
theorem stop_cut (h : buffer.dropWhile isPlain = c :: behind) : isEol c = true ∨ c = '\x00' := by
  have hnot := List.head?_dropWhile_not isPlain buffer
  rw [h] at hnot
  by_cases heol : isEol c = true
  · exact .inl heol
  · right
    simpa [isPlain, heol] using hnot

/-- A buffer whose string is over behind the line. -/
theorem textFits_over (h : cString (buffer.dropWhile isPlain) = []) :
    TextFits buffer ↔ Trimmed (buffer.takeWhile isPlain) := by
  have hplain := takeWhile_isPlain buffer
  have hstring : cString buffer = buffer.takeWhile isPlain := by
    conv => lhs; rw [← List.takeWhile_append_dropWhile (p := isPlain) (l := buffer)]
    rw [cString_append (not_mem_of_plain hplain), h, List.append_nil]
  exact textFits_line hstring (isEol_of_plain hplain)

/-- A buffer that is cut at a line break. -/
theorem textFits_cut (h : buffer.dropWhile isPlain = c :: behind) (heol : isEol c = true) :
    TextFits buffer ↔ Trimmed (buffer.takeWhile isPlain) ∧
      (behind.dropWhile isEol ≠ [] → TextFits (behind.dropWhile isEol)) := by
  conv => lhs; rw [eq_cut h]
  exact textFits_break (takeWhile_isPlain buffer) (eols_cut heol) (List.cons_ne_nil _ _)
    (rest_cut behind)

end Cut

/-- **The values of a frame can be written exactly when its text fits.** -/
theorem mp3Values_trimmed_iff (buffer : List Char) :
    (∀ value ∈ mp3Values buffer, Trimmed value) ↔ TextFits buffer := by
  induction buffer using mp3Values.induct with
  | case1 buffer hstop =>
      have hover : cString (buffer.dropWhile isPlain) = [] := by
        rw [hstop]
        rfl
      rw [mp3Values_nil hstop, textFits_over hover]
      simp
  | case2 buffer c behind hstop hmore ih =>
      obtain ⟨heol, hrest⟩ : isEol c = true ∧ behind.dropWhile isEol ≠ [] := by
        simpa using hmore
      rw [mp3Values_cons hstop, if_pos hmore, textFits_cut hstop heol, List.forall_mem_cons]
      have hfits : TextFits (behind.dropWhile isEol) ↔
          (behind.dropWhile isEol ≠ [] → TextFits (behind.dropWhile isEol)) :=
        ⟨fun h _ => h, fun h => h hrest⟩
      exact and_congr_right fun _ => Iff.trans ih hfits
  | case3 buffer c behind hstop hmore =>
      rw [mp3Values_cons hstop, if_neg hmore]
      cases heol : isEol c with
      | true =>
          have hrest : behind.dropWhile isEol = [] := by
            simpa [heol] using hmore
          rw [textFits_cut hstop heol, hrest]
          simp
      | false =>
          have hover : cString (buffer.dropWhile isPlain) = [] := by
            rw [hstop, (stop_cut hstop).resolve_left (by simp [heol])]
            rfl
          rw [textFits_over hover]
          simp

theorem mp3Values_ne_nil (buffer : List Char) : mp3Values buffer ≠ [] := by
  rw [mp3Values]
  split
  · exact List.cons_ne_nil _ _
  · split <;> exact List.cons_ne_nil _ _

/-- All keys of frames can be written, but a date has none. -/
theorem frameKey_isKey {frameId : FrameId} {key : List Char} (h : frameKey frameId = some key) :
    '=' ∉ key ∧ (IsKey key ↔ frameId ≠ .date) := by
  have hall : (frameKey frameId).all fun key =>
      key.all (· != '=') && isKey key == decide (frameId ≠ .date) := by
    cases frameId <;> decide
  rw [h] at hall
  simp only [Option.all_some, Bool.and_eq_true, beq_iff_eq, List.all_eq_true, bne_iff_ne] at hall
  refine ⟨fun hmem => hall.1 _ hmem rfl, ?_⟩
  rw [← isKey_iff, hall.2, decide_eq_true_eq]

theorem frames_cacheable_iff (frames : List Id3Frame) :
    (∀ call ∈ mp3LoadMeta frames, Cacheable call) ↔ ∀ frame ∈ frames, FrameFits frame := by
  constructor
  · intro h frame hframe hkey
    obtain ⟨key, hkey⟩ := Option.ne_none_iff_exists'.mp hkey
    have hcall : ∀ value ∈ mp3Values frame.text, Cacheable ⟨none, key, some value⟩ := by
      intro value hvalue
      apply h
      apply List.mem_flatMap.mpr
      refine ⟨frame, hframe, ?_⟩
      rw [hkey]
      exact List.mem_map_of_mem hvalue
    constructor
    · obtain ⟨value, values, hvalues⟩ := List.exists_cons_of_ne_nil (mp3Values_ne_nil frame.text)
      have hfirst := hcall value (hvalues ▸ List.mem_cons_self)
      exact (frameKey_isKey hkey).2.mp hfirst.key
    · apply (mp3Values_trimmed_iff frame.text).mp
      intro value hvalue
      obtain ⟨text, htext, htrim⟩ := (hcall value hvalue).value
      cases htext
      exact htrim
  · intro h call hcall
    obtain ⟨frame, hframe, hcall⟩ := List.mem_flatMap.mp hcall
    cases hkey : frameKey frame.frameId with
    | none =>
        rw [hkey] at hcall
        cases hcall
    | some key =>
        rw [hkey] at hcall
        obtain ⟨value, hvalue, rfl⟩ := List.mem_map.mp hcall
        obtain ⟨hdate, hfits⟩ := h frame hframe (by simp [hkey])
        have htrim := (mp3Values_trimmed_iff frame.text).mpr hfits value hvalue
        exact ⟨(frameKey_isKey hkey).2.mpr hdate, value, rfl, htrim⟩

theorem cacheable_iff (tags : SongTags) :
    (∀ call ∈ tags.calls, Cacheable call) ↔ tags.Fit := by
  cases tags with
  | ogg userComments => exact comments_cacheable_iff userComments
  | flac blocks =>
      constructor
      · intro h comments hblock
        apply (comments_cacheable_iff comments).mp
        intro call hcall
        exact h call (List.mem_flatMap.mpr ⟨_, hblock, hcall⟩)
      · intro h call hcall
        obtain ⟨block, hblock, hcall⟩ := List.mem_flatMap.mp hcall
        cases block with
        | vorbisComment comments =>
            exact (comments_cacheable_iff comments).mpr (h comments hblock) call hcall
        | other => cases hcall
  | mp3 frames => exact frames_cacheable_iff frames

/-- All calls of the loaders have a value, and a key without `=`. -/
theorem calls_wellFormed (tags : SongTags) {call : AddData} (h : call ∈ tags.calls) :
    (∃ text, call.value = some text) ∧ '=' ∉ call.key := by
  have hcomments : ∀ comments : List (List Char),
      call ∈ comments.filterMap (fun comment => commentCall (cString comment)) →
      (∃ text, call.value = some text) ∧ '=' ∉ call.key := by
    intro comments hcall
    obtain ⟨comment, -, hcall⟩ := List.mem_filterMap.mp hcall
    obtain ⟨key, value, -, hkey, rfl⟩ := commentCall_eq_some.mp hcall
    exact ⟨⟨value, rfl⟩, hkey⟩
  cases tags with
  | ogg userComments => exact hcomments userComments h
  | flac blocks =>
      obtain ⟨block, -, hcall⟩ := List.mem_flatMap.mp h
      cases block with
      | vorbisComment comments => exact hcomments comments hcall
      | other => cases hcall
  | mp3 frames =>
      obtain ⟨frame, -, hcall⟩ := List.mem_flatMap.mp h
      cases hkey : frameKey frame.frameId with
      | none =>
          rw [hkey] at hcall
          cases hcall
      | some key =>
          rw [hkey] at hcall
          obtain ⟨value, -, rfl⟩ := List.mem_map.mp hcall
          exact ⟨⟨value, rfl⟩, (frameKey_isKey hkey).1⟩

/-- **The cache.** A song without an `.info` file gets one when it is loaded. The next time its tags
come from there, and they are the same exactly when what is in the music file fits. -/
theorem loadMetaInfo_cached_iff (tags : SongTags) (overwrite save : Bool) :
    ∃ first info second,
      loadMetaInfo ⟨true, overwrite⟩ (some tags) none [] = some (first, some info) ∧
      loadMetaInfo ⟨save, false⟩ (some tags) (some info) [] = some (second, some info) ∧
      ((∀ key, getMetaData first key = getMetaData second key) ↔ tags.Fit) := by
  obtain ⟨info, second, htext, hparse, hiff⟩ := getMetaData_again_iff
    (fun call (hcall : call ∈ tags.calls) => (calls_wellFormed tags hcall).1)
    fun call hcall => (calls_wellFormed tags hcall).2
  refine ⟨tags.calls.foldl insertMetaData [], info, second, ?_, ?_, hiff.trans (cacheable_iff tags)⟩
  · cases overwrite with
    | true => simp [loadMetaInfo, htext]
    | false => simp [loadMetaInfo, parseMeta, parseFile, htext]
  · simp [loadMetaInfo, hparse]

/-- A comment of two lines. -/
theorem not_cached_twoLines :
    ∃ first info second,
      loadMetaInfo ⟨true, false⟩ (some (.ogg ["LYRICS=one\ntwo".toList])) none [] =
        some (first, some info) ∧
      loadMetaInfo ⟨true, false⟩ (some (.ogg ["LYRICS=one\ntwo".toList])) (some info) [] =
        some (second, some info) ∧
      getMetaData first "lyrics".toList ≠ getMetaData second "lyrics".toList := by
  refine ⟨[("LYRICS".toList, [some "one\ntwo".toList])], "LYRICS=one\ntwo\n\n".toList,
    [("LYRICS".toList, [some "one".toList])], by decide, by decide, by decide⟩

end Squash
