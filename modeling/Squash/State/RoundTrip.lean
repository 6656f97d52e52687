import Squash.State.Load

/-!
# What is saved is loaded again

The state file stands for a list of places, full paths with positions, and the states of the
windows. `save_state` writes them down (`stateText_eq`), `parse_file` finds the same calls in the
text (`parse_savedText`), the callback collects them (`foldlM_savedCalls`), and the loop of
`load_state` turns each place into an entry of the queue (`loadRawSongs_holds`).

Two songs with the same full path cannot be told apart by the file, so an entry comes back as one
for the first song with its path.
-/

namespace Squash

open LinkedList

/-- A full path and a position. -/
abbrev Place := List Char × Int

/-- What an entry of the queue stands for. -/
def place (songs : List SongInfo) (entry : SongQueueEntry) : Option Place :=
  songs[entry.songInfo]?.map fun song => (song.fullPath, entry.startPosition)

/-! ## The text stands for places and window states -/

def placeTexts (places : List Place) : List Char := places.flatMap fun p => entryText p.1 p.2

def savedText (time : Ctime) (places : List Place) (windowState : Fin winCount → Int) : List Char :=
  headerText time ++ (currentEntryText ++ (placeTexts places ++ windowTexts windowState))

/-- What is saved: the song that is playing, and those of the queue. -/
def SquashState.toSave (s : SquashState) (queue : List SongQueueEntry) : List SongQueueEntry :=
  (s.playing.map fun song => ⟨song, s.currentPosition⟩).toList ++ queue

variable {songs : List SongInfo} {places : List Place} {rest : List Char}

theorem songText_eq {entry : SongQueueEntry} {p : Place} (h : place songs entry = some p) :
    songText songs entry = some (entryText p.1 p.2) := by
  obtain ⟨song, hsong, rfl⟩ := Option.map_eq_some_iff.mp h
  rw [songText, hsong]
  rfl

theorem songTexts_eq {entries : List SongQueueEntry}
    (h : entries.map (place songs) = places.map some) :
    songTexts songs entries = some (placeTexts places) := by
  induction entries generalizing places with
  | nil =>
      obtain rfl : places = [] := by simpa using h
      rfl
  | cons entry entries ih =>
      cases places with
      | nil => simp at h
      | cons p places =>
          obtain ⟨hentry, hentries⟩ := List.cons_eq_cons.mp h
          simp [songTexts, songText_eq hentry, ih hentries, placeTexts]

/-- **`save_state` writes down the places and the window states.** -/
theorem stateText_eq {s : SquashState} {l : List (Nat × SongQueueEntry)} (time : Ctime)
    (hlist : IsList s.songQueue.heap s.songQueue.head l)
    (hpending : (s.stateInfo.rawSongCount : Int) ≤ s.stateInfo.currentSong)
    (hplaces : (s.toSave (l.map Prod.snd)).map (place s.songs) = places.map some) :
    stateText time s = some (savedText time places s.windowState) := by
  have hqueue : queueText s = songTexts s.songs (l.map Prod.snd) := by
    rw [queueText, hlist.values_eq hlist.length_le]
    rfl
  have hnone : s.stateInfo.pending = 0 := by
    rw [StateInfo.pending]
    omega
  cases hplaying : s.playing with
  | none =>
      rw [SquashState.toSave, hplaying] at hplaces
      have hentries : (l.map Prod.snd).map (place s.songs) = places.map some := hplaces
      simp [stateText, playingText, hplaying, hqueue, songTexts_eq hentries, hnone, rawSongTexts,
        savedText]
  | some song =>
      rw [SquashState.toSave, hplaying] at hplaces
      cases places with
      | nil => simp at hplaces
      | cons p places =>
          obtain ⟨hentry, hrest⟩ := List.cons_eq_cons.mp hplaces
          have hentries : (l.map Prod.snd).map (place s.songs) = places.map some := hrest
          simp [stateText, playingText, hplaying, hqueue, songText_eq hentry,
            songTexts_eq hentries, hnone, rawSongTexts, savedText, placeTexts]

/-! ## The calls that the reader makes -/

def placeCalls (p : Place) : List AddData :=
  [⟨none, "entry_filename".toList, some p.1⟩,
    ⟨none, "entry_position".toList, some (Decimal.print p.2)⟩]

def windowCalls (windowState : Fin winCount → Int) (i : Fin winCount) : List AddData :=
  [⟨none, "window_number".toList, some (Decimal.print (i : Nat))⟩,
    ⟨none, "window_state".toList, some (Decimal.print (windowState i))⟩]

def savedCalls (places : List Place) (windowState : Fin winCount → Int) : List AddData :=
  ⟨none, "current_entry".toList, some ['0']⟩ ::
    (places.flatMap placeCalls ++ (List.finRange winCount).flatMap (windowCalls windowState))

theorem isKey_currentEntry : IsKey "current_entry".toList := by decide

theorem isKey_entryFilename : IsKey "entry_filename".toList := by decide

theorem isKey_entryPosition : IsKey "entry_position".toList := by decide

theorem isKey_windowNumber : IsKey "window_number".toList := by decide

theorem isKey_windowState : IsKey "window_state".toList := by decide

theorem parse_header (time : Ctime) :
    parse ⟨.beforeToken, none⟩ (headerText time ++ rest) = parse ⟨.beforeToken, none⟩ rest := by
  have hlines : headerText time ++ rest = '#' :: (" Saved Squash state".toList ++ '\n' ::
      '#' :: (" Auto-Generated on ".toList ++ time.text ++ '\n' :: ('\n' :: rest))) := by
    simp [headerText]
  have hline : '\n' ∉ " Auto-Generated on ".toList ++ time.text := by
    rw [List.mem_append]
    exact fun h => h.elim (by decide) time.oneLine
  rw [hlines, parse_comment _ (by decide), parse_comment _ hline, parse_newline]

theorem parse_placeTexts (hplaces : ∀ p ∈ places, Trimmed p.1) :
    parse ⟨.beforeToken, none⟩ (placeTexts places ++ rest) =
      places.flatMap placeCalls ++ parse ⟨.beforeToken, none⟩ rest := by
  induction places with
  | nil => rfl
  | cons p places ih =>
      have hp := hplaces p List.mem_cons_self
      have htexts : placeTexts (p :: places) ++ rest =
          keyLine "entry_filename".toList p.1 ++
            (keyLine "entry_position".toList (Decimal.print p.2) ++ (placeTexts places ++ rest)) := by
        simp [placeTexts, entryText]
      rw [htexts, parse_keyLine isKey_entryFilename hp, parse_numberLine isKey_entryPosition,
        ih fun q hq => hplaces q (List.mem_cons_of_mem p hq)]
      rfl

theorem parse_windowTexts (windowState : Fin winCount → Int) (windows : List (Fin winCount)) :
    parse ⟨.beforeToken, none⟩ (windows.flatMap (windowText windowState)) =
      windows.flatMap (windowCalls windowState) := by
  induction windows with
  | nil => rfl
  | cons i windows ih =>
      rw [List.flatMap_cons, windowText, List.append_assoc,
        parse_numberLine isKey_windowNumber, parse_numberLine isKey_windowState, ih]
      rfl

/-- **The reader finds in the text what was written down.** -/
theorem parse_savedText (time : Ctime) (windowState : Fin winCount → Int)
    (hplaces : ∀ p ∈ places, Trimmed p.1) :
    parse ⟨.beforeToken, none⟩ (savedText time places windowState) =
      savedCalls places windowState := by
  rw [savedText, parse_header, currentEntryText,
    parse_keyLine isKey_currentEntry (by decide), parse_placeTexts hplaces, windowTexts, parse_windowTexts]
  rfl

/-! ## The callback collects the places -/

/-- The places are in the first cells, and nothing was queued yet. -/
structure StateInfo.Holds (info : StateInfo) (places : List Place) : Prop where
  count : info.rawSongCount = places.length
  room : places.length ≤ info.rawSongs.length
  cells : ∀ (k : Nat) p, places[k]? = some p →
    info.rawSongs[k]? = some ⟨some (some p.1), some p.2⟩
  current : info.currentSong = 0

/-- `squash_ensure_alloc` keeps what there is, and makes room for one more. -/
theorem StateInfo.Holds.ensureAlloc {info : StateInfo} (h : info.Holds places) :
    info.ensureAlloc.Holds places ∧ places.length < info.ensureAlloc.rawSongs.length := by
  have hroom : places.length < info.ensureAlloc.rawSongs.length := by
    rw [← h.count]
    exact rawSongCount_lt_ensureAlloc (h.count ▸ h.room)
  refine ⟨⟨?_, Nat.le_of_lt hroom, ?_, ?_⟩, hroom⟩
  · rw [ensureAlloc_rawSongCount]
    exact h.count
  · exact fun k p hk => getElem?_ensureAlloc (h.cells k p hk)
  · rw [ensureAlloc_currentSong]
    exact h.current

theorem loadStateCallback_filename (info : StateInfo) (value : List Char) :
    loadStateCallback info ⟨none, "entry_filename".toList, some value⟩ =
      info.ensureAlloc.setRawSong fun _ => ⟨some (some value), some 0⟩ := rfl

theorem loadStateCallback_position (info : StateInfo) (position : Int) :
    loadStateCallback info ⟨none, "entry_position".toList, some (Decimal.print position)⟩ = do
      let pass ← info.ensureAlloc.setRawSong fun rawSong =>
        { rawSong with position := some (Decimal.parse (Decimal.print position)) }
      return { pass with rawSongCount := pass.rawSongCount + 1 } := rfl

theorem loadStateCallback_windowNumber (info : StateInfo) (number : Int) :
    loadStateCallback info ⟨none, "window_number".toList, some (Decimal.print number)⟩ =
      some { info.ensureAlloc with
        curWindowNumber := Decimal.parse (Decimal.print number) } := rfl

theorem loadStateCallback_windowState (info : StateInfo) (state : Int) :
    loadStateCallback info ⟨none, "window_state".toList, some (Decimal.print state)⟩ =
      info.ensureAlloc.setWindowState (Decimal.parse (Decimal.print state)) := rfl

/-- The cell behind the places does not count. -/
theorem StateInfo.Holds.set {info : StateInfo} (h : info.Holds places) (rawSong : RawSong) :
    ({ info with rawSongs := info.rawSongs.set places.length rawSong } : StateInfo).Holds
      places := by
  refine ⟨h.count, ?_, ?_, h.current⟩
  · rw [List.length_set]
    exact h.room
  · intro k p hk
    obtain ⟨hlt, -⟩ := List.getElem?_eq_some_iff.mp hk
    rw [List.getElem?_set_ne (Nat.ne_of_gt hlt)]
    exact h.cells k p hk

/-- Once the cell behind the places holds another place, it may count. -/
theorem StateInfo.Holds.snoc {info : StateInfo} {p : Place} (h : info.Holds places)
    (hcell : info.rawSongs[places.length]? = some ⟨some (some p.1), some p.2⟩) :
    ({ info with rawSongCount := info.rawSongCount + 1 } : StateInfo).Holds (places ++ [p]) := by
  obtain ⟨hlt, -⟩ := List.getElem?_eq_some_iff.mp hcell
  refine ⟨?_, ?_, ?_, h.current⟩
  · simp [h.count]
  · rw [List.length_append]
    exact hlt
  · intro k p' hk
    rcases Nat.lt_trichotomy k places.length with hk' | rfl | hk'
    · rw [List.getElem?_append_left hk'] at hk
      exact h.cells k p' hk
    · obtain rfl : p = p' := by simpa using hk
      exact hcell
    · have hlength : (places ++ [p]).length ≤ k := by
        rw [List.length_append]
        exact hk'
      rw [List.getElem?_eq_none hlength] at hk
      cases hk

theorem loadStateCallback_entryFilename {info : StateInfo} (h : info.Holds places)
    (filename : List Char) :
    ∃ info', loadStateCallback info ⟨none, "entry_filename".toList, some filename⟩ = some info' ∧
      info'.Holds places ∧ info'.windowStates = info.windowStates ∧
      info'.rawSongs[places.length]? = some ⟨some (some filename), some 0⟩ := by
  obtain ⟨hold, hroom⟩ := h.ensureAlloc
  refine ⟨_, ?_, hold.set _, ensureAlloc_windowStates info, List.getElem?_set_self hroom⟩
  rw [loadStateCallback_filename]
  exact setRawSong_eq hold.count (List.getElem?_eq_getElem hroom) _

theorem loadStateCallback_entryPosition {info : StateInfo} {filename : List Char}
    (h : info.Holds places)
    (hcell : info.rawSongs[places.length]? = some ⟨some (some filename), some 0⟩)
    (position : Int) :
    ∃ info',
      loadStateCallback info ⟨none, "entry_position".toList, some (Decimal.print position)⟩ =
        some info' ∧
      info'.Holds (places ++ [(filename, position)]) ∧ info'.windowStates = info.windowStates := by
  obtain ⟨hlt, -⟩ := List.getElem?_eq_some_iff.mp hcell
  -- there is room already, the file name is in it
  have halloc : info.ensureAlloc = info := by
    have hcount := h.count
    exact if_neg (by omega)
  have hset := setRawSong_eq h.count hcell fun rawSong => { rawSong with position := some position }
  refine ⟨_, ?_, (h.set _).snoc (p := (filename, position)) (List.getElem?_set_self hlt), rfl⟩
  rw [loadStateCallback_position, halloc, Decimal.parse_print, hset]
  rfl

theorem foldlM_pair {α β : Type} {f : α → β → Option α} {a b c : α} {x y : β}
    (hx : f a x = some b) (hy : f b y = some c) : [x, y].foldlM f a = some c := by
  rw [List.foldlM_cons, hx]
  show List.foldlM f b [y] = some c
  rw [List.foldlM_cons, hy]
  rfl

/-- The two calls of an entry add its place. -/
theorem foldlM_placeCalls {info : StateInfo} (h : info.Holds places) (p : Place) :
    ∃ info', (placeCalls p).foldlM loadStateCallback info = some info' ∧
      info'.Holds (places ++ [p]) ∧ info'.windowStates = info.windowStates := by
  obtain ⟨mid, hfilename, hmid, hwindows, hcell⟩ := loadStateCallback_entryFilename h p.1
  obtain ⟨info', hposition, hinfo', hwindows'⟩ := loadStateCallback_entryPosition hmid hcell p.2
  exact ⟨info', foldlM_pair hfilename hposition, hinfo', hwindows'.trans hwindows⟩

theorem setWindowState_eq {info : StateInfo} {i : Fin winCount}
    (h : info.curWindowNumber = (i : Nat)) (state : Int) :
    info.setWindowState state = some { info with
      windowStates := fun j => if j = i then state else info.windowStates j } := by
  have hlt := i.isLt
  have hrange : 0 ≤ info.curWindowNumber ∧ info.curWindowNumber < winCount := by omega
  have hi : (⟨info.curWindowNumber.toNat, by omega⟩ : Fin winCount) = i := by
    apply Fin.ext
    show info.curWindowNumber.toNat = i
    omega
  rw [StateInfo.setWindowState, dif_pos hrange]
  simp only [hi]

/-- The two calls of a window set its state. -/
theorem foldlM_windowCalls {info : StateInfo} (h : info.Holds places)
    (windowState : Fin winCount → Int) (i : Fin winCount) :
    ∃ info', (windowCalls windowState i).foldlM loadStateCallback info = some info' ∧
      info'.Holds places ∧
      info'.windowStates = fun j => if j = i then windowState i else info.windowStates j := by
  obtain ⟨hold, -⟩ := h.ensureAlloc
  let mid : StateInfo := { info.ensureAlloc with curWindowNumber := (i : Nat) }
  have hnumber :
      loadStateCallback info ⟨none, "window_number".toList, some (Decimal.print (i : Nat))⟩ =
        some mid := by
    rw [loadStateCallback_windowNumber, Decimal.parse_print]
  have hmid : mid.Holds places := ⟨hold.count, hold.room, hold.cells, hold.current⟩
  obtain ⟨hmid', -⟩ := hmid.ensureAlloc
  have hstate :
      loadStateCallback mid ⟨none, "window_state".toList, some (Decimal.print (windowState i))⟩ =
        some { mid.ensureAlloc with
          windowStates := fun j => if j = i then windowState i else info.windowStates j } := by
    rw [loadStateCallback_windowState, Decimal.parse_print,
      setWindowState_eq (ensureAlloc_curWindowNumber mid)]
    simp only [ensureAlloc_windowStates, mid]
  exact ⟨_, foldlM_pair hnumber hstate, ⟨hmid'.count, hmid'.room, hmid'.cells, hmid'.current⟩, rfl⟩

theorem foldlM_places {info : StateInfo} (h : info.Holds places) (new : List Place) :
    ∃ info', (new.flatMap placeCalls).foldlM loadStateCallback info = some info' ∧
      info'.Holds (places ++ new) ∧ info'.windowStates = info.windowStates := by
  induction new generalizing info places with
  | nil => exact ⟨info, rfl, by simpa using h, rfl⟩
  | cons p new ih =>
      obtain ⟨mid, hp, hmid, hwindows⟩ := foldlM_placeCalls h p
      obtain ⟨info', hnew, hinfo', hwindows'⟩ := ih hmid
      refine ⟨info', ?_, by simpa using hinfo', hwindows'.trans hwindows⟩
      rw [List.flatMap_cons, List.foldlM_append, hp, Option.bind_eq_bind, Option.bind_some]
      exact hnew

theorem foldlM_windows {info : StateInfo} (h : info.Holds places)
    (windowState : Fin winCount → Int) (windows : List (Fin winCount)) :
    ∃ info', (windows.flatMap (windowCalls windowState)).foldlM loadStateCallback info =
        some info' ∧
      info'.Holds places ∧ (∀ i ∈ windows, info'.windowStates i = windowState i) ∧
      ∀ i, i ∉ windows → info'.windowStates i = info.windowStates i := by
  induction windows generalizing info with
  | nil => exact ⟨info, rfl, h, by simp, by simp⟩
  | cons j windows ih =>
      obtain ⟨mid, hj, hmid, hwindow⟩ := foldlM_windowCalls h windowState j
      obtain ⟨info', hrest, hinfo', hset, hkept⟩ := ih hmid
      refine ⟨info', ?_, hinfo', fun i hi => ?_, fun i hi => ?_⟩
      · rw [List.flatMap_cons, List.foldlM_append, hj, Option.bind_eq_bind, Option.bind_some]
        exact hrest
      · by_cases hmem : i ∈ windows
        · exact hset i hmem
        · obtain rfl : i = j := by simpa [hmem] using hi
          rw [hkept i hmem, hwindow]
          exact if_pos rfl
      · obtain ⟨hne, hmem⟩ : i ≠ j ∧ i ∉ windows := by simpa using hi
        rw [hkept i hmem, hwindow]
        exact if_neg hne

/-- **The callback collects the places and the window states.** -/
theorem foldlM_savedCalls (places : List Place) (windowState : Fin winCount → Int) :
    ∃ info, (savedCalls places windowState).foldlM loadStateCallback StateInfo.init = some info ∧
      info.Holds places ∧ info.windowStates = windowState := by
  -- `current_entry=0`
  have hstart : ({ StateInfo.init.ensureAlloc with currentSong := 0 } : StateInfo).Holds [] :=
    ⟨rfl, Nat.zero_le _, nofun, rfl⟩
  obtain ⟨mid, hplaces, hmid, -⟩ := foldlM_places hstart places
  obtain ⟨info, hwindows, hinfo, hstates, -⟩ :=
    foldlM_windows hmid windowState (List.finRange winCount)
  refine ⟨info, ?_, hinfo, ?_⟩
  · rw [savedCalls, List.foldlM_cons]
    show List.foldlM _ { StateInfo.init.ensureAlloc with currentSong := 0 } _ = _
    rw [List.foldlM_append, hplaces, Option.bind_eq_bind, Option.bind_some]
    exact hwindows
  · funext i
    exact hstates i (List.mem_finRange i)

/-! ## Looking up a song -/

theorem isAt_fullPath {song target : SongInfo} (h : song.basename = target.basename) :
    song.isAt target.fullPath = some (decide (song.filename = target.filename)) := by
  have hpath : target.fullPath = target.basename .basenameSong ++ '/' :: target.filename := rfl
  simp [SongInfo.isAt, hpath, h]

/-- The song that is found has the full path that is looked for. -/
theorem findSongFrom_fullPath {target : SongInfo} (hmem : target ∈ songs)
    (hbase : ∀ song ∈ songs, song.basename = target.basename) (i : Nat) :
    ∃ j song, findSongFrom target.fullPath songs i = some (some (i + j)) ∧
      songs[j]? = some song ∧ song.fullPath = target.fullPath := by
  induction songs generalizing i with
  | nil => cases hmem
  | cons song songs ih =>
      have hsong := hbase song List.mem_cons_self
      rw [findSongFrom, isAt_fullPath hsong]
      by_cases hname : song.filename = target.filename
      · refine ⟨0, song, by simp [hname], rfl, ?_⟩
        show song.basename .basenameSong ++ _ = target.basename .basenameSong ++ _
        rw [hsong, hname]
      · have hrest : target ∈ songs := by
          rcases List.mem_cons.mp hmem with rfl | hrest
          · exact absurd rfl hname
          · exact hrest
        obtain ⟨j, found, hfind, hfound, hpath⟩ :=
          ih hrest (fun s hs => hbase s (List.mem_cons_of_mem song hs)) (i + 1)
        refine ⟨j + 1, found, ?_, hfound, hpath⟩
        rw [Nat.add_right_comm, Nat.add_assoc] at hfind
        simpa [hname] using hfind

/-! ## The queue -/

variable {fullyLoads : SongInfo → Bool} {rawSongs : List RawSong} {q : SongQueue}
  {l : List (Nat × SongQueueEntry)}

/-- The song of a raw song comes to the end of the queue. -/
theorem loadRawSong_holds {target : SongInfo} {position : Int} {k : Nat}
    (hloads : ∀ song ∈ songs, fullyLoads song = true) (hmem : target ∈ songs)
    (hbase : ∀ song ∈ songs, song.basename = target.basename)
    (hcell : rawSongs[k]? = some ⟨some (some target.fullPath), some position⟩)
    (hq : q.WellFormed l) :
    ∃ q' c, loadRawSong fullyLoads songs rawSongs k q = some q' ∧ q'.WellFormed (l ++ [c]) ∧
      place songs c.2 = some (target.fullPath, position) := by
  obtain ⟨j, song, hfind, hsong, hpath⟩ := findSongFrom_fullPath hmem hbase 0
  rw [Nat.zero_add] at hfind
  obtain ⟨q', hqueue, hq'⟩ := SongQueue.queueSong_wellFormed hq ⟨j, position⟩
  have hload := hloads song (List.mem_of_getElem? hsong)
  refine ⟨q', (q.heap.length, ⟨j, position⟩), ?_, hq', ?_⟩
  · have hindex : ¬ (k : Int) < 0 := by omega
    simp [loadRawSong, hindex, hcell, findSongByFilename, hfind, playlistQueueSong, hsong, hload,
      hqueue]
  · rw [place, hsong]
    exact congrArg (fun path => some (path, position)) hpath

/-- **Each place becomes an entry of the queue.** -/
theorem loadRawSongs_holds {dbPaths : BasenameType → List Char}
    (hloads : ∀ song ∈ songs, fullyLoads song = true)
    (hbase : ∀ song ∈ songs, song.basename = dbPaths)
    (hplaces : ∀ p ∈ places, ∃ target ∈ songs, target.fullPath = p.1) {k : Nat}
    (hcells : ∀ (i : Nat) p, places[i]? = some p →
      rawSongs[k + i]? = some ⟨some (some p.1), some p.2⟩)
    (hq : q.WellFormed l) :
    ∃ q' l', loadRawSongs fullyLoads songs rawSongs places.length k q = some q' ∧
      q'.WellFormed l' ∧
      (l'.map Prod.snd).map (place songs) =
        (l.map Prod.snd).map (place songs) ++ places.map some := by
  induction places generalizing k q l with
  | nil => exact ⟨q, l, rfl, hq, by simp⟩
  | cons p places ih =>
      obtain ⟨target, hmem, hpath⟩ := hplaces p List.mem_cons_self
      have hcell := hcells 0 p rfl
      rw [Nat.add_zero, ← hpath] at hcell
      have hbase' : ∀ song ∈ songs, song.basename = target.basename := fun song hsong =>
        (hbase song hsong).trans (hbase target hmem).symm
      obtain ⟨mid, c, hload, hmid, hplace⟩ := loadRawSong_holds hloads hmem hbase' hcell hq
      have hcells' : ∀ (i : Nat) p, places[i]? = some p →
          rawSongs[k + 1 + i]? = some ⟨some (some p.1), some p.2⟩ := by
        intro i p' hi
        rw [Nat.add_assoc, Nat.add_comm 1 i]
        exact hcells (i + 1) p' hi
      obtain ⟨q', l', hrest, hq', hl'⟩ :=
        ih (fun p' hp' => hplaces p' (List.mem_cons_of_mem p hp')) hcells' hmid
      refine ⟨q', l', ?_, hq', ?_⟩
      · rw [List.length_cons, loadRawSongs, hload]
        exact hrest
      · rw [hl', hpath] at *
        simp [hplace]

/-- `load_state` frees file names that were all assigned. -/
theorem StateInfo.Holds.assigned {info : StateInfo} (h : info.Holds places) :
    (info.rawSongs.take info.rawSongCount).all (fun rawSong => rawSong.filename.isSome) = true := by
  rw [List.all_eq_true]
  intro rawSong hmem
  obtain ⟨k, hk⟩ := List.mem_iff_getElem?.mp hmem
  rw [List.getElem?_take] at hk
  split at hk
  · next hlt =>
      rw [h.count] at hlt
      have hcell := h.cells k _ (List.getElem?_eq_getElem hlt)
      rw [hk] at hcell
      cases hcell
      rfl
  · cases hk

theorem saveState_savedText {config : StateConfig} {s : SquashState}
    (hwrite : config.dbReadonly = false) {time : Ctime} {text : List Char}
    (htext : stateText time s = some text) :
    ∃ saved, saveState config time s = some saved ∧
      saved.files config.globalStatePath = some text := by
  refine ⟨_, by rw [saveState, hwrite, htext]; rfl, ?_⟩
  exact if_pos rfl

/-- **`load_state` appends the places in the state file to the queue.** -/
theorem loadState_savedText {config : StateConfig} {s : SquashState} {time : Ctime}
    {windowState : Fin winCount → Int}
    (hfile : s.files config.globalStatePath = some (savedText time places windowState))
    (htrimmed : ∀ p ∈ places, Trimmed p.1)
    (hpaths : ∀ p ∈ places, ∃ target ∈ s.songs, target.fullPath = p.1)
    (hloads : ∀ song ∈ s.songs, fullyLoads song = true) (hq : s.songQueue.WellFormed l) :
    ∃ loaded l', loadState fullyLoads config s = some loaded ∧
      loaded.songQueue.WellFormed l' ∧
      (l'.map Prod.snd).map (place s.songs) =
        (l.map Prod.snd).map (place s.songs) ++ places.map some ∧
      loaded.windowState = windowState := by
  obtain ⟨info, hinfo, hholds, hwindows⟩ := foldlM_savedCalls places windowState
  have hparse : parseFile (s.files config.globalStatePath) loadStateCallback StateInfo.init =
      some (info, true) := by
    have hne : savedText time places windowState ≠ [] := List.cons_ne_nil _ _
    rw [hfile, parseFile_some hne, parse_savedText time _ htrimmed, hinfo]
    rfl
  have hpending : info.pending = places.length := by
    rw [StateInfo.pending, hholds.count, hholds.current]
    omega
  have hcells : ∀ (i : Nat) p, places[i]? = some p →
      info.rawSongs[0 + i]? = some ⟨some (some p.1), some p.2⟩ := by
    intro i p hi
    rw [Nat.zero_add]
    exact hholds.cells i p hi
  obtain ⟨songQueue, l', hqueue, hwell, hl'⟩ :=
    loadRawSongs_holds hloads s.basename hpaths hcells hq
  refine ⟨{ s with
    songQueue
    windowState := info.windowStates
    stateInfo := { info with rawSongs := [], rawSongCount := 0, currentSong := 0 } }, l', ?_, hwell,
    hl', hwindows⟩
  rw [loadState, hparse]
  show ((loadRawSongs fullyLoads s.songs info.rawSongs info.pending info.currentSong
    s.songQueue).bind fun songQueue => _) = _
  rw [hpending, hholds.current]
  rw [show ((0 : Nat) : Int) = 0 from rfl] at hqueue
  rw [hqueue]
  show (if _ then _ else none) = _
  rw [if_pos hholds.assigned]
  rfl

/-! ## The round trip -/

/-- A state whose pointers are valid, with the cells `l` for its queue, whose songs can be written
on lines of their own, and with nothing left of the last state file. -/
structure Savable (s : SquashState) (l : List (Nat × SongQueueEntry)) : Prop where
  paths : ∀ song ∈ s.songs, Trimmed song.fullPath
  playing : ∀ song ∈ s.playing, song < s.songs.length
  queue : IsList s.songQueue.heap s.songQueue.head l
  entries : ∀ entry ∈ l.map Prod.snd, entry.songInfo < s.songs.length
  nonePending : (s.stateInfo.rawSongCount : Int) ≤ s.stateInfo.currentSong

theorem exists_places {entries : List SongQueueEntry}
    (h : ∀ entry ∈ entries, entry.songInfo < songs.length) :
    ∃ places : List Place, entries.map (place songs) = places.map some ∧
      ∀ p ∈ places, ∃ target ∈ songs, target.fullPath = p.1 := by
  induction entries with
  | nil => exact ⟨[], rfl, by simp⟩
  | cons entry entries ih =>
      obtain ⟨places, hplaces, hpaths⟩ := ih fun e he => h e (List.mem_cons_of_mem entry he)
      have hlt := h entry List.mem_cons_self
      refine ⟨(songs[entry.songInfo].fullPath, entry.startPosition) :: places, ?_, ?_⟩
      · rw [List.map_cons, hplaces, place, List.getElem?_eq_getElem hlt]
        rfl
      · intro p hp
        rcases List.mem_cons.mp hp with rfl | hp
        · exact ⟨_, List.getElem_mem hlt, rfl⟩
        · exact hpaths p hp

theorem Savable.toSave {s : SquashState} (h : Savable s l) :
    ∀ entry ∈ s.toSave (l.map Prod.snd), entry.songInfo < s.songs.length := by
  intro entry hentry
  rcases List.mem_append.mp hentry with hplaying | hqueue
  · obtain ⟨song, hsong, rfl⟩ := Option.map_eq_some_iff.mp (Option.mem_toList.mp hplaying)
    exact h.playing song hsong
  · exact h.entries entry hqueue

/-- **Loading what was saved** gives the song that was playing and then the old queue, up to equal
full paths, and the old states of the windows. -/
theorem loadState_saveState (config : StateConfig) (hwrite : config.dbReadonly = false)
    (time : Ctime) (fullyLoads : SongInfo → Bool) (s fresh : SquashState)
    (l : List (Nat × SongQueueEntry)) (hs : Savable s l)
    (hloads : ∀ song ∈ s.songs, fullyLoads song = true) (hsongs : fresh.songs = s.songs)
    (hempty : fresh.songQueue.WellFormed []) :
    ∃ saved, saveState config time s = some saved ∧
      ∃ loaded l', loadState fullyLoads config { fresh with files := saved.files } = some loaded ∧
        loaded.songQueue.WellFormed l' ∧
        (l'.map Prod.snd).map (place s.songs) =
          (s.toSave (l.map Prod.snd)).map (place s.songs) ∧
        loaded.windowState = s.windowState := by
  obtain ⟨places, hplaces, hpaths⟩ := exists_places hs.toSave
  have htext := stateText_eq time hs.queue hs.nonePending hplaces
  have htrimmed : ∀ p ∈ places, Trimmed p.1 := by
    intro p hp
    obtain ⟨target, hmem, hpath⟩ := hpaths p hp
    rw [← hpath]
    exact hs.paths target hmem
  obtain ⟨saved, hsave, hfile⟩ := saveState_savedText hwrite htext
  obtain ⟨loaded, l', hload, hwell, hl', hwindows⟩ :=
    loadState_savedText (s := { fresh with files := saved.files }) hfile htrimmed
      (hsongs ▸ hpaths) (hsongs ▸ hloads) hempty
  have hentries : (l'.map Prod.snd).map (place fresh.songs) = places.map some := hl'
  rw [hsongs, ← hplaces] at hentries
  exact ⟨saved, hsave, loaded, l', hload, hwell, hentries, hwindows⟩

/-- The second of two songs is playing, the first is queued, and one window is hidden. -/
def twoSongs : SquashState where
  dbPaths := fun _ => "/music".toList
  songs := ["one".toList, "two".toList].map (loadFile fun _ => "/music".toList)
  basename := by
    intro song hsong
    obtain ⟨name, -, rfl⟩ := List.mem_map.mp hsong
    rfl
  files := fun _ => none
  playing := some 1
  currentPosition := 5000
  songQueue := ⟨[some ⟨⟨0, -3⟩, none⟩], some 0, some 0, 1, 0⟩
  windowState := fun i => if i = 2 then 1 else 0
  stateInfo := .init

/-- The same database after a restart. -/
def twoSongsRestarted : SquashState :=
  { twoSongs with
    playing := none
    songQueue := ⟨[], none, none, 0, 0⟩
    windowState := fun _ => 0 }

def twoSongsTime : Ctime := ⟨"Thu Jan  1 00:00:00 1970".toList, by decide⟩

theorem loadState_saveState_twoSongs :
    ∃ saved, saveState ⟨false, "state".toList⟩ twoSongsTime twoSongs = some saved ∧
      ∃ loaded l', loadState (fun _ => true) ⟨false, "state".toList⟩
          { twoSongsRestarted with files := saved.files } = some loaded ∧
        loaded.songQueue.WellFormed l' ∧
        (l'.map Prod.snd).map (place twoSongs.songs) =
          (twoSongs.toSave ([(0, ⟨0, -3⟩)].map Prod.snd)).map (place twoSongs.songs) ∧
        loaded.windowState = twoSongs.windowState := by
  have hqueue : IsList twoSongs.songQueue.heap twoSongs.songQueue.head [(0, ⟨0, -3⟩)] :=
    .cons rfl (.nil none)
  have hsavable : Savable twoSongs [(0, ⟨0, -3⟩)] := by
    refine ⟨?_, ?_, hqueue, ?_, ?_⟩
    · decide
    · decide
    · decide
    · decide
  have hempty : twoSongsRestarted.songQueue.WellFormed [] := ⟨.nil none, rfl, rfl⟩
  exact loadState_saveState ⟨false, "state".toList⟩ rfl twoSongsTime (fun _ => true) twoSongs
    twoSongsRestarted [(0, ⟨0, -3⟩)] hsavable (fun _ _ => rfl) rfl hempty

end Squash
