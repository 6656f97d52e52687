import Squash.Locks.Hierarchy

/-!
# The threads and their locks

Each function that takes locks, as the sequence of what it does with them. A branch is taken either
way and a loop goes round any number of times, so these programs have all the paths of the source.

What happens between the operations on locks is `lockFree`: it may write to the log, and it may run
into `squash_error`, from which no thread comes back. The `pthread_cancel`s at the end of `main` are
left out: a thread that does not go on any more takes no lock.

Four places are marked. They are those where the order of the locks is about to be broken, see
`Squash.Locks.Order`.
-/

namespace Squash.Locks

open Locking

/-- The marked places. -/
inductive Place where
  /-- `spectrum_reset`, after `squash_lock( spectrum_ring.lock )`. -/
  | spectrumReset
  /-- `player`, at the `continue` for a song of unknown type. -/
  | unknownSong
  /-- `do_edit_command`, after `squash_rlock( database_info.lock )`. -/
  | editCommand
  /-- `main`, after its wait for the end. -/
  | shutdown
  deriving DecidableEq, Repr

abbrev Code := Prog Lock Place

open Prog

variable (build : Build)

/-! ## global.c -/

/-- The end of `_squash_error`, which signals for ever. -/
def setErrorStatus : Code :=
  block [ops [squashLock .statusInfo, squashUnlock .statusInfo], forever skip]

/-- `_squash_error`. It takes the log, and keeps it, if nobody else has it. -/
def squashError : Code :=
  if build.debug then either (block [.op (squashLock .logInfo), setErrorStatus]) setErrorStatus
  else setErrorStatus

/-- Code that takes no locks of its own. -/
def lockFree : Code :=
  block [loop (ops (squashLog build)), either skip (squashError build)]

/-! ## display.c and spectrum.c -/

def drawScreen : Code :=
  if build.noNcurses then skip
  else
    block [
      lockFree build,
      -- the screen may be too small
      either skip
        (block [
          ops [squashRlock .databaseInfo, squashLock .songQueue, squashLock .pastQueue,
            squashLock .playerInfo, squashLock .spectrumInfo],
          lockFree build,
          ops [squashUnlock .spectrumInfo, squashUnlock .playerInfo, squashUnlock .pastQueue,
            squashUnlock .songQueue, squashRunlock .databaseInfo]])]

def displayMonitor : Code :=
  forever (block [
    .op (squashLock .displayInfo),
    wait .displayInfo,
    ops [squashRlock .databaseInfo, squashLock .songQueue, squashLock .pastQueue,
      squashLock .playerInfo],
    lockFree build,
    ops [squashUnlock .playerInfo, squashUnlock .songQueue, squashUnlock .pastQueue,
      squashRunlock .databaseInfo, squashUnlock .displayInfo]])

def spectrumMonitor : Code :=
  if build.empeg then skip
  else
    forever (block [
      ops [squashLock .displayInfo, squashLock .spectrumInfo, squashLock .spectrumRing],
      loop (block [
        ops [squashUnlock .spectrumInfo, squashUnlock .spectrumRing],
        wait .displayInfo,
        ops [squashLock .spectrumInfo, squashLock .spectrumRing]]),
      lockFree build,
      .op (squashUnlock .spectrumRing),
      lockFree build,
      ops [squashUnlock .spectrumInfo, squashUnlock .displayInfo]])

def spectrumReset : Code :=
  block [
    .op (squashLock .spectrumRing),
    reach .spectrumReset,
    ops [squashLock .spectrumInfo, squashUnlock .spectrumInfo, squashUnlock .spectrumRing]]

def spectrumUpdate : Code := ops [squashLock .spectrumRing, squashUnlock .spectrumRing]

/-! ## player.c -/

def frameDecoder : Code :=
  forever (block [
    lockFree build,
    .op (squashLock .frameBuffer),
    lockFree build,
    loop (wait .frameBuffer),
    .op (squashUnlock .frameBuffer)])

/-- One command of the player. -/
def playerCommand : Code :=
  block [
    lockFree build,
    oneOf [
      -- `CMD_SKIP`: `feedback`
      lockFree build,
      -- `CMD_STOP`, inside a song
      block [lockFree build, spectrumReset],
      -- `CMD_PAUSE`, `CMD_PLAY` and the others
      skip]]

/-- Process any commands. -/
def playerCommands : Code :=
  block [
    ops [squashUnlock .playerCommand, squashWlock .databaseInfo, squashLock .playerInfo,
      squashLock .playerCommand, squashLock .frameBuffer],
    loop (playerCommand build),
    ops [squashUnlock .playerInfo, squashUnlock .frameBuffer, squashWunlock .databaseInfo]]

/-- `STATE_BEFORE_SONG`. -/
def playerBeforeSong : Code :=
  block [
    ops [squashRlock .databaseInfo, squashLock .songQueue, squashLock .playerInfo,
      squashLock .frameBuffer],
    loop (block [
      ops [squashUnlock .frameBuffer, squashUnlock .playerInfo, squashRunlock .databaseInfo],
      wait .songQueue,
      ops [squashUnlock .songQueue, squashRlock .databaseInfo, squashLock .songQueue,
        squashLock .playerInfo, squashLock .frameBuffer]]),
    lockFree build,
    .op (squashUnlock .songQueue),
    either
      -- `TYPE_UNKNOWN`: back to the top
      (reach .unknownSong)
      (block [
        lockFree build,
        ops [squashUnlock .frameBuffer, squashRunlock .databaseInfo],
        lockFree build,
        .op (squashUnlock .playerInfo),
        spectrumReset])]

/-- `STATE_IN_SONG`. -/
def playerInSong : Code :=
  block [
    .op (squashLock .frameBuffer),
    either
      (block [
        .op (squashUnlock .frameBuffer),
        oneOf [
          -- the end of the file, or an error that cannot be recovered
          block [.op (squashWlock .databaseInfo), lockFree build,
            .op (squashWunlock .databaseInfo)],
          -- a recoverable error
          skip,
          block [spectrumUpdate, .op (squashLock .playerInfo), .op (squashUnlock .playerInfo),
            lockFree build]]])
      (block [wait .frameBuffer, .op (squashUnlock .frameBuffer)])]

/-- `STATE_AFTER_SONG`. -/
def playerAfterSong : Code :=
  block [
    ops [squashRlock .databaseInfo, squashLock .pastQueue],
    lockFree build,
    ops [squashUnlock .pastQueue, squashRunlock .databaseInfo, squashLock .playerInfo],
    lockFree build,
    .op (squashUnlock .playerInfo)]

def player : Code :=
  forever (block [
    .op (squashLock .playerCommand),
    either (playerCommands build) skip,
    either
      (block [wait .playerCommand, .op (squashUnlock .playerCommand)])
      (block [
        .op (squashUnlock .playerCommand),
        oneOf [playerBeforeSong build, playerInSong build, playerAfterSong build]])])

/-! ## playlist_manager.c -/

/-- A turn of one of the two loops that wait for the queue or the statistics. -/
def waitWithoutDatabase : Code :=
  block [
    lockFree build,
    .op (squashWunlock .databaseInfo),
    wait .songQueue,
    ops [squashUnlock .songQueue, squashWlock .databaseInfo, squashLock .songQueue]]

def playlistManager : Code :=
  block [
    .op (squashLock .songQueue),
    loop (wait .songQueue),
    .op (squashUnlock .songQueue),
    forever (block [
      lockFree build,
      ops [squashWlock .databaseInfo, squashLock .songQueue],
      loop (waitWithoutDatabase build),
      lockFree build,
      loop (waitWithoutDatabase build),
      lockFree build,
      ops [squashUnlock .songQueue, squashWunlock .databaseInfo]])]

/-! ## stat.c and database.c -/

def startSongPicker : Code :=
  block [
    .op (squashWlock .databaseInfo),
    loop (if build.empeg then ops [squashWunlock .databaseInfo, squashWlock .databaseInfo]
      else skip),
    .op (squashWunlock .databaseInfo)]

/-- `load_all_meta_data( TYPE_STAT )`. -/
def loadAllMetaData : Code :=
  if build.empeg then
    block [
      lockFree build,
      .op (squashRlock .databaseInfo),
      loop (block [
        ops [squashRunlock .databaseInfo, squashWlock .databaseInfo],
        lockFree build,
        ops [squashWunlock .databaseInfo, squashRlock .databaseInfo]]),
      lockFree build,
      .op (squashRunlock .databaseInfo)]
  else
    block [
      lockFree build,
      .op (squashWlock .databaseInfo),
      loop (lockFree build),
      lockFree build,
      .op (squashWunlock .databaseInfo)]

/-! ## global_squash.c and squash.c -/

def loadState : Code :=
  block [
    .op (squashLock .stateInfo),
    lockFree build,
    if build.empeg then ops [squashLock .displayInfo, squashUnlock .displayInfo] else skip,
    .op (squashUnlock .stateInfo),
    if build.noNcurses then skip
    else
      ops [squashLock .stateInfo, squashLock .displayInfo, squashUnlock .displayInfo,
        squashUnlock .stateInfo],
    .op (squashLock .stateInfo),
    loop (block [
      ops [squashWlock .databaseInfo, squashLock .songQueue],
      lockFree build,
      ops [squashWunlock .databaseInfo, squashUnlock .songQueue, squashUnlock .stateInfo,
        squashLock .stateInfo]]),
    .op (squashUnlock .stateInfo)]

def power : Code :=
  if build.empeg then
    block [
      lockFree build,
      either (ops [squashLock .statusInfo, squashUnlock .statusInfo]) skip]
  else skip

def stateSaver : Code :=
  forever (block [
    ops [squashLock .stateInfo, squashLock .displayInfo, squashRlock .databaseInfo,
      squashLock .songQueue, squashLock .playerInfo],
    lockFree build,
    ops [squashUnlock .playerInfo, squashUnlock .songQueue, squashRunlock .databaseInfo,
      squashUnlock .displayInfo, squashUnlock .stateInfo]])

def screenRedraw : Code :=
  if build.noNcurses then skip
  else
    forever (block [
      .op (squashLock .displayInfo),
      either (drawScreen build) skip,
      .op (squashUnlock .displayInfo)])

def setupDatabase : Code :=
  block [
    ops [squashLock .displayInfo, squashWlock .databaseInfo],
    lockFree build,
    ops [squashWunlock .databaseInfo, squashUnlock .displayInfo],
    lockFree build,
    ops [squashLock .spectrumRing, squashUnlock .spectrumRing],
    lockFree build,
    .op (squashLock .playerCommand),
    lockFree build,
    .op (squashUnlock .playerCommand),
    lockFree build,
    loadState build,
    lockFree build,
    drawScreen build,
    lockFree build,
    ops [squashLock .songQueue, squashUnlock .songQueue],
    loadAllMetaData build,
    startSongPicker build,
    lockFree build]

/-- `main`. The threads are there from the start. -/
def main : Code :=
  block [
    lockFree build,
    drawScreen build,
    lockFree build,
    .op (squashLock .statusInfo),
    loop (wait .statusInfo),
    reach .shutdown,
    .op (squashLock .stateInfo),
    lockFree build,
    .op (squashUnlock .stateInfo)]

/-! ## input.c -/

/-- To hold one lock for a moment. -/
def withLock (lock : Lock) : Code :=
  block [.op (squashLock lock), lockFree build, .op (squashUnlock lock)]

/-- Take out the selected song, with `feedback`. -/
def removeSelectedSong : Code :=
  block [
    ops [squashWlock .databaseInfo, squashLock .songQueue],
    lockFree build,
    ops [squashUnlock .songQueue, squashWunlock .databaseInfo]]

def doRemovePlaylistEntry : Code := if build.empeg then removeSelectedSong build else skip

def doSongRatingAdjust : Code :=
  block [
    if build.empeg then skip
    else
      oneOf [skip, ops [squashLock .songQueue, squashUnlock .songQueue],
        ops [squashLock .pastQueue, squashUnlock .pastQueue]],
    either
      (block [.op (squashWlock .databaseInfo), lockFree build, .op (squashWunlock .databaseInfo)])
      skip]

def doClear : Code := ops [squashLock .displayInfo, squashUnlock .displayInfo]

/-- `do_resize`, `do_toggle_info_command` and `do_tab`: draw the screen anew. -/
def withScreenDrawn : Code :=
  block [.op (squashLock .displayInfo), drawScreen build, .op (squashUnlock .displayInfo)]

def doResize : Code := withScreenDrawn build

def doToggleInfoCommand : Code := withScreenDrawn build

def doTab : Code := withScreenDrawn build

def doQuit : Code := ops [squashLock .statusInfo, squashUnlock .statusInfo]

def doSetPlayerCommand : Code := withLock build .playerCommand

def doTogglePlayerCommand : Code :=
  block [
    ops [squashLock .playerInfo, squashLock .playerCommand],
    lockFree build,
    ops [squashUnlock .playerCommand, squashUnlock .playerInfo]]

def doToggleSpectrumState : Code :=
  block [
    ops [squashLock .displayInfo, squashLock .spectrumRing, squashUnlock .spectrumRing],
    drawScreen build,
    .op (squashUnlock .displayInfo)]

def doArrow : Code :=
  block [
    .op (squashLock .displayInfo),
    oneOf [skip, ops [squashLock .songQueue, squashUnlock .songQueue],
      ops [squashLock .pastQueue, squashUnlock .pastQueue]],
    .op (squashUnlock .displayInfo)]

def doDelete : Code :=
  block [
    ops [squashLock .displayInfo, squashWlock .databaseInfo],
    either skip
      (block [.op (squashLock .songQueue), lockFree build, .op (squashUnlock .songQueue)]),
    ops [squashWunlock .databaseInfo, squashUnlock .displayInfo]]

def doEditCommand : Code :=
  block [
    .op (squashRlock .databaseInfo),
    reach .editCommand,
    .op (squashLock .displayInfo),
    oneOf [ops [squashLock .playerInfo, squashUnlock .playerInfo],
      ops [squashLock .songQueue, squashUnlock .songQueue],
      ops [squashLock .pastQueue, squashUnlock .pastQueue],
      skip],
    either
      -- there is no song
      (ops [squashRunlock .databaseInfo, squashUnlock .displayInfo])
      (block [
        lockFree build,
        .op (squashRunlock .databaseInfo),
        lockFree build,
        .op (squashWlock .databaseInfo),
        lockFree build,
        .op (squashWunlock .databaseInfo),
        lockFree build,
        drawScreen build,
        .op (squashUnlock .displayInfo)])]

/-- What the buttons do in all screens. -/
def buttons : Code :=
  oneOf [skip, withLock build .playerInfo, doTogglePlayerCommand build, doSetPlayerCommand build]

/-- `process_ir_event`. -/
def processIrEvent : Code :=
  if build.empeg then
    if build.adventure then
      either (buttons build)
        (block [
          .op (squashLock .displayInfo),
          oneOf [skip, doSetPlayerCommand build, doQuit, withLock build .songQueue,
            doTogglePlayerCommand build, removeSelectedSong build, lockFree build],
          .op (squashUnlock .displayInfo)])
    else
      block [
        .op (squashLock .displayInfo),
        oneOf [skip, startSongPicker build, doRemovePlaylistEntry build, buttons build, doQuit,
          doSongRatingAdjust build, withLock build .songQueue, lockFree build],
        .op (squashUnlock .displayInfo)]
  else skip

def irMonitor : Code :=
  if build.empeg then
    block [lockFree build, forever (block [lockFree build, either (processIrEvent build) skip])]
  else skip

/-- The commands that need the windows. -/
def windowCommands : Code :=
  if build.noNcurses then skip
  else
    oneOf [block [doClear, doResize build], doToggleSpectrumState build,
      doToggleInfoCommand build, doTab build, doEditCommand build, doDelete build, doArrow]

def keyboardMonitor : Code :=
  if build.noNcurses then skip
  else
    forever (block [
      ops [squashLock .displayInfo, squashUnlock .displayInfo],
      lockFree build,
      oneOf [skip, doResize build, doQuit, doTogglePlayerCommand build, doSetPlayerCommand build,
        doSongRatingAdjust build, windowCommands build]])

def fifoMonitor : Code :=
  forever (block [
    lockFree build,
    loop (oneOf [skip, lockFree build, windowCommands build, doSongRatingAdjust build, doQuit,
      doSetPlayerCommand build, doTogglePlayerCommand build])])

end Squash.Locks
