import Squash.Foundations.Locking

/-!
# The locks

The program's locks, in the order of doc/LOCKS, and the macros that take them and give them back.
`database_info.lock` is taken for reading or for writing; all the others are mutexes.

The macros end the program if the thread library reports an error, which is left out. So is the
build that logs every use of a lock.
-/

namespace Squash.Locks

open Locking

/-- doc/LOCKS: "If you need to hold more than one lock, you may only grab them in the order
shown." -/
inductive Lock where
  | stateInfo
  | displayInfo
  | databaseInfo
  | songQueue
  | pastQueue
  | playerInfo
  | playerCommand
  | frameBuffer
  | spectrumInfo
  | spectrumRing
  | logInfo
  | statusInfo
  deriving DecidableEq, Repr

/-- The place in the list. -/
def Lock.rank : Lock → Nat
  | .stateInfo => 0
  | .displayInfo => 1
  | .databaseInfo => 2
  | .songQueue => 3
  | .pastQueue => 4
  | .playerInfo => 5
  | .playerCommand => 6
  | .frameBuffer => 7
  | .spectrumInfo => 8
  | .spectrumRing => 9
  | .logInfo => 10
  | .statusInfo => 11

instance : Preorder Lock := Preorder.lift Lock.rank

instance : DecidableLT Lock := fun a b => inferInstanceAs (Decidable (a.rank < b.rank))

/-- What the program is compiled for. -/
structure Build where
  empeg : Bool
  adventure : Bool
  noNcurses : Bool
  debug : Bool
  deriving DecidableEq, Repr

/-! ## Taking and giving back -/

def squashLock (lock : Lock) : Op Lock := .acquire .exclusive lock

def squashUnlock (lock : Lock) : Op Lock := .release .exclusive lock

def squashRlock (lock : Lock) : Op Lock := .acquire .shared lock

def squashRunlock (lock : Lock) : Op Lock := .release .shared lock

def squashWlock (lock : Lock) : Op Lock := .acquire .exclusive lock

def squashWunlock (lock : Lock) : Op Lock := .release .exclusive lock

/-- `squash_log`. -/
def squashLog (build : Build) : List (Op Lock) :=
  if build.debug then [squashLock .logInfo, squashUnlock .logInfo] else []

/-- `squash_wait`, without the time in between. -/
def squashWait (lock : Lock) : List (Op Lock) := [squashUnlock lock, squashLock lock]

end Squash.Locks
