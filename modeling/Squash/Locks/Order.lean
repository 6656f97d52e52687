import Squash.Locks.Threads

/-!
# The order of the locks

doc/LOCKS tells the order in which locks are to be taken. The threads keep to it exactly as long as
none of them comes to one of the four marked places, and then they cannot wait for each other in a
circle (`always_inOrder_iff`).

At the marked places the order is broken: `spectrum_reset` takes `spectrum_info.lock` after
`spectrum_ring.lock`; the player goes back to the top of its loop with `frame_buffer.lock` when it
finds a song of unknown type; `do_edit_command` takes `display_info.lock` after
`database_info.lock`; and `main` saves the state with `status_info.lock` in its hands.
-/

namespace Squash.Locks

open Locking Transition

/-- The threads that `main` starts, and `main`. -/
inductive ThreadName where
  | displayMonitor
  | keyboardMonitor
  | fifoMonitor
  | irMonitor
  | player
  | frameDecoder
  | playlistManager
  | spectrumMonitor
  | stateSaver
  | setupDatabase
  | main
  | power
  | screenRedraw
  deriving DecidableEq, Repr

instance : Fintype ThreadName :=
  Fintype.ofList [.displayMonitor, .keyboardMonitor, .fifoMonitor, .irMonitor, .player,
    .frameDecoder, .playlistManager, .spectrumMonitor, .stateSaver, .setupDatabase, .main, .power,
    .screenRedraw] (by intro thread; cases thread <;> decide)

def program (build : Build) : ThreadName → Code
  | .displayMonitor => displayMonitor build
  | .keyboardMonitor => keyboardMonitor build
  | .fifoMonitor => fifoMonitor build
  | .irMonitor => irMonitor build
  | .player => player build
  | .frameDecoder => frameDecoder build
  | .playlistManager => playlistManager build
  | .spectrumMonitor => spectrumMonitor build
  | .stateSaver => stateSaver build
  | .setupDatabase => setupDatabase build
  | .main => main build
  | .power => power build
  | .screenRedraw => screenRedraw build

/-- **All threads take the locks in order**, between the marked places, and break it there. -/
theorem check_program (build : Build) (thread : ThreadName) :
    (check (program build thread) none []).isSome := by
  obtain ⟨empeg, adventure, noNcurses, debug⟩ := build
  cases thread <;> revert empeg adventure noNcurses debug <;> decide +kernel

theorem atPlace_start (build : Build) (thread : ThreadName) :
    (start (program build) thread).atPlace = false := by
  obtain ⟨empeg, adventure, noNcurses, debug⟩ := build
  cases thread <;> revert empeg adventure noNcurses debug <;> decide +kernel

/-- **The order is kept, and nobody waits in a circle**, exactly as long as no thread comes to one of
the marked places. -/
theorem always_inOrder_iff (build : Build) (steps : List (ThreadName × Bool)) :
    Always step (fun s => Ordered s ∧ ∀ i, ¬ Relation.TransGen (WaitsFor s) i i)
        (start (program build)) steps ↔
      Guarded step KeepsOff (start (program build)) steps := by
  rw [← always_ordered_iff (check_program build) (atPlace_start build)]
  constructor
  · exact fun h => h.mono fun s hs => hs.1
  · exact fun h => h.mono fun s hs => ⟨hs, hs.acyclic⟩

/-- The fifo monitor receives the command to edit. With `database_info.lock` in its hands,
`do_edit_command` requests `display_info.lock`. -/
theorem not_inOrder_edit :
    ¬ Always step (fun s => Ordered s ∧ ∀ i, ¬ Relation.TransGen (WaitsFor s) i i)
      (start (program ⟨false, false, false, false⟩))
      ([true, true, true, false, true, true, true, true, true, true, false, false, true, false,
        false, false, false, true, true, true].map fun way => (.fifoMonitor, way)) := by
  intro h
  obtain ⟨hordered, -⟩ := h.at_end rfl
  have hlt : Lock.databaseInfo < Lock.displayInfo :=
    hordered .fifoMonitor .displayInfo rfl (.shared, .databaseInfo) (List.mem_singleton_self _)
  exact absurd hlt (by decide)

end Squash.Locks
