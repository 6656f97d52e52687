import Squash.Foundations.Pcm
import Mathlib.Tactic.Common

/-!
# Enumerations and records shared by the threads
-/

namespace Squash

/-- `enum song_type_e`. -/
inductive SongType where
  | unknown | ogg | mp3 | flac
  deriving DecidableEq, Repr

/-- `enum player_state_e`. With `bigStop` the player pauses before it loads a file. -/
inductive PlayerState where
  | play | pause | stop | bigStop
  deriving DecidableEq, Repr

/-- `enum player_command_e`. -/
inductive PlayerCommand where
  | noop | play | pause | stop | skip
  deriving DecidableEq, Repr

/-! ## Frames of sound -/

open Pcm (Byte)

/-- `frame_data_t`, what a decoder hands over. The null pointer is `none`. -/
structure FrameData where
  pcmData : Option (List Byte)
  pcmSize : Int
  position : Int
  deriving DecidableEq, Repr

/-- The frame has as many bytes as it says. -/
def FrameData.Delivered (frame : FrameData) : Prop :=
  ∃ pcm, frame.pcmData = some pcm ∧ frame.pcmSize = pcm.length

/-- `squash_realloc( ptr, size )` of a buffer of bytes. What was not there before is what the memory
happens to hold. -/
def squashRealloc (fresh : Nat → Byte) (ptr : Option (List Byte)) (size : Nat) : List Byte :=
  (List.range size).map fun i => (ptr.getD []).getD i (fresh i)

@[simp] theorem length_squashRealloc (fresh : Nat → Byte) (ptr : Option (List Byte)) (size : Nat) :
    (squashRealloc fresh ptr size).length = size := by
  simp [squashRealloc]

end Squash
