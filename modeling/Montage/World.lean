import Montage.Artifact.Store
import Montage.Record.Video

/-!
# The world of a job

What pipelines and jobs work on: the disk, the state of everyone they work with, a
clock, and a journal of what was done. Nothing is assumed of the states of others;
the journal says what they were asked and, where a count depends on it, what
they answered.
-/

namespace Montage

/-- What a second attempt was made at. -/
inductive Retried
  | download
  | render
  deriving DecidableEq, Repr

def Retried.name : Retried → String
  | download => "download"
  | render => "render"

inductive JobResult
  | success
  | failed
  /-- Turned down before anything was done. -/
  | rejected
  deriving DecidableEq, Repr

def JobResult.name : JobResult → String
  | success => "success"
  | failed => "failed"
  | rejected => "rejected"

inductive Event
  | probed (path : String)
  /-- A graph of so many streams is about to be rendered. -/
  | submitted (streams : Nat)
  | transcoded (arguments : List String)
  /-- A render ended after so many milliseconds, whether or not it came to a run. -/
  | rendered (ok : Bool) (ms : Nat)
  /-- A download was attempted. -/
  | fetched (url path : String) (ok : Bool)
  /-- A download ended after all its attempts. -/
  | downloaded (ok : Bool)
  /-- An upload was attempted, and gave an artifact if it succeeded. -/
  | uploaded (path name : String) (stored : Option StoredArtifact)
  | recorded (video : PreparedVideo) (ok : Bool)
  | retried (what : Retried)
  | waited (ms : Nat)
  /-- A render is counted as active from here on. -/
  | renderBegun
  /-- It is no longer counted. -/
  | renderEnded
  | jobEnded (scenario : String) (result : JobResult)
  deriving DecidableEq

structure World (σ : Type) where
  /-- The state of those who are worked with. -/
  own : σ
  disk : Disk
  journal : List Event := []
  /-- Milliseconds. -/
  clock : Nat := 0

abbrev Act (σ : Type) := StateM (World σ)

namespace World

def note (w : World σ) (e : Event) : World σ := { w with journal := w.journal ++ [e] }

def onDisk (w : World σ) (f : Disk → Disk) : World σ := { w with disk := f w.disk }

def wait (w : World σ) (ms : Nat) : World σ := { w.note (.waited ms) with clock := w.clock + ms }

def count (w : World σ) (p : Event → Bool) : Nat := w.journal.countP p

end World

end Montage
