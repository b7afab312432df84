import Montage.Disk.Change
import Montage.Render.Error
import Montage.Transcoder.Progress

/-!
# Transcoders

A transcoder runs one command line, which changes the disk, and may tell a
watcher how far it is. It has a state of its own, so that nothing is assumed of
how it answers.
-/

namespace Montage

/-- What a transcoder leaves behind when it ends well. -/
structure RunReport where
  exitCode : Option Int
  diagnostics : String
  deriving DecidableEq, Repr

structure Ran (σ : Type) where
  outcome : Except RenderError RunReport
  watch : Option Watch
  /-- How long the run took in milliseconds. -/
  elapsed : Nat
  own : σ
  disk : Disk

structure Transcoder (σ : Type) where
  name : String
  run : List String → Option Watch → σ → Disk → Ran σ

end Montage
