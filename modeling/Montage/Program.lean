import Montage.Disk.Change

/-!
# Running programs

What comes back when a program is started: it may be missing, the system may
refuse to run it, or it runs, writes to its two outputs and ends some way. Time is
in milliseconds since the start.
-/

namespace Montage

inductive Ending
  | exited (code : Int)
  /-- Ended by a signal, without an exit code. -/
  | killed
  | hanging
  deriving DecidableEq, Repr

structure ChildRun where
  output : Bytes := []
  /-- What arrives on the error stream, each piece with its time. -/
  errors : List (Nat × Bytes) := []
  /-- When the program ends. -/
  length : Nat := 0
  ending : Ending := .exited 0
  deriving DecidableEq, Repr

inductive Launch
  | missing
  | refused (error : DiskError)
  | started (run : ChildRun)
  deriving DecidableEq, Repr

/-- Starts programs, by path and arguments. A program may change the disk. -/
abbrev Launcher (σ : Type) := String → List String → σ → Disk → Launch × σ × Disk

namespace ChildRun

/-! ## Lines of the error stream -/

def isLineEnd (b : UInt8) : Bool := b = 0x0a

/-- A line without the carriage return before its end. -/
def stripReturn (line : Bytes) : Bytes :=
  if line.getLast? = some 0x0d then line.dropLast else line

/-- Cuts octets into lines. `sofar` is the unfinished line and `done` are the finished ones,
both in reverse; a line has the time of its end. The unfinished tail is kept apart. -/
def cutLines (time : Nat) (sofar : Bytes) (done : List (Nat × Bytes)) :
    Bytes → Bytes × List (Nat × Bytes)
  | [] => (sofar, done)
  | b :: rest =>
    if isLineEnd b then cutLines time [] ((time, stripReturn sofar.reverse) :: done) rest
    else cutLines time (b :: sofar) done rest

/-- Cuts pieces into lines; a line may start in one piece and end in another. -/
def cutPieces (sofar : Bytes) (done : List (Nat × Bytes)) :
    List (Nat × Bytes) → Bytes × List (Nat × Bytes)
  | [] => (sofar, done)
  | (time, piece) :: rest =>
    let (sofar, done) := cutLines time sofar done piece
    cutPieces sofar done rest

/-- The lines of the error stream. What follows the last line end is a line once the program
has ended. -/
def errorLines (run : ChildRun) : List (Nat × Bytes) :=
  let (tail, done) := cutPieces [] [] run.errors
  if tail.isEmpty || run.ending = .hanging then done.reverse
  else done.reverse ++ [(run.length, tail.reverse)]

end ChildRun

end Montage
