import Montage.Graph.Statement
import Montage.Number.Word

/-!
# One stream

A stream is a source with its edits and what is known of it. Its picture chain is
written piece by piece: an image laid on top ends a piece, because it joins a
second input in, and rotations wait until another edit follows, so that adjacent
ones become one. Beside the text the writer keeps the size the frame has at that
point and how many seconds remain.
-/

namespace Montage

structure Stream where
  input : String
  edits : List Edit
  hasAudio : Bool
  /-- Length of the source in seconds, zero when unknown. -/
  duration : Scalar
  deriving DecidableEq

/-- The state of a picture chain between two edits. -/
structure Chain where
  stream : Nat
  /-- Number of the input that an image would become. -/
  nextInput : Nat
  /-- Number of the next piece. -/
  segment : Nat
  /-- Where the filters not yet written down begin. -/
  source : Pad
  pending : List Filter
  statements : List Statement
  images : List String
  frame : Geometry
  /-- Quarter turns not yet written down, as a signed number of 32 bits. -/
  turns : Int
  cuts : List Window
  silent : Bool
  /-- Seconds that remain, zero when unknown. -/
  remaining : Scalar
  deriving DecidableEq

/-- Where a stream's sound comes from. -/
inductive Sound
  | source (input : Nat) (cuts : List Window)
  | silence
  | absent
  deriving DecidableEq

structure CompiledStream where
  inputs : List String
  statements : List Statement
  video : Pad
  sound : Sound
  duration : Scalar
  deriving DecidableEq

namespace Chain

/-- A chain at input `input`, brought to the common frame first. -/
def start (stream input : Nat) (frame : Geometry) (duration : Scalar) : Chain where
  stream := stream
  nextInput := input + 1
  segment := 0
  source := .inputVideo input
  pending := [.normalize frame]
  statements := []
  images := []
  frame := frame
  turns := 0
  cuts := []
  silent := false
  remaining := duration.nonneg

def push (c : Chain) (f : Filter) : Chain := { c with pending := c.pending ++ [f] }

/-- Writes the pending filters down as a piece of their own, if there are any. -/
def closeSegment (c : Chain) : Chain :=
  if c.pending.isEmpty then c
  else
    let target := Pad.segment c.stream c.segment
    { c with
      segment := c.segment + 1
      source := target
      pending := []
      statements := c.statements ++ [.chain c.source c.pending target] }

def overlay (c : Chain) (image : String) (r : Region) : Chain :=
  let c := c.closeSegment
  let fitted := Pad.image c.stream c.segment
  let target := Pad.segment c.stream c.segment
  { c with
    nextInput := c.nextInput + 1
    segment := c.segment + 1
    source := target
    statements := c.statements ++
      [.fit c.nextInput r.width r.height fitted, .overlay c.source fitted r.left r.top target]
    images := c.images ++ [image] }

/-- Writes waiting rotations down as one. -/
def flush (c : Chain) : Chain :=
  let still := { c with turns := 0 }
  match Turn.ofQuarters? c.turns with
  | none => still
  | some t =>
    { still.push (.turn t) with frame := if t.transposes then c.frame.transposed else c.frame }

/-- Signed numbers of 32 bits wrap around. -/
def wrap (n : Int) : Int := Word.signed 32 n

def cutRemaining (p : Precision) (remaining : Scalar) (w : Window) : Scalar :=
  if Scalar.zero.lt remaining then (Scalar.sub p remaining w.start).nonneg.min w.duration
  else w.duration

/-- Cuts the stream, unless nothing would remain. -/
def cut (p : Precision) (c : Chain) (input : String) (w : Window) : Except RenderError Chain :=
  if Scalar.zero.lt c.remaining && w.start.ge c.remaining then
    .error <| .invalidArgument <|
      "trim of " ++ input ++ " starts at " ++ w.start.fixed 3 ++ "s but only "
        ++ c.remaining.fixed 3 ++ "s remain"
  else
    .ok { c.push (.cut w) with
      cuts := c.cuts ++ [w]
      remaining := cutRemaining p c.remaining w }

def apply (p : Precision) (input : String) (c : Chain) (e : Edit) : Except RenderError Chain :=
  match e with
  | .rotate q => .ok { c with turns := wrap (c.turns + q) }
  | .colorAdjust b => .ok (c.flush.push (.balance b))
  | .overlay image region => .ok (c.flush.overlay image region)
  | .trim start duration => c.flush.cut p input ⟨start, duration⟩
  | .silentAudio => .ok { c.flush with silent := true }
  | .targetGeometry g => .ok { c.flush.push (.normalize g) with frame := g }

/-- Brings the frame to its common size. One that fits is padded, never scaled back up. -/
def fixFrame (c : Chain) (frame : Geometry) : Chain :=
  if c.frame = frame then c
  else if c.frame.fitsIn frame then { c.push (.letterbox frame) with frame := frame }
  else { c.push (.normalize frame) with frame := frame }

def finish (c : Chain) : Pad × List Statement :=
  if c.pending.isEmpty then (c.source, c.statements)
  else (.picture c.stream, c.statements ++ [.chain c.source c.pending (.picture c.stream)])

end Chain

namespace Stream

def chain (p : Precision) (s : Stream) (index input : Nat) (frame : Geometry) :
    Except RenderError Chain :=
  s.edits.foldlM (Chain.apply p s.input) (.start index input frame s.duration)

/-- Compiles stream number `index`, whose source is input number `input`. -/
def compile (p : Precision) (s : Stream) (index input : Nat) (frame : Geometry) :
    Except RenderError CompiledStream := do
  let c ← s.chain p index input frame
  let (video, statements) := (c.flush.fixFrame frame).finish
  let sound : Sound :=
    if c.silent then .silence
    else if s.hasAudio then .source input c.cuts
    else .absent
  pure {
    inputs := s.input :: c.images
    statements, video, sound
    duration := c.remaining }

end Stream

end Montage
