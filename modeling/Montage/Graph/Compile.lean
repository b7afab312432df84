import Montage.Graph.Basic
import Montage.Graph.Stream

/-!
# Compiling streams

Streams in order become one graph. Pictures are written first, then sounds. One
stream leaves as it is, with sound only where it has some; several are joined,
and then every one needs a sound, silence in the place of none.
-/

namespace Montage

namespace Sound

def statement? (index : Nat) (length : Scalar) : Sound → Option Statement
  | source input cuts => some (.sound input cuts (.sound index))
  | silence => some (.silence length (.sound index))
  | absent => none

/-- Joined streams all have a sound. -/
def orSilence : Sound → Sound
  | absent => silence
  | s => s

end Sound

namespace Graph

/-- Compiles streams one after the other, each numbering its inputs after those before it. -/
def compileStreams (p : Precision) (frame : Geometry) :
    Nat → Nat → List Stream → Except RenderError (List CompiledStream)
  | _, _, [] => .ok []
  | index, input, s :: rest => do
    let c ← s.compile p index input frame
    let cs ← compileStreams p frame (index + 1) (input + c.inputs.length) rest
    pure (c :: cs)

def alone (c : CompiledStream) (duration : Scalar) : Graph :=
  let sound := c.sound.statement? 0 c.duration
  { inputs := c.inputs
    statements := c.statements ++ sound.toList
    video := c.video
    audio := sound.map fun _ => .sound 0
    streams := 1
    duration }

def joined (cs : List CompiledStream) (duration : Scalar) : Graph :=
  let sounds := cs.zipIdx.filterMap fun (c, i) => c.sound.orSilence.statement? i c.duration
  { inputs := cs.flatMap (·.inputs)
    statements := cs.flatMap (·.statements) ++ sounds ++
      [.join (cs.zipIdx.map fun (c, i) => (c.video, .sound i))]
    video := .joinedPicture
    audio := some .joinedSound
    streams := cs.length
    duration }

/-- Compiles streams into one graph of frame size `frame`, with seconds kept in precision `p`. -/
def compileIn (p : Precision) (streams : List Stream) (frame : Geometry) :
    Except RenderError Graph := do
  if streams.isEmpty then throw (.invalidState "no streams to compile")
  let frame ← frame.validate
  let cs ← compileStreams p frame 0 0 streams
  let duration := Scalar.sum p (cs.map (·.duration))
  match cs with
  | [c] => pure (alone c duration)
  | cs => pure (joined cs duration)

/-- Compiles streams with seconds in double precision. -/
def compile (streams : List Stream) (frame : Geometry) : Except RenderError Graph :=
  compileIn .double streams frame

end Graph

end Montage
