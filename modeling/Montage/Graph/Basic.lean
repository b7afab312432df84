import Montage.Graph.Statement
import Montage.Settings.Render

/-!
# Filter graphs

A compiled graph: the input files in order, the statements over their pads, and
the pads that leave. Its text is what the transcoder is given, together with the
rest of one command line.
-/

namespace Montage

structure Graph where
  inputs : List String
  statements : List Statement
  video : Pad
  /-- The pad of the sound, if there is any. -/
  audio : Option Pad
  streams : Nat
  /-- The expected length of the output in seconds. -/
  duration : Scalar
  deriving DecidableEq

/-- How often a word occurs in a text, occurrences not overlapping. -/
def occurrences (word : List Char) : Nat → List Char → Nat
  | 0, _ => 0
  | fuel + 1, cs =>
    match cs with
    | [] => 0
    | _ :: rest =>
      if !word.isEmpty && word.isPrefixOf cs then
        occurrences word fuel (cs.drop word.length) + 1
      else occurrences word fuel rest

namespace Graph

def text (g : Graph) : String := ";".intercalate (g.statements.map Statement.text)

def videoLabel (g : Graph) : String := g.video.label

def audioLabel (g : Graph) : Option String := g.audio.map Pad.label

/-- The number of places in the text where streams are joined. -/
def joins (g : Graph) : Nat :=
  let cs := g.text.toList
  occurrences "concat=n=".toList cs.length cs

/-- The whole command line that renders the graph to `output`. -/
def arguments (g : Graph) (output : String) (settings : RenderSettings) : List String :=
  ["-y", "-hide_banner", "-loglevel", settings.logLevel]
    ++ g.inputs.flatMap (fun i => ["-i", i])
    ++ ["-filter_complex", g.text, "-map", g.video.text]
    ++ (match g.audio with
      | some pad => ["-map", pad.text]
      | none => [])
    ++ settings.encoding.arguments g.audio.isSome
    ++ settings.extraArguments
    ++ [output]

end Graph

end Montage
