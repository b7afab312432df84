import Montage.Pipeline.Board
import Montage.Scenario.Basic

/-!
# Layouts

The pipelines that a scenario makes of its downloaded files.
-/

namespace Montage

namespace Board

def performAll (b : Board) (id : PipelineId) (calls : List Call) : Except RenderError Board :=
  calls.foldlM (fun b c => b.perform id c) b

end Board

namespace Scenario

/-- The calls on the master before anything is attached to it. -/
def masterCalls : Scenario → List String → List Board.Call
  | bannerAppend _ _, source :: _ => [.init source, .colorAdjust]
  | coverWithImage _ _ region maxDuration, source :: image :: _ =>
    [.init source, .trim .zero maxDuration, .overlay image region]
  | shortify _ start maxDuration turns, source :: _ =>
    [.init source, .trim start maxDuration] ++
      (if turns % 4 = 0 then [] else [.rotate turns]) ++ [.colorAdjust]
  | _, _ => []

/-- The files that follow the master's, each a pipeline of its own. -/
def appended : Scenario → List String → List String
  | bannerAppend _ _, _ :: rest => rest
  | _, _ => []

def attach (frame : Geometry) (master : PipelineId) (b : Board) (path : String) :
    Except RenderError Board := do
  let (member, b) := b.add frame false
  let b ← b.perform member (.init path)
  b.perform master (.concat member)

/-- The master pipeline of a scenario, with its board. The files are in the order of the
scenario's sources. -/
def layout (s : Scenario) (frame : Geometry) (paths : List String) :
    Except RenderError (PipelineId × Board) :=
  if paths.length ≠ s.sources.length then
    .error <| .invalidArgument <|
      s.name ++ " needs " ++ toString s.sources.length ++ " sources, got " ++
        toString paths.length
  else do
    let (master, b) := Board.add {} frame true
    let b ← b.performAll master (s.masterCalls paths)
    let b ← (s.appended paths).foldlM (attach frame master) b
    pure (master, b)

end Scenario

end Montage
