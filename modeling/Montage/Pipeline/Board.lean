import Montage.Edit

/-!
# Boards of pipelines

A pipeline is bound to one source, collects edits of it, and may have other
pipelines attached behind it. Pipelines refer to one another, so they lie together on a
board, and a reference is a place on the board: what is attached is seen as it is when it
is looked at, not as it was.
-/

namespace Montage

/-- The place of a pipeline on its board. -/
abbrev PipelineId := Nat

structure Facts where
  duration : Scalar
  hasAudio : Bool
  deriving DecidableEq

/-- A source with its edits, and its facts once they are known. -/
structure BoundSource where
  input : String
  edits : List Edit := []
  facts : Option Facts := none
  deriving DecidableEq

inductive Attachment
  /-- The pipeline's own source once more. -/
  | itself
  | other (id : PipelineId)
  deriving DecidableEq, Repr

structure Pipeline where
  frame : Geometry
  /-- Only a master has attachments and can be run. -/
  isMaster : Bool
  bound : Option BoundSource := none
  attachments : List Attachment := []
  deriving DecidableEq

def Pipeline.unbound (frame : Geometry) (isMaster : Bool) : Pipeline where
  frame := frame
  isMaster := isMaster

structure Board where
  pipelines : List Pipeline := []
  deriving DecidableEq

namespace Board

/-- The pipeline at a place; nothing lies beyond the end but a pipeline that can do nothing. -/
def get (b : Board) (id : PipelineId) : Pipeline := b.pipelines.getD id (.unbound ⟨0, 0⟩ false)

def set (b : Board) (id : PipelineId) (p : Pipeline) : Board := ⟨b.pipelines.set id p⟩

def add (b : Board) (frame : Geometry) (isMaster : Bool) : PipelineId × Board :=
  (b.pipelines.length, ⟨b.pipelines ++ [.unbound frame isMaster]⟩)

def isBound (b : Board) (id : PipelineId) : Bool := (b.get id).bound.isSome

def edits (b : Board) (id : PipelineId) : List Edit := (b.get id).bound.elim [] (·.edits)

def input? (b : Board) (id : PipelineId) : Option String := (b.get id).bound.map (·.input)

/-! ## Attachments -/

/-- Whether `target` is attached below a pipeline, at most `depth` levels down. -/
def reachesWithin (b : Board) (target : PipelineId) : Nat → PipelineId → Bool
  | 0, _ => false
  | depth + 1, id =>
    (b.get id).attachments.any fun
      | .itself => false
      | .other o => o = target || b.reachesWithin target depth o

/-- Whether `target` is attached below a pipeline, at any level. Without a cycle no level is
deeper than the board has places. -/
def reaches (b : Board) (id target : PipelineId) : Bool :=
  b.reachesWithin target b.pipelines.length id

/-! ## Calls -/

inductive Call
  /-- Binds the source, which is possible once. -/
  | init (input : String)
  | colorAdjust
  | colorAdjustWith (balance : ColorBalance)
  | rotate (quarterTurns : Int)
  | overlay (image : String) (region : Region)
  | trim (start duration : Scalar)
  | silentAudio
  | targetGeometry (width height : Nat)
  /-- Attaches a pipeline behind those attached already. -/
  | concat (other : PipelineId)
  deriving DecidableEq

/-- The edit that a call appends, with the name under which it is refused. -/
def Call.edit? : Call → Option (String × Except RenderError Edit)
  | .init _ | .concat _ => none
  | .colorAdjust => some ("color_adjust", .ok (.colorAdjust .default))
  | .colorAdjustWith balance => some ("color_adjust", .ok (.colorAdjust balance))
  | .rotate turns => some ("rotate", .ok (.rotate turns))
  | .overlay image region => some ("overlay", region.validate.map (.overlay image))
  | .trim start duration => some ("trim", Edit.trim? start duration)
  | .silentAudio => some ("silent_audio", .ok .silentAudio)
  | .targetGeometry width height =>
    some ("target_geometry", (Geometry.validate ⟨width, height⟩).map .targetGeometry)

def init (b : Board) (id : PipelineId) (input : String) : Except RenderError Board :=
  let p := b.get id
  match p.bound with
  | some s => .error (.invalidState ("pipeline already bound to " ++ s.input))
  | none => .ok (b.set id { p with bound := some { input } })

def append (b : Board) (id : PipelineId) (name : String) (edit : Except RenderError Edit) :
    Except RenderError Board :=
  let p := b.get id
  match p.bound with
  | none => .error (.beforeInit name)
  | some s => edit.map fun e => b.set id { p with bound := some { s with edits := s.edits ++ [e] } }

/-- Attaches a pipeline to a master. What already reaches the master is refused, so that no
pipeline is ever below itself; a pipeline attached to itself only repeats its source. -/
def concat (b : Board) (id other : PipelineId) : Except RenderError Board :=
  let p := b.get id
  let attach (a : Attachment) := b.set id { p with attachments := p.attachments ++ [a] }
  if !p.isMaster then .error (.masterOnly "concat")
  else if p.bound.isNone then .error (.beforeInit "concat")
  else if other = id then .ok (attach .itself)
  else if !b.isBound other then .error (.beforeInit "concat")
  else if b.reaches other id then
    .error (.invalidState "attaching would create a cycle of pipelines")
  else .ok (attach (.other other))

def perform (b : Board) (id : PipelineId) (c : Call) : Except RenderError Board :=
  match c, c.edit? with
  | _, some (name, edit) => b.append id name edit
  | .init input, none => b.init id input
  | .concat other, none => b.concat id other
  | _, none => .ok b

/-! ## Order of streams -/

def neverInitialised : RenderError := .invalidState "attached pipeline was never initialised"

/-- What a pipeline puts behind its own source, when `below` tells this of the others. -/
def flattenAttachments (below : PipelineId → Except RenderError (List PipelineId)) (id : PipelineId) :
    List Attachment → Except RenderError (List PipelineId)
  | [] => .ok []
  | .itself :: rest => (flattenAttachments below id rest).map (id :: ·)
  | .other o :: rest => do
    let first ← below o
    let others ← flattenAttachments below id rest
    pure (first ++ others)

/-- The pipelines that a pipeline puts one after the other: its own source, then what is
attached, `depth` levels down. -/
def flattenWithin (b : Board) : Nat → PipelineId → Except RenderError (List PipelineId)
  | 0, _ => .error neverInitialised
  | depth + 1, id =>
    let p := b.get id
    if p.bound.isNone then .error neverInitialised
    else (flattenAttachments (b.flattenWithin depth) id p.attachments).map (id :: ·)

def flatten (b : Board) (id : PipelineId) : Except RenderError (List PipelineId) :=
  b.flattenWithin (b.pipelines.length + 1) id

end Board

end Montage
