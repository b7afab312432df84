import Montage.Graph.Compile
import Montage.Media.Probe
import Montage.Pipeline.Board
import Montage.Text.Quoted
import Montage.Transcoder.Basic
import Montage.World

/-!
# Running pipelines

A pipeline is compiled from what its sources are found to be, and then rendered by
the transcoder in one run. What was found out about a source is kept, so that the
graph seen beforehand is the graph that is run.
-/

namespace Montage

structure Engine (σ : Type) where
  probe : Probe σ
  transcoder : Transcoder σ
  settings : RenderSettings := {}

structure Session (σ : Type) where
  board : Board
  world : World σ
  /-- Where progress is told, if anyone wants to know. -/
  mailbox : Option Mailbox := none

abbrev RenderAct (σ : Type) := ExceptT RenderError (StateM (Session σ))

structure RenderResult where
  output : String
  sizeBytes : Nat
  streams : Nat
  /-- Expected length in seconds. -/
  duration : Scalar
  deriving DecidableEq

namespace RenderAct

def note (e : Event) : RenderAct σ Unit :=
  modify fun s => { s with world := s.world.note e }

def lift (r : Except RenderError α) : RenderAct σ α :=
  match r with
  | .ok a => pure a
  | .error e => throw e

/-- Asks someone for an answer about the disk. -/
def ask (f : σ → Disk → Except RenderError α × σ) : RenderAct σ α := do
  let s ← get
  let (r, own) := f s.world.own s.world.disk
  set { s with world := { s.world with own } }
  lift r

end RenderAct

namespace Engine

open RenderAct

/-- What is known of a source, found out where it is not known yet. -/
def factsOf (e : Engine σ) (id : PipelineId) (s : BoundSource) : RenderAct σ Facts := do
  match s.facts with
  | some facts => pure facts
  | none =>
    note (.probed s.input)
    let duration ← ask (e.probe.duration s.input)
    note (.probed s.input)
    let hasAudio ← ask (e.probe.hasAudio s.input)
    let facts := ⟨duration, hasAudio⟩
    modify fun t =>
      let p := t.board.get id
      { t with board := t.board.set id { p with bound := some { s with facts := some facts } } }
    pure facts

def streamOf (e : Engine σ) (id : PipelineId) : RenderAct σ Stream := do
  match ((← get).board.get id).bound with
  | none => throw (.invalidState "pipeline was never initialised")
  | some s =>
    let facts ← e.factsOf id s
    pure ⟨s.input, s.edits, facts.hasAudio, facts.duration⟩

def complexFilters (e : Engine σ) (id : PipelineId) : RenderAct σ Graph := do
  let board := (← get).board
  if !board.isBound id then throw (.beforeInit "complex_filters")
  let ids ← lift (board.flatten id)
  let streams ← ids.mapM e.streamOf
  lift (Graph.compile streams (board.get id).frame)

def prepareOutput (output : String) : RenderAct σ Unit := do
  let dir := Path.parent output
  if dir ≠ "" then
    let s ← get
    let (made, disk) := s.world.disk.createDirectories dir
    set { s with world := { s.world with disk } }
    lift (made.mapError .io)

/-- One run of the transcoder, in which time passes. -/
def transcode (e : Engine σ) (arguments : List String) (duration : Scalar) :
    RenderAct σ RunReport := do
  note (.transcoded arguments)
  let s ← get
  let watch := s.mailbox.map fun m => (⟨some duration, m⟩ : Watch)
  let ran := e.transcoder.run arguments watch s.world.own s.world.disk
  set { s with
    mailbox := ran.watch.map Watch.mailbox
    world := { s.world with
      own := ran.own, disk := ran.disk, clock := s.world.clock + ran.elapsed } }
  lift ran.outcome

def compileAndExecute (e : Engine σ) (id : PipelineId) (output : String) :
    RenderAct σ RenderResult := do
  let graph ← e.complexFilters id
  note (.submitted graph.streams)
  prepareOutput output
  let _ ← e.transcode (graph.arguments output e.settings) graph.duration
  match (← get).world.disk.size output with
  | .error _ => throw .noOutput
  | .ok size => pure ⟨output, size, graph.streams, graph.duration⟩

def noteRendered (ok : Bool) (start : Nat) : RenderAct σ Unit := do
  note (.rendered ok ((← get).world.clock - start))

/-- Renders a master pipeline to a file, which is gone again if that fails. -/
def run (e : Engine σ) (id : PipelineId) (output : String) : RenderAct σ RenderResult := do
  let p := (← get).board.get id
  if !p.isMaster then throw (.masterOnly "run")
  if p.bound.isNone then throw (.beforeInit "run")
  let start := (← get).world.clock
  try
    let r ← e.compileAndExecute id output
    noteRendered true start
    pure r
  catch failure =>
    noteRendered false start
    modify fun s => { s with world := s.world.onDisk (·.removeFileIfAny output) }
    throw failure

def describe (e : Engine σ) : String :=
  "RenderEngine \x7b probe: " ++ Text.quoted e.probe.name ++ ", runner: "
    ++ Text.quoted e.transcoder.name ++ " \x7d"

end Engine

namespace Pipeline

def showOptional (write : α → String) : Option α → String
  | some a => "Some(" ++ write a ++ ")"
  | none => "None"

def describe (p : Pipeline) : String :=
  "VideoPipeline \x7b geometry: Geometry \x7b width: " ++ toString p.frame.width ++ ", height: "
    ++ toString p.frame.height ++ " \x7d, is_master: " ++ toString p.isMaster ++ ", input: "
    ++ showOptional Text.quotedPath (p.bound.map (·.input)) ++ ", ops: "
    ++ showOptional toString (p.bound.map (·.edits.length)) ++ ", members: "
    ++ toString p.attachments.length ++ " \x7d"

end Pipeline

end Montage
