import Montage.Compose.Download
import Montage.Compose.Layout
import Montage.Compose.Workspace
import Montage.Pipeline.Run
import Montage.Record.Store
import Montage.Scenario.Request
import Montage.Settings.Basic

/-!
# Jobs

A job is checked, its sources are downloaded into a directory of its own, its
pipeline is rendered, and the result is published and recorded, in this order. A
render that fails is attempted again after a pause as long as the failure could pass
and attempts are left. However the job ends, its directory is removed and the end
is counted.
-/

namespace Montage

structure Composer (σ : Type) where
  engine : Engine σ
  fetcher : Fetcher σ
  artifacts : ArtifactStore σ
  records : RecordStore σ
  settings : ComposerSettings := {}
  maxParallelDownloads : Nat := 4
  /-- Where the directories of jobs are made. -/
  root : String

/-- What is different for every job: the ending of its directory's name, the name of its record
and the time of its end. -/
structure Stamp where
  suffix : String
  recordId : String
  createdAt : Timestamp
  deriving DecidableEq, Repr

structure Outcome where
  record : PreparedVideo
  render : RenderResult
  /-- The paths of the downloaded sources. -/
  sources : List String
  deriving DecidableEq

structure Prepared where
  request : Request
  stamp : Stamp
  dir : String
  sources : List String
  master : PipelineId
  board : Board
  deriving DecidableEq

namespace Prepared

def output (p : Prepared) : String := Workspace.file p.dir "output.mp4"

def remoteName (p : Prepared) : String := p.request.jobId ++ ".mp4"

def record (p : Prepared) (stored : StoredArtifact) (render : RenderResult) : PreparedVideo where
  id := p.stamp.recordId
  jobId := p.request.jobId
  scenario := p.request.scenario.name
  accounts := p.request.accounts
  caption := p.request.caption
  url := stored.url
  sizeBytes := stored.sizeBytes
  checksum := stored.checksum
  duration := render.duration
  createdAt := p.stamp.createdAt

end Prepared

abbrev JobAct (σ : Type) := ExceptT ComposeError (Act σ)

namespace Composer

def slots (c : Composer σ) : Nat := max 1 c.settings.maxParallelRenders

/-! ## Beginning and end -/

def close (dir scenario : String) (ok : Bool) (w : World σ) : World σ :=
  (w.onDisk (Workspace.remove · dir)).note (.jobEnded scenario (if ok then .success else .failed))

def openWorkspace (dir : String) : JobAct σ Unit := do
  let w ← get
  let (made, disk) := Workspace.create w.disk dir
  set { w with disk }
  match made with
  | .ok () => pure ()
  | .error e => throw (.io e)

def targets (s : Scenario) (dir : String) : List Target :=
  s.sources.zipIdx.map fun (source, i) => ⟨source.url, Workspace.file dir (source.fileName i)⟩

def gather (c : Composer σ) (stamp : Stamp) (r : Request) (dir : String) : JobAct σ Prepared := do
  let fetched ← c.fetcher.downloadAll c.settings.retry c.maxParallelDownloads
    (targets r.scenario dir)
  let sources ← match fetched with
    | .ok paths => pure paths
    | .error e => throw (.fetch e)
  let settings := c.engine.settings
  match r.scenario.layout ⟨settings.width, settings.height⟩ sources with
  | .ok (master, board) => pure ⟨r, stamp, dir, sources, master, board⟩
  | .error e => throw (.render e)

/-- Everything before the first render. -/
def prepare (c : Composer σ) (stamp : Stamp) (r : Request) : JobAct σ Prepared := do
  match r.validate with
  | .error e =>
    modify (·.note (.jobEnded r.scenario.name .rejected))
    throw e
  | .ok () =>
    let dir := Workspace.path c.root r.jobId stamp.suffix
    openWorkspace dir
    try
      c.gather stamp r dir
    catch e =>
      modify (close dir r.scenario.name false)
      throw e

/-! ## Rendering -/

def runMaster (c : Composer σ) (p : Prepared) :
    Act σ (Except RenderError RenderResult × Prepared) := fun w =>
  let start : Session σ := ⟨p.board, w, none⟩
  let (r, session) := (c.engine.run p.master p.output).run.run start
  ((r, { p with board := session.board }), session.world)

/-- A run that is counted as active. -/
def renderOnce (c : Composer σ) (p : Prepared) :
    Act σ (Except RenderError RenderResult × Prepared) := fun w =>
  c.runMaster p (w.note .renderBegun)

/-- The pause before attempt number `attempt + 1`. -/
def pause (c : Composer σ) (attempt : Nat) : Act σ Unit :=
  modify fun w => (w.note (.retried .render)).wait (c.settings.retry.delayFor attempt)

/-- Whether a render that came to a result is attempted again, when `left` more attempts can
follow. -/
def again (left : Nat) : Except RenderError RenderResult → Bool
  | .ok _ => false
  | .error e => e.retryable && 0 < left

/-- Renders until it succeeds, fails for good, or no more than attempt number `attempt` and
`left` others have been made. -/
def renderWithRetry (c : Composer σ) (p : Prepared) (attempt : Nat) :
    Nat → Act σ (Except RenderError RenderResult)
  | 0 => do
    let (r, _) ← c.renderOnce p
    modify (·.note .renderEnded)
    pure r
  | left + 1 => do
    let (r, p) ← c.renderOnce p
    modify (·.note .renderEnded)
    if again (left + 1) r then
      c.pause attempt
      c.renderWithRetry p (attempt + 1) left
    else pure r

/-! ## Publishing -/

def publish (c : Composer σ) (p : Prepared) : JobAct σ StoredArtifact := do
  let w ← get
  let (r, own, disk) := c.artifacts.upload p.output p.remoteName w.own w.disk
  set ({ w with own, disk }.note (.uploaded p.output p.remoteName r.toOption))
  match r with
  | .ok stored => pure stored
  | .error e => throw (.upload e)

def recordVideo (c : Composer σ) (v : PreparedVideo) : JobAct σ Unit := do
  let w ← get
  let (r, own) := c.records.add v w.own
  set ({ w with own }.note (.recorded v r.isOk))
  match r with
  | .ok () => pure ()
  | .error e => throw (.record e)

def deliver (c : Composer σ) (p : Prepared) (render : Except RenderError RenderResult) :
    JobAct σ Outcome := do
  match render with
  | .error e => throw (.render e)
  | .ok render =>
    let stored ← c.publish p
    let record := p.record stored render
    c.recordVideo record
    pure ⟨record, render, p.sources⟩

def conclude (c : Composer σ) (p : Prepared) (render : Except RenderError RenderResult) :
    Act σ (Except ComposeError Outcome) := do
  let r ← (c.deliver p render).run
  modify (close p.dir p.request.scenario.name r.isOk)
  pure r

def compose (c : Composer σ) (stamp : Stamp) (r : Request) :
    Act σ (Except ComposeError Outcome) := do
  match ← (c.prepare stamp r).run with
  | .error e => pure (.error e)
  | .ok p => c.conclude p (← c.renderWithRetry p 1 c.settings.retry.retries)

end Composer

end Montage
