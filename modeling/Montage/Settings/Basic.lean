import Montage.Settings.Render
import Montage.Settings.Retry
import Montage.Text.Blank

/-!
# Settings

All settings with their defaults, the way in from a document and back, and the
check that they can be worked with.
-/

namespace Montage

structure ComposerSettings where
  maxParallelRenders : Nat := 2
  retry : RetryPolicy := {}
  deriving DecidableEq

structure FetchSettings where
  timeoutSecs : Nat := 120
  maxParallelDownloads : Nat := 4
  userAgent : String := "reelsmith/0.1.0"
  deriving DecidableEq, Repr

structure WorkspaceSettings where
  root : String := "/tmp/reelsmith"
  deriving DecidableEq, Repr

structure ArtifactSettings where
  dir : String := "artifacts"
  baseUrl : String := "http://localhost:8080/artifacts"
  deriving DecidableEq, Repr

structure RecordSettings where
  path : String := "reelsmith.db"
  deriving DecidableEq, Repr

structure Settings where
  render : RenderSettings := {}
  workspace : WorkspaceSettings := {}
  fetch : FetchSettings := {}
  composer : ComposerSettings := {}
  artifacts : ArtifactSettings := {}
  records : RecordSettings := {}
  deriving DecidableEq

/-! ## From documents -/

open Document

def ComposerSettings.read (surplus : Surplus) : Reader ComposerSettings :=
  readRecord surplus do
    let d : ComposerSettings := {}
    let maxParallelRenders ← defaultField "max_parallel_renders" d.maxParallelRenders (readNat 64)
    let retry ← defaultField "retry" d.retry (RetryPolicy.read surplus)
    pure { maxParallelRenders, retry }

def FetchSettings.read (surplus : Surplus) : Reader FetchSettings :=
  readRecord surplus do
    let d : FetchSettings := {}
    let timeoutSecs ← defaultField "timeout_secs" d.timeoutSecs (readNat 64)
    let maxParallelDownloads ←
      defaultField "max_parallel_downloads" d.maxParallelDownloads (readNat 64)
    let userAgent ← defaultField "user_agent" d.userAgent readText
    pure { timeoutSecs, maxParallelDownloads, userAgent }

def WorkspaceSettings.read (surplus : Surplus) : Reader WorkspaceSettings :=
  readRecord surplus do
    let d : WorkspaceSettings := {}
    let root ← defaultField "root" d.root readText
    pure { root }

def ArtifactSettings.read (surplus : Surplus) : Reader ArtifactSettings :=
  readRecord surplus do
    let d : ArtifactSettings := {}
    let dir ← defaultField "dir" d.dir readText
    let baseUrl ← defaultField "base_url" d.baseUrl readText
    pure { dir, baseUrl }

def RecordSettings.read (surplus : Surplus) : Reader RecordSettings :=
  readRecord surplus do
    let d : RecordSettings := {}
    let path ← defaultField "path" d.path readText
    pure { path }

namespace Settings

def read (surplus : Surplus) : Reader Settings :=
  readRecord surplus do
    let render ← defaultField "render" {} (RenderSettings.read surplus)
    let workspace ← defaultField "workspace" {} (WorkspaceSettings.read surplus)
    let fetch ← defaultField "fetch" {} (FetchSettings.read surplus)
    let composer ← defaultField "composer" {} (ComposerSettings.read surplus)
    let artifacts ← defaultField "artifacts" {} (ArtifactSettings.read surplus)
    let records ← defaultField "records" {} (RecordSettings.read surplus)
    pure { render, workspace, fetch, composer, artifacts, records }

def toDocument (s : Settings) : Document :=
  .table [
    ("render", s.render.toDocument),
    ("workspace", .table [("root", .text s.workspace.root)]),
    ("fetch", .table [("timeout_secs", .nat s.fetch.timeoutSecs),
      ("max_parallel_downloads", .nat s.fetch.maxParallelDownloads),
      ("user_agent", .text s.fetch.userAgent)]),
    ("composer", .table [("max_parallel_renders", .nat s.composer.maxParallelRenders),
      ("retry", s.composer.retry.toDocument)]),
    ("artifacts", .table [("dir", .text s.artifacts.dir), ("base_url", .text s.artifacts.baseUrl)]),
    ("records", .table [("path", .text s.records.path)])]

/-! ## The check -/

/-- What is wrong with settings that cannot be worked with, the first fault only. Output frames
must be even because chroma is stored for pairs of pixels. -/
def fault? (s : Settings) : Option String :=
  let r := s.render
  if r.width = 0 ∨ r.height = 0 then some "render.width and render.height must be non-zero"
  else if r.width % 2 ≠ 0 ∨ r.height % 2 ≠ 0 then
    some ("render geometry must be even, got " ++ toString r.width ++ "x" ++ toString r.height)
  else if r.timeoutSecs = 0 then some "render.timeout_secs cannot be 0"
  else if s.fetch.timeoutSecs = 0 then some "fetch.timeout_secs cannot be 0"
  else if s.fetch.maxParallelDownloads = 0 then some "fetch.max_parallel_downloads cannot be 0"
  else if s.composer.maxParallelRenders = 0 then some "composer.max_parallel_renders cannot be 0"
  else if s.composer.retry.maxAttempts = 0 then some "composer.retry.max_attempts cannot be 0"
  else if Text.trim s.artifacts.baseUrl = "" then some "artifacts.base_url cannot be empty"
  else none

end Settings

inductive SettingsError
  | fileNotFound (path : String)
  | unreadable
  | invalid (reason : String)
  deriving DecidableEq, Repr

namespace SettingsError

/-- The message; the detail of an unreadable file is left to whoever read it. -/
def message : SettingsError → String
  | fileNotFound path => "Configuration file not found: " ++ path
  | unreadable => "Failed to parse configuration"
  | invalid reason => "Configuration validation failed: " ++ reason

end SettingsError

namespace Settings

def validate (s : Settings) : Except SettingsError Unit :=
  match s.fault? with
  | some reason => .error (.invalid reason)
  | none => .ok ()

end Settings

end Montage
