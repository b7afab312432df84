import Montage.Artifact.Upload
import Montage.CommandLine.Basic
import Montage.Compose.Job
import Montage.Document.Json.Printer
import Montage.Fetch.Client
import Montage.Metrics
import Montage.Settings.Environment
import Montage.Transcoder.Child

/-!
# Running commands

A command is run with the settings that its options and the environment give. It
ends with a text to print, or with the messages of what went wrong, the outermost
first; the metrics are written either way.
-/

namespace Montage

structure Host (σ : Type) where
  launch : Launcher σ
  network : Network σ
  noteProbeFailure : σ → σ
  countBytes : Nat → σ → σ
  databases : σ → Databases
  setDatabases : Databases → σ → σ
  /-- What there is to count when the journal is this. -/
  activity : σ → List Event → Metrics.Activity

structure Farewell where
  printed : String := ""
  /-- What went wrong, in one line. -/
  fatal : Option String := none
  metrics : Option String := none
  exitCode : Nat := 0
  logged : Bool := false
  deriving DecidableEq, Repr

namespace CommandLine

/-- A text to print, or the messages of what went wrong. -/
abbrev Reply := Except (List String)

def within (message : String) (chain : ε → List String) (r : Except ε α) : Reply α :=
  r.mapError fun e => message :: chain e

/-! ## What a command reads -/

def settings (disk : Disk) (env : List (String × String)) (config : Option String) :
    Reply Settings := do
  let s ← match config with
    | none => pure {}
    | some path =>
      within ("Failed to load config from " ++ Text.quotedPath path) (fun e => [e.message])
        (Settings.load disk path env)
  within "Configuration validation failed" (fun e => [e.message]) s.validate
  pure s

def notText : String := "stream did not contain valid UTF-8"

def readJob (disk : Disk) (path : String) : Reply Request := do
  let message := "Failed to read job file " ++ Text.quotedPath path
  let content ← within message (fun e => [e.message]) (disk.read path)
  let text ← within message (fun _ => [notText]) (Text.decode content)
  match Document.Toml.read text >>= Request.read with
  | some r => pure r
  | none => throw ["Invalid job file " ++ Text.quotedPath path]

/-! ## Commands -/

def engine (h : Host σ) (s : RenderSettings) : Engine σ where
  probe := Probe.ofProgram h.launch h.noteProbeFailure s.prober
  transcoder := Transcoder.ofProgram h.launch s.transcoder s.timeoutSecs
  settings := s

def composer (h : Host σ) (s : Settings) (client : FetchClient σ) (records : FileId) :
    Composer σ where
  engine := engine h s.render
  fetcher := client.fetcher
  artifacts := (FileStore.ofSettings s.artifacts).store
  records := Databases.store h.databases h.setDatabases records
  settings := s.composer
  maxParallelDownloads := s.fetch.maxParallelDownloads
  root := s.workspace.root

def openRecords (h : Host σ) (path : String) : Act σ (Except RecordError FileId) := fun w =>
  match (h.databases w.own).openFile w.disk path with
  | (.ok (id, databases), disk) =>
    (.ok id, { w with own := h.setDatabases databases w.own, disk })
  | (.error e, disk) => (.error e, { w with disk })

def compose (h : Host σ) (s : Settings) (stamp : Stamp) (job : String) :
    Act σ (Reply Document) := ExceptT.run do
  let request ← readJob (← get).disk job
  let client ← within "Failed to create source fetcher" FetchError.chain
    (FetchClient.ofSettings s.fetch h.network h.countBytes)
  let records ← within "Failed to open record store" (fun e => [e.message])
    (← openRecords h s.records.path)
  let outcome ← within "Composer job failed" ComposeError.chain
    (← (composer h s client records).compose stamp request)
  pure outcome.record.toDocument

def probe (h : Host σ) (s : Settings) (file : String) : Act σ (Reply Document) := do
  let w ← get
  let (r, own) := (engine h s.render).probe.inspect file w.own w.disk
  set { w with own }
  pure (within ("Failed to probe " ++ Text.quotedPath file) RenderError.chain
    (r.map MediaInfo.toDocument))

def perform (h : Host σ) (s : Settings) (stamp : Stamp) : Command → Act σ (Reply Document)
  | .compose job => compose h s stamp job
  | .probe file => probe h s file
  | .showConfig => pure (.ok s.toDocument)

/-! ## The whole program -/

def farewell (r : Reply Document) (metrics : Option String) : Farewell :=
  match r with
  | .ok d => { printed := Document.Json.pretty d ++ "\n", metrics, logged := true }
  | .error messages =>
    { fatal := some (": ".intercalate messages), metrics, exitCode := 1, logged := true }

def snapshot (a : Metrics.Activity) : String :=
  match Metrics.Registry.registerAll {} with
  | .ok registry => registry.text a
  | .error _ => ""

def logLine (json : Bool) (message : String) : String :=
  if json then
    Document.Json.compact (.table
      [("level", .text "ERROR"), ("fields", .table [("message", .text message)])])
  else "ERROR " ++ message

def carryOut (h : Host σ) (env : List (String × String)) (stamp : Stamp) (o : Options)
    (c : Command) : Act σ Farewell := do
  match settings (← get).disk env o.config with
  | .error messages => pure (farewell (.error messages) none)
  | .ok s =>
    let r ← perform h s stamp c
    let w ← get
    pure (farewell r (if o.metrics then some (snapshot (h.activity w.own w.journal)) else none))

def run (h : Host σ) (env : List (String × String)) (stamp : Stamp) (args : List String) :
    Act σ Farewell :=
  match read env args with
  | none => pure { exitCode := 2 }
  | some .version => pure { printed := versionText }
  | some .help => pure { printed := helpText }
  | some (.invoke o c) => carryOut h env stamp o c

end CommandLine

end Montage
