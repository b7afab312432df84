import Montage.CommandLine.Run
import Montage.Rehearsal.Media
import Montage.Rehearsal.Program
import Montage.Rehearsal.Services
import Montage.Rehearsal.Transcoding

/-!
# Crews

Everyone that pipelines and jobs work with, as one state: stand-ins that are told
how to behave, scripted programs, and record tables. A cue tells one of them how
to behave from now on.
-/

namespace Montage.Rehearsal

structure Crew where
  media : Media := {}
  transcoding : Transcoding := {}
  downloads : Downloads := {}
  publishing : Publishing := {}
  records : Records := {}
  databases : Databases := {}
  programs : Programs := { prober := "", transcoder := "" }
  probeFailures : Nat := 0
  downloadedBytes : Nat := 0

inductive Cue
  | knowMedia (path : String) (info : MediaInfo)
  | failMedia (path : String)
  /-- A link is always answered with a status. -/
  | failUrl (url : String) (status : Nat)
  /-- The next download that is not failing already fails. -/
  | failDownload (error : FetchError)
  | failRun (error : RenderError)
  | failUpload (error : ArtifactError)
  | failRecord (error : RecordError)
  | writeOutput (writes : Bool)
  | writePartial (writes : Bool)

namespace Crew

def tell (c : Crew) : Cue → Crew
  | .knowMedia path info => { c with media := c.media.setInfo path info }
  | .failMedia path => { c with media := c.media.fail path }
  | .failUrl url status =>
    { c with downloads := { c.downloads with
      failingUrls := (url, status) :: c.downloads.failingUrls } }
  | .failDownload e =>
    { c with downloads := { c.downloads with errors := c.downloads.errors ++ [e] } }
  | .failRun e =>
    { c with transcoding := { c.transcoding with errors := c.transcoding.errors ++ [e] } }
  | .failUpload e => { c with publishing := ⟨c.publishing.errors ++ [e]⟩ }
  | .failRecord e => { c with records := { c.records with nextError := some e } }
  | .writeOutput b => { c with transcoding := { c.transcoding with writesOutput := b } }
  | .writePartial b => { c with transcoding := { c.transcoding with writesPartial := b } }

/-! ## Stand-ins -/

/-- The probe over made-up files, which are known by the name `nameOf` gives them. -/
def probe (nameOf : String → String) : Probe Crew := Media.probe (·.media) nameOf

def transcoder (name : String) (tells : Bool) : Transcoder Crew :=
  Transcoding.transcoder name tells (·.transcoding) fun t c => { c with transcoding := t }

def fetcher : Fetcher Crew := Downloads.fetcher (·.downloads) fun d c => { c with downloads := d }

def artifacts : ArtifactStore Crew :=
  Publishing.store (·.publishing) fun p c => { c with publishing := p }

def recordStore : RecordStore Crew := Records.store (·.records) fun r c => { c with records := r }

def engine (settings : RenderSettings) : Engine Crew :=
  ⟨probe id, transcoder "mock" true, settings⟩

/-- The composer of stand-ins. Files are known by their last name, as their directories have
other names every time. -/
def composer (render : RenderSettings) (records : RecordStore Crew) (root : String) :
    Composer Crew where
  engine := { engine render with probe := probe fun path => (Path.fileName? path).getD "" }
  fetcher := fetcher
  artifacts := artifacts
  records := records
  root := root

/-! ## Scripted programs and real stores -/

def launcher : Launcher Crew := Programs.launch (·.programs) fun p c => { c with programs := p }

def noteProbeFailure (c : Crew) : Crew := { c with probeFailures := c.probeFailures + 1 }

def countBytes (size : Nat) (c : Crew) : Crew :=
  { c with downloadedBytes := c.downloadedBytes + size }

def programProbe (program : String) : Probe Crew :=
  Probe.ofProgram launcher noteProbeFailure program

def programTranscoder (program : String) (timeoutSecs : Nat) : Transcoder Crew :=
  Transcoder.ofProgram launcher program timeoutSecs

def tableStore (id : FileId) : RecordStore Crew :=
  Databases.store (·.databases) (fun d c => { c with databases := d }) id

/-- What there is to count when the journal is this. -/
def activity (c : Crew) (journal : List Event) : Metrics.Activity :=
  ⟨journal, c.probeFailures, c.downloadedBytes⟩

/-- What the crew is to the program's commands. No server can be reached. -/
def host : Host Crew where
  launch := launcher
  network := .unreachable
  noteProbeFailure := noteProbeFailure
  countBytes := countBytes
  databases := (·.databases)
  setDatabases d c := { c with databases := d }
  activity := activity

end Crew

/-- The stamp of job number `n`, which differs from those of all jobs below 10000. -/
def stamp (n : Nat) : Stamp where
  suffix := String.ofList ("feed".toList ++ Timestamp.padded 4 n)
  recordId := "record-" ++ toString n
  createdAt := ⟨2024, 1, 1, 0, 0, 0, n * 1000⟩

end Montage.Rehearsal
