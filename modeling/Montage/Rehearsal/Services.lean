import Montage.Artifact.Store
import Montage.Fetch.Fetcher
import Montage.Record.Store

/-!
# Rehearsals of downloads, publishing and records

Stand-ins that fail as they are told to and keep what they were given.
-/

namespace Montage.Rehearsal

/-! ## Downloads -/

structure Downloads where
  /-- Failures of the next downloads. -/
  errors : List FetchError := []
  /-- Links that are always answered with a status. -/
  failingUrls : List (String × Nat) := []

namespace Downloads

def save (d : Downloads) (url path : String) (disk : Disk) :
    Except FetchError String × Downloads × Disk :=
  match d.failingUrls.lookup url, d.errors with
  | some status, _ => (.error (.http url status), d, disk)
  | none, e :: rest => (.error e, { d with errors := rest }, disk)
  | none, [] =>
    match disk.write path (Text.encode ("mock source from " ++ url)) with
    | .ok disk => (.ok path, d, disk)
    | .error e => (.error (.io e), d, disk)

def fetcher (get : σ → Downloads) (set : Downloads → σ → σ) : Fetcher σ where
  name := "mock"
  save url path own disk :=
    let (r, d, disk) := (get own).save url path disk
    (r, set d own, disk)

end Downloads

/-! ## Publishing -/

structure Publishing where
  /-- Failures of the next uploads. -/
  errors : List ArtifactError := []

namespace Publishing

def upload (p : Publishing) (path name : String) (disk : Disk) :
    Except ArtifactError StoredArtifact × Publishing :=
  match p.errors with
  | e :: rest => (.error e, { p with errors := rest })
  | [] =>
    match disk.size path with
    | .ok size => (.ok ⟨"mock://artifacts/" ++ name, size, none⟩, p)
    | .error _ => (.error (.sourceNotFound path), p)

def store (get : σ → Publishing) (set : Publishing → σ → σ) : ArtifactStore σ where
  name := "mock"
  upload path name own disk :=
    let (r, p) := (get own).upload path name disk
    (r, set p own, disk)

end Publishing

/-! ## Records -/

structure Records where
  /-- In the order of their arrival. -/
  videos : List PreparedVideo := []
  nextError : Option RecordError := none

namespace Records

def add (r : Records) (v : PreparedVideo) : Except RecordError Unit × Records :=
  match r.nextError with
  | some e => (.error e, { r with nextError := none })
  | none => (.ok (), { r with videos := r.videos ++ [v] })

def store (get : σ → Records) (set : Records → σ → σ) : RecordStore σ where
  add v own :=
    let (result, r) := (get own).add v
    (result, set r own)
  getOne f own := .ok ((get own).videos.find? f.accepts)

end Records

end Montage.Rehearsal
