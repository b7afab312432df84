import Montage.Artifact.Name
import Montage.Artifact.Store
import Montage.Checksum
import Montage.Settings.Basic

/-!
# Uploads into a directory

An upload copies a file under a hidden name into the store's directory and gives
it its own name once it is complete. It goes on in small steps, between which other
uploads may take steps of theirs.
-/

namespace Montage

structure FileStore where
  dir : String
  baseUrl : String
  deriving DecidableEq, Repr

/-- A file on its way into a store. -/
structure Upload where
  store : FileStore
  path : String
  name : String
  deriving DecidableEq, Repr

inductive UploadStage
  | requested
  /-- The directory is there. -/
  | ready
  | opened (source : Entry)
  /-- `seen` is what has been read and written. -/
  | copying (source : Entry) (target : FileId) (seen : Bytes)
  | copied (seen : Bytes)
  | ended (result : Except ArtifactError StoredArtifact)

/-- What the system decides at a step: how many octets are read, and whether the step fails. -/
structure Chance where
  chunk : Nat
  fault : Option DiskError := none

namespace Upload

def destination (u : Upload) : String := ArtifactName.destination u.store.dir u.name

def partialFile (u : Upload) : String := ArtifactName.partialFile u.store.dir u.name

/-- The operation, unless the system makes it fail. -/
def attempt (c : Chance) (r : Except DiskError α) : Except DiskError α :=
  match c.fault with
  | some e => .error e
  | none => r

def fail (e : ArtifactError) : UploadStage := .ended (.error e)

/-- A copy that fails takes the hidden file with it. -/
def abandon (u : Upload) (e : DiskError) (disk : Disk) : UploadStage × Disk :=
  (fail (.io e), disk.removeFileIfAny u.partialFile)

/-- What is known of the artifact once its content is. -/
def stored (u : Upload) (content : Bytes) : StoredArtifact where
  url := ArtifactName.url u.store.baseUrl u.name
  sizeBytes := content.length
  checksum := some (Checksum.sha256 content)

/-- The next octets of a source, none at its end. -/
def piece (c : Chance) (content seen : Bytes) : Bytes :=
  (content.drop seen.length).take (max 1 c.chunk)

def step (u : Upload) (c : Chance) (stage : UploadStage) (disk : Disk) : UploadStage × Disk :=
  match stage with
  | .requested =>
    if !ArtifactName.isValid u.name then (fail (.invalidName u.name), disk)
    else
      match c.fault, disk.createDirectories u.store.dir with
      | some e, _ => (fail (.io e), disk)
      | none, (.ok (), disk) => (.ready, disk)
      | none, (.error e, disk) => (fail (.io e), disk)
  | .ready =>
    match attempt c (disk.look u.path) with
    | .ok source => (.opened source, disk)
    | .error .notFound =>
      (fail (.sourceNotFound u.path), disk.removeFileIfAny u.partialFile)
    | .error e => u.abandon e disk
  | .opened source =>
    match attempt c (disk.create u.partialFile) with
    | .ok (target, disk) => (.copying source target [], disk)
    | .error e => u.abandon e disk
  | .copying source target seen =>
    match source, c.fault with
    | _, some e => u.abandon e disk
    | .directory, none => u.abandon .isADirectory disk
    | .file id, none =>
      let next := piece c (disk.bytes id) seen
      if next.isEmpty then (.copied seen, disk)
      else (.copying source target (seen ++ next), disk.writeAt target seen.length next)
  | .copied seen =>
    match attempt c (disk.renameFile u.partialFile u.destination) with
    | .ok disk => (.ended (.ok (u.stored seen)), disk)
    | .error e => (fail (.io e), disk)
  | .ended r => (.ended r, disk)

/-- Takes steps until the upload has ended, `fuel` at most. -/
def steps (u : Upload) (c : Chance) : Nat → UploadStage → Disk → UploadStage × Disk
  | 0, stage, disk => (stage, disk)
  | fuel + 1, stage, disk =>
    match stage with
    | .ended r => (.ended r, disk)
    | stage =>
      let (stage, disk) := u.step c stage disk
      u.steps c fuel stage disk

def bufferSize : Nat := 256 * 1024

/-- The steps that an upload can take: one for every octet on the disk, and one for every stage. -/
def stepBound (disk : Disk) : Nat := disk.contents.foldl (fun n file => n + file.2.length) 6

def run (u : Upload) (disk : Disk) : Except ArtifactError StoredArtifact × Disk :=
  match u.steps ⟨bufferSize, none⟩ (stepBound disk) .requested disk with
  | (.ended r, disk) => (r, disk)
  | (_, disk) => (.error (.io (.other "upload did not end")), disk)

end Upload

namespace FileStore

def ofSettings (s : ArtifactSettings) : FileStore := ⟨s.dir, s.baseUrl⟩

def store (f : FileStore) : ArtifactStore σ where
  name := "filesystem"
  upload path name own disk :=
    let (result, disk) := Upload.run ⟨f, path, name⟩ disk
    (result, own, disk)

end FileStore

end Montage
