import Montage.Disk.Basic

/-!
# Changing a disk

Every operation either fails and leaves the disk alone, or gives the changed disk.
Only making a directory with all those above it can fail half way.
-/

namespace Montage.Disk

/-! ## Files -/

/-- Opens a file for writing from its start. A file that exists is emptied, a missing one is
made. -/
def create (d : Disk) (path : String) : Except DiskError (FileId × Disk) := do
  let place ← d.resolve path
  match d.occupant? place with
  | some .directory => throw .isADirectory
  | some (.file id) => pure (id, d.setBytes id [])
  | none =>
    let id := d.nextFile
    pure (id, { (d.put place (.file id)).setBytes id [] with nextFile := id + 1 })

/-- Octets over those of a file from a position on; a gap before it is filled with zeros. -/
def patch (old : Bytes) (position : Nat) (new : Bytes) : Bytes :=
  old.take position ++ List.replicate (position - old.length) 0 ++ new
    ++ old.drop (position + new.length)

def writeAt (d : Disk) (id : FileId) (position : Nat) (content : Bytes) : Disk :=
  d.setBytes id (patch (d.bytes id) position content)

def write (d : Disk) (path : String) (content : Bytes) : Except DiskError Disk := do
  let (id, d) ← d.create path
  pure (d.setBytes id content)

def removeFile (d : Disk) (path : String) : Except DiskError Disk := do
  let place ← d.resolve path
  match d.occupant? place with
  | none => throw .notFound
  | some .directory => throw .isADirectory
  | some (.file _) => pure (d.clear place)

def removeFileIfAny (d : Disk) (path : String) : Disk :=
  match d.removeFile path with
  | .ok d => d
  | .error _ => d

/-- Takes a file from one place to another one. Two places that are names of it both stay. -/
def moveFile (d : Disk) (source target : Place) (id : FileId) : Disk :=
  if d.occupant? target = some (.file id) then d else (d.clear source).put target (.file id)

/-- Gives a file another name, which it takes over from a file that has it. -/
def renameFile (d : Disk) (source target : String) : Except DiskError Disk := do
  let a ← d.resolve source
  let b ← d.resolve target
  match d.occupant? a, d.occupant? b with
  | none, _ => throw .notFound
  | some .directory, _ | _, some .directory => throw .isADirectory
  | some (.file id), _ => pure (d.moveFile a b id)

/-- Copies a file, giving the number of octets. A file copied onto itself is emptied first. -/
def copyFile (d : Disk) (source target : String) : Except DiskError (Nat × Disk) := do
  match ← d.look source with
  | .directory => throw .notARegularFile
  | .file id =>
    let (copy, d) ← d.create target
    let content := d.bytes id
    pure (content.length, d.setBytes copy content)

/-! ## Directories -/

def makeDirectory (d : Disk) (path : String) : Except DiskError Disk := do
  let place ← d.resolve path
  match d.occupant? place with
  | some _ => throw .fileExists
  | none => pure (d.put place .directory)

def ensureDirectory (d : Disk) (path : String) : Except DiskError Unit × Disk :=
  match d.makeDirectory path with
  | .ok d => (.ok (), d)
  | .error e => (if d.isDirectory path then .ok () else .error e, d)

/-- Makes the first of several directories, each below the next, and the others as needed. -/
def ensureAll (d : Disk) : List String → Except DiskError Unit × Disk
  | [] => (.ok (), d)
  | path :: above =>
    match d.ensureDirectory path with
    | (.error .notFound, _) =>
      match d.ensureAll above with
      | (.ok (), d) => d.ensureDirectory path
      | failed => failed
    | r => r

def createDirectories (d : Disk) (path : String) : Except DiskError Unit × Disk :=
  d.ensureAll (Path.ancestors path)

def removeAll (d : Disk) (path : String) : Except DiskError Disk := do
  let place ← d.resolve path
  match d.occupant? place with
  | none => throw .notFound
  | some (.file _) => throw .notADirectory
  | some .directory =>
    pure { d with entries := d.entries.filter fun e => !place.isPrefixOf e.1 }

def removeAllIfAny (d : Disk) (path : String) : Disk :=
  match d.removeAll path with
  | .ok d => d
  | .error _ => d

end Montage.Disk
