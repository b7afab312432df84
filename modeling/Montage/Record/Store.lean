import Montage.Disk.Change
import Montage.Record.Table

/-!
# Record stores

A record store takes prepared videos in and finds them again. The store over
record tables keeps them in a file of their own, or in memory only.
-/

namespace Montage

structure RecordStore (σ : Type) where
  add : PreparedVideo → σ → Except RecordError Unit × σ
  getOne : VideoFilter → σ → Except RecordError (Option PreparedVideo)

/-- The store over tables that are part of a larger state. -/
def RecordTable.store (get : σ → RecordTable) (set : RecordTable → σ → σ) :
    RecordStore σ where
  add v own :=
    match (get own).add v with
    | .ok t => (.ok (), set t own)
    | .error e => (.error e, own)
  getOne f own := (get own).getOne f

structure Databases where
  tables : List (FileId × RecordTable) := []

namespace Databases

def table (d : Databases) (id : FileId) : RecordTable := (d.tables.lookup id).getD {}

def setTable (d : Databases) (id : FileId) (t : RecordTable) : Databases :=
  ⟨(id, t) :: d.tables.filter (·.1 ≠ id)⟩

def header : Bytes := Text.encode "SQLite format 3\x00"

def unopenable : RecordError := .database "unable to open database file"

/-- Opens a database file, making it and the directories above it as needed. A file with other
content than a database is refused. -/
def openFile (d : Databases) (disk : Disk) (path : String) :
    Except RecordError (FileId × Databases) × Disk :=
  match disk.createDirectories (Path.parent path) with
  | (.error e, disk) => (.error (.database e.message), disk)
  | (.ok (), disk) =>
    match disk.look path with
    | .ok .directory => (.error unopenable, disk)
    | .ok (.file id) =>
      if (d.tables.lookup id).isSome then (.ok (id, d), disk)
      else if disk.bytes id = [] then (.ok (id, d.setTable id {}), disk.setBytes id header)
      else (.error (.database "file is not a database"), disk)
    | .error .notFound =>
      match disk.create path with
      | .ok (id, disk) => (.ok (id, d.setTable id {}), disk.setBytes id header)
      | .error _ => (.error unopenable, disk)
    | .error _ => (.error unopenable, disk)

/-- The store over the tables of one open file. -/
def store (get : σ → Databases) (set : Databases → σ → σ) (id : FileId) : RecordStore σ :=
  RecordTable.store (fun own => (get own).table id)
    fun t own => set ((get own).setTable id t) own

end Databases

end Montage
