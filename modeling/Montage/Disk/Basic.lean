import Montage.Disk.Error
import Montage.Disk.Path
import Montage.Text.Utf8

/-!
# Disks

A disk gives names to directories and files. Names and contents are kept apart:
a name leads to a file, and the file has the contents, so that whoever has opened
a file keeps it even when another file takes over its name.
-/

namespace Montage

/-- Names from the root down. -/
abbrev Place := List String

abbrev FileId := Nat

inductive Entry
  | directory
  | file (id : FileId)
  deriving DecidableEq, Repr

structure Disk where
  /-- Where paths start that are not absolute. -/
  home : Place := []
  entries : List (Place × Entry) := []
  contents : List (FileId × Bytes) := []
  /-- No file has this number or a greater one. -/
  nextFile : FileId := 0

instance : Inhabited Disk := ⟨{}⟩

namespace Disk

/-- What stands at a place; the root is a directory. -/
def occupant? (d : Disk) (place : Place) : Option Entry :=
  if place = [] then some .directory else d.entries.lookup place

def bytes (d : Disk) (id : FileId) : Bytes := (d.contents.lookup id).getD []

def clear (d : Disk) (place : Place) : Disk :=
  { d with entries := d.entries.filter (·.1 ≠ place) }

def put (d : Disk) (place : Place) (e : Entry) : Disk :=
  { d with entries := (place, e) :: d.entries.filter (·.1 ≠ place) }

def setBytes (d : Disk) (id : FileId) (content : Bytes) : Disk :=
  { d with contents := (id, content) :: d.contents.filter (·.1 ≠ id) }

/-! ## Following paths -/

def step (place : Place) (name : String) : Place :=
  if Path.isStep name then
    if name = ".." then place.dropLast else place ++ [name]
  else place

/-- Names of more octets are refused. -/
def longestName : Nat := 255

/-- Paths of as many octets or more are refused. -/
def pathLimit : Nat := 4096

/-- Follows names from a place. Everything that is passed has to be a directory, what stands at
the end is not looked at. -/
def walk (d : Disk) : Place → List String → Except DiskError Place
  | place, [] => .ok place
  | place, name :: rest =>
    match d.occupant? place with
    | none => .error .notFound
    | some (.file _) => .error .notADirectory
    | some .directory =>
      if longestName < name.utf8ByteSize then .error .nameTooLong
      else d.walk (step place name) rest

def resolve (d : Disk) (path : String) : Except DiskError Place :=
  if path.toList.contains '\x00' then .error .zeroInName
  else if path = "" then .error .notFound
  else if pathLimit ≤ path.utf8ByteSize then .error .nameTooLong
  else d.walk (if Path.isAbsolute path then [] else d.home) (Path.split '/' path)

/-! ## Looking -/

def look (d : Disk) (path : String) : Except DiskError Entry := do
  match d.occupant? (← d.resolve path) with
  | some e => pure e
  | none => throw .notFound

def has (d : Disk) (path : String) : Bool := (d.look path).isOk

def isDirectory (d : Disk) (path : String) : Bool :=
  match d.look path with
  | .ok .directory => true
  | _ => false

def isFile (d : Disk) (path : String) : Bool :=
  match d.look path with
  | .ok (.file _) => true
  | _ => false

/-- The size that directories report. -/
def directorySize : Nat := 4096

def size (d : Disk) (path : String) : Except DiskError Nat := do
  match ← d.look path with
  | .directory => pure directorySize
  | .file id => pure (d.bytes id).length

def read (d : Disk) (path : String) : Except DiskError Bytes := do
  match ← d.look path with
  | .directory => throw .isADirectory
  | .file id => pure (d.bytes id)

def list (d : Disk) (path : String) : Except DiskError (List String) := do
  let place ← d.resolve path
  match d.occupant? place with
  | none => throw .notFound
  | some (.file _) => throw .notADirectory
  | some .directory =>
    pure (d.entries.filterMap fun (p, _) => if p.dropLast = place then p.getLast? else none)

end Disk

end Montage
