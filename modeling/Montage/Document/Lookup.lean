import Montage.Document.Fields

/-!
# Looking values up

Values of a table under their keys. What is missing or not of its type is named by
its key.
-/

namespace Montage.Document

abbrev Lookup (α : Type) := Except String α

def found (name : String) : Option α → Lookup α
  | some a => .ok a
  | none => .error ("bad " ++ name)

/-- The value of a key that has to be there. -/
def entry (d : Document) (key : String) (read : Reader α) : Lookup α :=
  match d.get? key with
  | some v => found key (read v)
  | none => .error ("missing " ++ key)

/-- The value of a key that has a default. -/
def entryOr (d : Document) (key : String) (default : α) (read : Reader α) : Lookup α :=
  match d.get? key with
  | some v => found key (read v)
  | none => .ok default

/-- The value of a key that may be missing or null. -/
def entryIfAny (d : Document) (key : String) (read : Reader α) : Lookup (Option α) :=
  match d.get? key with
  | some v => found key (readOption read v)
  | none => .ok none

end Montage.Document
