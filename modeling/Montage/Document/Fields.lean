import Montage.Document.Basic
import Montage.Number.Word

/-!
# Taking values from documents

A reader takes a value of a fixed shape from a document. Records come in two
written forms: a table with the fields by name, where other entries do not
matter, or a list with the fields in order. A field that is absent may have a
default; a field that is present has to be of its type.
-/

namespace Montage

abbrev Document.Reader (α : Type) := Document → Option α

namespace Document

def readText : Reader String
  | .text s => some s
  | _ => none

def readBool : Reader Bool
  | .bool b => some b
  | _ => none

/-- A whole number written without point or exponent, from `lo` up to `hi`. -/
def readInt (lo hi : Int) : Reader Int
  | .int n => if lo ≤ n ∧ n ≤ hi then some n else none
  | _ => none

def readNat (bits : Nat) : Reader Nat := fun d =>
  (readInt 0 ((Word.count bits : Nat) - 1) d).map Int.toNat

def readSigned (bits : Nat) : Reader Int := readInt (Word.least bits) (Word.greatest bits)

/-- A number of any form, brought to a precision. -/
def readScalar (p : Precision) : Reader Scalar
  | .int n => some (Scalar.ofInt p n)
  | .float x | .single x => some (x.narrow p)
  | _ => none

/-- A number, or the name of one that formats have no number for. -/
def readAnyScalar (p : Precision) : Reader Scalar
  | .text "NaN" => some .nan
  | .text "inf" => some .posInf
  | .text "-inf" => some .negInf
  | d => readScalar p d

def readOption (read : Reader α) : Reader (Option α)
  | .null => some none
  | d => (read d).map some

def readList (read : Reader α) : Reader (List α)
  | .list items => items.mapM read
  | _ => none

/-! ## Records -/

/-- The written fields of a record. -/
inductive Fields
  | named (entries : List (String × Document))
  | placed (items : List Document)

/-- Takes fields one after the other. -/
abbrev FieldReader (α : Type) := StateT Fields Option α

/-- The field `name`. What is absent from a table and what is absent from a list have
their own defaults. -/
def fieldWith (name : String) (read : Reader α) (unnamed unplaced : Option α) : FieldReader α :=
  fun fields =>
    match fields with
    | .named entries =>
      match entries.filter (·.1 = name) with
      | [] => unnamed.map (·, fields)
      | [e] => (read e.2).map (·, fields)
      | _ => none
    | .placed [] => unplaced.map (·, fields)
    | .placed (d :: rest) => (read d).map (·, .placed rest)

def field (name : String) (read : Reader α) : FieldReader α := fieldWith name read none none

/-- A field that a table may leave out. -/
def maybeField (name : String) (read : Reader α) : FieldReader (Option α) :=
  fieldWith name (readOption read) (some none) none

def defaultField (name : String) (default : α) (read : Reader α) : FieldReader α :=
  fieldWith name read (some default) (some default)

/-- Whether a list may go on after the last field. -/
inductive Surplus
  | refused
  | ignored
  deriving DecidableEq

/-- A record in one of its two forms. -/
def readRecord (surplus : Surplus) (fields : FieldReader α) : Reader α
  | .table entries => (fields (.named entries)).map (·.1)
  | .list items =>
    match fields (.placed items) with
    | some (a, .placed (_ :: _)) => if surplus = .ignored then some a else none
    | some (a, _) => some a
    | none => none
  | _ => none

/-- A record whose kind is named inside it: by the entry `tag` of a table, or by the first item
of a list. `fields` is given the name of the kind and the document without it. -/
def readTagged (tag : String) (ofKind : String → Reader α) : Reader α
  | .table entries =>
    match entries.filter (·.1 = tag) with
    | [(_, .text kind)] => ofKind kind (.table (entries.filter (·.1 ≠ tag)))
    | _ => none
  | .list (.text kind :: rest) => ofKind kind (.list rest)
  | _ => none

def readBare (a : α) : Reader α
  | .table _ | .list [] => some a
  | _ => none

end Document

end Montage
