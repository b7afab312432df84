import Montage.Number.Decimal

/-!
# Documents

A document is a value without a fixed shape, as data formats and environments
supply it: the reader of a format produces one, and the settings and requests of
this library are taken from one.
-/

namespace Montage

inductive Document
  | null
  | bool (b : Bool)
  | int (n : Int)
  | float (x : Scalar)
  /-- A number of single precision, written with no more digits than that needs. -/
  | single (x : Scalar)
  | text (s : String)
  /-- A string whose octets or escapes spell no text. It can be skipped but not used. -/
  | garbled
  | list (items : List Document)
  /-- Entries in written order. -/
  | table (entries : List (String × Document))

namespace Document

instance : Inhabited Document := ⟨.null⟩

/-- A finite number, or null for what a format has no number for. -/
def number (x : Scalar) : Document := if x.isFinite then .float x else .null

def singleNumber (x : Scalar) : Document := if x.isFinite then .single x else .null

def optional (write : α → Document) : Option α → Document
  | some a => write a
  | none => .null

def nat (n : Nat) : Document := .int n

def texts (ss : List String) : Document := .list (ss.map .text)

/-- Sets an entry: the last value of a key counts and takes the place of the first. -/
def setEntry (key : String) (value : Document) :
    List (String × Document) → List (String × Document)
  | [] => [(key, value)]
  | e :: rest => if e.1 = key then (key, value) :: rest else e :: setEntry key value rest

mutual
/-- The same document with no key twice in a table. -/
def unique : Document → Document
  | .list items => .list (uniqueItems items)
  | .table entries => .table ((uniqueEntries entries).foldl (fun es e => setEntry e.1 e.2 es) [])
  | d => d

def uniqueItems : List Document → List Document
  | [] => []
  | d :: rest => unique d :: uniqueItems rest

def uniqueEntries : List (String × Document) → List (String × Document)
  | [] => []
  | (k, d) :: rest => (k, unique d) :: uniqueEntries rest
end

mutual
/-- Lays one document over another: tables entry by entry, everything else by replacement. -/
def overlay (under : Document) : Document → Document
  | .table upper =>
    match under with
    | .table lower => .table (overlayEntries lower upper)
    | _ => .table upper
  | d => d

def overlayEntries (lower : List (String × Document)) :
    List (String × Document) → List (String × Document)
  | [] => lower
  | (k, d) :: rest =>
    let merged := match lower.lookup k with
      | some old => overlay old d
      | none => d
    overlayEntries (setEntry k merged lower) rest
end

mutual
/-- The same document with its broken numbers written out as text. -/
def spelled : Document → Document
  | .float x | .single x => .text x.text
  | .list items => .list (spelledItems items)
  | .table entries => .table (spelledEntries entries)
  | d => d

def spelledItems : List Document → List Document
  | [] => []
  | d :: rest => spelled d :: spelledItems rest

def spelledEntries : List (String × Document) → List (String × Document)
  | [] => []
  | (k, d) :: rest => (k, spelled d) :: spelledEntries rest
end

def get? (d : Document) (key : String) : Option Document :=
  match d with
  | .table entries => entries.lookup key
  | _ => none

end Document

end Montage
