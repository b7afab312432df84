import Montage.Document.Basic

/-!
# Tables under construction

While a file is read its tables are open in different ways: a table named by a
header is closed against a second header, one that only lies on the way to
another may still get its own, and one made by dotted keys grows by dotted keys
only. A header between double brackets adds a row, and all paths go on in the
last row.
-/

namespace Montage.Document.Toml

inductive Node
  | value (d : Document)
  /-- `implicit` while no header or braces have named the table, `dotted` when dotted keys made
  it. -/
  | table (implicit dotted : Bool) (entries : List (String × Node))
  | rows (rows : List (List (String × Node)))

abbrev Entries := List (String × Node)

/-- Replaces or adds the node of a key, unless `change` refuses. -/
def changeAt (key : String) (change : Option Node → Option Node) : Entries → Option Entries
  | [] => (change none).map fun n => [(key, n)]
  | e :: rest =>
    if e.1 = key then (change (some e.2)).map fun n => (key, n) :: rest
    else (changeAt key change rest).map (e :: ·)

def inLastRow (change : Entries → Option Entries) : List Entries → Option (List Entries)
  | [] => none
  | [row] => (change row).map ([·])
  | row :: rest => (inLastRow change rest).map (row :: ·)

/-- Follows a header's path, making the tables on the way. -/
def descend : List String → (Entries → Option Entries) → Entries → Option Entries
  | [], change, entries => change entries
  | key :: path, change, entries =>
    changeAt key (fun node =>
      match node with
      | none => (descend path change []).map (.table true false)
      | some (.value _) => none
      | some (.table implicit dotted inner) =>
        (descend path change inner).map (.table implicit dotted)
      | some (.rows rows) => (inLastRow (descend path change) rows).map .rows) entries

/-- A header: names the table at the end of the path. -/
def openTable (path : List String) (key : String) : Entries → Option Entries :=
  descend path <| changeAt key fun node =>
    match node with
    | none => some (.table false false [])
    | some (.table true false inner) => some (.table false false inner)
    | _ => none

/-- A header between double brackets: adds a row. -/
def openRow (path : List String) (key : String) : Entries → Option Entries :=
  descend path <| changeAt key fun node =>
    match node with
    | none => some (.rows [[]])
    | some (.rows rows) => some (.rows (rows ++ [[]]))
    | _ => none

/-- Sets a key below dotted keys, which may not go into tables that were named. -/
def put : List String → String → Document → Entries → Option Entries
  | [], key, d, entries =>
    changeAt key (fun node => if node.isSome then none else some (.value d)) entries
  | k :: path, key, d, entries =>
    changeAt k (fun node =>
      match node with
      | none => (put path key d []).map (.table true true)
      | some (.table true dotted inner) =>
        if path.isEmpty && !dotted then none else (put path key d inner).map (.table true dotted)
      | some (.rows rows) =>
        if path.isEmpty then none else (inLastRow (put path key d) rows).map .rows
      | _ => none) entries

mutual
def Node.toDocument : Node → Document
  | .value d => d
  | .table _ _ entries => .table (entriesToDocument entries)
  | .rows rows => .list (rowsToDocument rows)

def entriesToDocument : Entries → List (String × Document)
  | [] => []
  | (k, n) :: rest => (k, n.toDocument) :: entriesToDocument rest

def rowsToDocument : List Entries → List Document
  | [] => []
  | row :: rest => .table (entriesToDocument row) :: rowsToDocument rest
end

end Montage.Document.Toml
