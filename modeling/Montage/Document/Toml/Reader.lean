import Montage.Document.Toml.Node
import Montage.Document.Toml.Scan

/-!
# Reading TOML

A file is a sequence of lines, each a header or a key with a value. Values
nest in brackets and braces up to a fixed depth.
-/

namespace Montage.Document.Toml

/-- Brackets and braces may stand one inside the other below this depth. -/
def maxDepth : Nat := 80

mutual
/-- A value with `depth` brackets and braces open around it. -/
def value (depth : Nat) : Nat → Scanner Document
  | 0, _ => none
  | fuel + 1, cs =>
    match cs with
    | '"' :: _ | '\'' :: _ => (anyString cs).map fun (s, rest) => (.text s, rest)
    | '[' :: rest =>
      if maxDepth ≤ depth + 1 then none
      else do
        let (ds, rest) ← items (depth + 1) fuel rest
        pure (.list ds, rest)
    | '\x7b' :: rest =>
      if maxDepth ≤ depth + 1 then none
      else
        match skipGap rest with
        | '\x7d' :: rest => some (.table [], rest)
        | rest => do
          let (entries, rest) ← pairs (depth + 1) fuel [] rest
          pure (.table (entriesToDocument entries), rest)
    | _ => plainValue cs

/-- Items up to and with the closing bracket. -/
def items (depth : Nat) : Nat → Scanner (List Document)
  | 0, _ => none
  | fuel + 1, cs => do
    match ← skipLines cs.length cs with
    | ']' :: rest => pure ([], rest)
    | cs =>
      let (d, rest) ← value depth fuel cs
      match ← skipLines rest.length rest with
      | ']' :: rest => pure ([d], rest)
      | ',' :: rest =>
        let (ds, rest) ← items depth fuel rest
        pure (d :: ds, rest)
      | _ => none

/-- Keys with values up to and with the closing brace. -/
def pairs (depth : Nat) : Nat → Entries → Scanner Entries
  | 0, _, _ => none
  | fuel + 1, sofar, cs => do
    let (keys, rest) ← keyPath (cs.length + 1) cs
    match rest with
    | '=' :: rest =>
      let (d, rest) ← value depth fuel (skipGap rest)
      let sofar ← put keys.dropLast (keys.getLast?.getD "") d sofar
      match skipGap rest with
      | '\x7d' :: rest => pure (sofar, rest)
      | ',' :: rest => pairs depth fuel sofar rest
      | _ => none
    | _ => none
end

/-- Reads the lines of a file; `header` is the path of the table that keys go into. -/
def lines : Nat → List String → Entries → Chars → Option Entries
  | 0, _, sofar, _ => some sofar
  | fuel + 1, header, sofar, cs =>
    match skipGap cs with
    | [] => some sofar
    | '[' :: '[' :: rest => do
      let (keys, rest) ← keyPath (rest.length + 1) rest
      match rest with
      | ']' :: ']' :: rest =>
        let rest ← endLine rest
        let sofar ← openRow keys.dropLast (keys.getLast?.getD "") sofar
        lines fuel keys sofar rest
      | _ => none
    | '[' :: rest => do
      let (keys, rest) ← keyPath (rest.length + 1) rest
      match rest with
      | ']' :: rest =>
        let rest ← endLine rest
        let sofar ← openTable keys.dropLast (keys.getLast?.getD "") sofar
        lines fuel keys sofar rest
      | _ => none
    | c :: rest =>
      if c = '#' ∨ (newline? (c :: rest)).isSome then do
        let rest ← endLine (c :: rest)
        lines fuel header sofar rest
      else do
        let (keys, rest) ← keyPath (rest.length + 2) (c :: rest)
        match rest with
        | '=' :: rest =>
          let (d, rest) ← value 0 (rest.length + 1) (skipGap rest)
          let rest ← endLine rest
          let sofar ← descend header (put keys.dropLast (keys.getLast?.getD "") d) sofar
          lines fuel header sofar rest
        | _ => none

/-- The table that a file spells; a byte order mark at the start does not count. -/
def read (s : String) : Option Document :=
  let cs := match s.toList with
    | '\ufeff' :: rest => rest
    | cs => cs
  (lines (cs.length + 1) [] [] cs).map fun entries => .table (entriesToDocument entries)

end Montage.Document.Toml
