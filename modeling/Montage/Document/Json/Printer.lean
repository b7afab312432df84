import Montage.Document.Basic

/-!
# Writing JSON

Documents as text, on one line or indented by two blanks. Control characters
are escaped, all other characters stand for themselves.
-/

namespace Montage.Document.Json

def escape (c : Char) : List Char :=
  if c = '"' then ['\\', '"']
  else if c = '\\' then ['\\', '\\']
  else if c = '\x08' then ['\\', 'b']
  else if c = '\x0c' then ['\\', 'f']
  else if c = '\n' then ['\\', 'n']
  else if c = '\r' then ['\\', 'r']
  else if c = '\t' then ['\\', 't']
  else if c.toNat < 0x20 then
    ['\\', 'u', '0', '0', Nat.digitChar (c.toNat / 16), Nat.digitChar (c.toNat % 16)]
  else [c]

def quote (s : String) : String := String.ofList ('"' :: s.toList.flatMap escape ++ ['"'])

def atom : Document → String
  | .bool b => if b then "true" else "false"
  | .int n => toString n
  | .float x => if x.isFinite then NumberForm.document.write x else "null"
  | .single x => if x.isFinite then NumberForm.documentSingle.write x else "null"
  | .text s => quote s
  | .null | .garbled | .list _ | .table _ => "null"

mutual
/-- A document on one line. -/
def compact : Document → String
  | .list items => "[" ++ ",".intercalate (compactItems items) ++ "]"
  | .table entries => "\x7b" ++ ",".intercalate (compactEntries entries) ++ "\x7d"
  | d => atom d

def compactItems : List Document → List String
  | [] => []
  | d :: rest => compact d :: compactItems rest

def compactEntries : List (String × Document) → List String
  | [] => []
  | (k, d) :: rest => (quote k ++ ":" ++ compact d) :: compactEntries rest
end

def indent (depth : Nat) : String := String.ofList (List.replicate (2 * depth) ' ')

/-- Parts between brackets, each on a line of its own. -/
def block (depth : Nat) (opening closing : String) (parts : List String) : String :=
  if parts.isEmpty then opening ++ closing
  else
    let lines := parts.map (indent (depth + 1) ++ ·)
    opening ++ "\n" ++ ",\n".intercalate lines ++ "\n" ++ indent depth ++ closing

mutual
def prettyAt (depth : Nat) : Document → String
  | .list items => block depth "[" "]" (prettyItems (depth + 1) items)
  | .table entries => block depth "\x7b" "\x7d" (prettyEntries (depth + 1) entries)
  | d => atom d

def prettyItems (depth : Nat) : List Document → List String
  | [] => []
  | d :: rest => prettyAt depth d :: prettyItems depth rest

def prettyEntries (depth : Nat) : List (String × Document) → List String
  | [] => []
  | (k, d) :: rest => (quote k ++ ": " ++ prettyAt depth d) :: prettyEntries depth rest
end

/-- A document on lines of its own. -/
def pretty (d : Document) : String := prettyAt 0 d

end Montage.Document.Json
