import Montage.Disk.Basic
import Montage.Document.Toml.Reader
import Montage.Number.Word
import Montage.Settings.Basic

/-!
# Settings from files and the environment

Settings come from a file, with variables of the environment laid over it. A
variable names its place by the parts between double underscores after the common
start of all names; its text is read as a value where it spells one.
-/

namespace Montage.Settings

def ofToml (s : String) : Except SettingsError Settings :=
  match Document.Toml.read s >>= Settings.read .ignored with
  | some settings => .ok settings
  | none => .error .unreadable

/-! ## Values of variables -/

abbrev ValueParser (α : Type) := List Char → Option (α × List Char)

def isSeparator (c : Char) : Bool :=
  c = ',' || c = '\x7b' || c = '\x7d' || c = '[' || c = ']'

/-- A word that is not quoted: a number, or text. -/
def plainWord (word : String) : Document :=
  let float := if word.toList.contains '.' then Scalar.ofText? .double word else none
  match float with
  | some x => .float x
  | none =>
    match natOfText? (Word.count 64) word with
    | some n => .nat n
    | none =>
      match word.toList with
      | '-' :: digits =>
        match natOfText? (Word.count 63 + 1) (String.ofList digits) with
        | some n => if digits.head? = some '+' then .text word else .int (-n)
        | none => .text word
      | _ => .text word

def isAsciiBlank (c : Char) : Bool :=
  c = ' ' || c = '\t' || c = '\n' || c = '\r' || c = '\x0c'

def skipBlank (cs : List Char) : List Char := cs.dropWhile isAsciiBlank

/-- The character that a backslash and `c` stand for. -/
def unescape (c : Char) : List Char :=
  if c = 'n' then ['\n']
  else if c = 't' then ['\t']
  else if c = 'r' then ['\r']
  else if c = '"' ∨ c = '\\' then [c]
  else ['\\', c]

/-- Text up to a quote mark, the characters so far in reverse. -/
def quotedText : List Char → List Char → Option (String × List Char)
  | _, [] => none
  | sofar, '"' :: rest => some (String.ofList sofar.reverse, rest)
  | sofar, '\\' :: c :: rest => quotedText ((unescape c).reverse ++ sofar) rest
  | sofar, c :: rest => quotedText (c :: sofar) rest

def isKeyChar (c : Char) : Bool := c.isAlphanum || c = '_' || c = '-'

def keyWord (cs : List Char) : Option (String × List Char) :=
  match cs with
  | '"' :: rest => quotedText [] rest
  | _ =>
    let word := cs.takeWhile isKeyChar
    if word.isEmpty then none else some (String.ofList word, cs.drop word.length)

def word? (w : List Char) (cs : List Char) : Option (List Char) :=
  if w.isPrefixOf cs then some (cs.drop w.length) else none

mutual
def value : Nat → ValueParser Document
  | 0, _ => none
  | fuel + 1, cs => do
    let cs := skipBlank cs
    let (d, rest) ←
      match word? ['t', 'r', 'u', 'e'] cs, word? ['f', 'a', 'l', 's', 'e'] cs, cs with
      | some rest, _, _ => some (Document.bool true, rest)
      | _, some rest, _ => some (Document.bool false, rest)
      | _, _, '\x7b' :: rest => (entries fuel rest).map fun (es, rest) => (.table es, rest)
      | _, _, '[' :: rest => (items fuel rest).map fun (ds, rest) => (.list ds, rest)
      | _, _, '"' :: rest => (quotedText [] rest).map fun (s, rest) => (.text s, rest)
      | _, _, '\'' :: c :: '\'' :: rest => some (.text c.toString, rest)
      | _, _, '\'' :: _ => none
      | _, _, cs =>
        let word := cs.takeWhile fun c => !isSeparator c
        some (plainWord (Text.trim (String.ofList word)), cs.drop word.length)
    pure (d, skipBlank rest)

/-- Items up to and with the closing bracket, which may follow a comma. -/
def items : Nat → ValueParser (List Document)
  | 0, _ => none
  | fuel + 1, cs =>
    match cs with
    | ']' :: rest => some ([], rest)
    | cs => do
      let (d, rest) ← value fuel cs
      match rest with
      | ']' :: rest => pure ([d], rest)
      | ',' :: rest =>
        let (ds, rest) ← items fuel rest
        pure (d :: ds, rest)
      | _ => none

/-- Keys with values up to and with the closing brace, which may follow a comma. -/
def entries : Nat → ValueParser (List (String × Document))
  | 0, _ => none
  | fuel + 1, cs =>
    match cs with
    | '\x7d' :: rest => some ([], rest)
    | cs => do
      let (key, rest) ← keyWord (skipBlank cs)
      match skipBlank rest with
      | '=' :: rest =>
        let (d, rest) ← value fuel rest
        match rest with
        | '\x7d' :: rest => pure ([(key, d)], rest)
        | ',' :: rest =>
          let (es, rest) ← entries fuel rest
          pure ((key, d) :: es, rest)
        | _ => none
      | _ => none
end

/-- The value that the text of a variable spells, the text itself when it spells none. -/
def ofVariable (s : String) : Document :=
  match value (2 * s.length + 2) s.toList with
  | some (d, []) => d
  | _ => .text s

/-! ## Names of variables -/

/-- The common start of the names of all variables, in any case. -/
def variableStart : List Char := "reelsmith_".toList

/-- Splits at double underscores and at points, the characters so far in reverse. -/
def splitName : List Char → List Char → List String
  | sofar, [] => [String.ofList sofar.reverse]
  | sofar, '.' :: rest => String.ofList sofar.reverse :: splitName [] rest
  | sofar, '_' :: '_' :: rest => String.ofList sofar.reverse :: splitName [] rest
  | sofar, c :: rest => splitName (c :: sofar) rest

/-- The place that a variable sets. Variables of others have none, and neither have names
with an empty part. -/
def variablePath? (name : String) : Option (List String) :=
  let cs := (Text.trimChars name.toList).map Char.toLower
  if variableStart.isPrefixOf cs then
    let path := splitName [] (cs.drop variableStart.length)
    if path.contains "" then none else some path
  else none

def nested : List String → Document → Document
  | [], d => d
  | k :: path, d => .table [(k, nested path d)]

def overlayEnvironment (d : Document) (env : List (String × String)) : Document :=
  env.foldl (fun d (name, text) =>
    match variablePath? name with
    | some path => d.overlay (nested path (ofVariable text))
    | none => d) d

/-- Settings from a file and the environment. A path that leads to no file but to something
else counts as an empty file. -/
def load (disk : Disk) (path : String) (env : List (String × String)) :
    Except SettingsError Settings := do
  if !disk.has path then throw (.fileNotFound path)
  let base ← match disk.read path with
    | .error _ => pure (Document.table [])
    | .ok bytes =>
      match Text.decode bytes with
      | .error _ => throw .unreadable
      | .ok s =>
        match Document.Toml.read s with
        | some d => pure d
        | none => throw .unreadable
  match Settings.read .ignored (overlayEnvironment base env) with
  | some settings => pure settings
  | none => throw .unreadable

end Montage.Settings
