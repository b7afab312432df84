import Montage.Document.Basic
import Montage.Number.Word

/-!
# Words of a settings file

Blanks, comments, line ends, keys, strings, numbers and dates. Every function
takes characters from the front and returns what is left.
-/

namespace Montage.Document.Toml

abbrev Chars := List Char

abbrev Scanner (α : Type) := Chars → Option (α × Chars)

def isGap (c : Char) : Bool := c = ' ' || c = '\t'

def skipGap (cs : Chars) : Chars := cs.dropWhile isGap

/-- Characters that may stand in comments and strings: no controls but the tab. -/
def isVisible (c : Char) : Bool := c = '\t' || (0x20 ≤ c.toNat && c.toNat ≠ 0x7f)

def newline? : Chars → Option Chars
  | '\n' :: rest => some rest
  | '\r' :: '\n' :: rest => some rest
  | _ => none

def skipComment : Chars → Option Chars
  | '#' :: rest =>
    let rest := rest.dropWhile isVisible
    if rest.isEmpty || (newline? rest).isSome then some rest else none
  | cs => some cs

/-- What may follow a statement on its line, with the line end. -/
def endLine (cs : Chars) : Option Chars := do
  let rest ← skipComment (skipGap cs)
  if rest.isEmpty then some [] else newline? rest

def skipLines : Nat → Chars → Option Chars
  | 0, cs => some cs
  | fuel + 1, cs => do
    let rest ← skipComment (skipGap cs)
    match newline? rest with
    | some more => skipLines fuel more
    | none => some rest

/-! ## Strings -/

def hexDigit? (c : Char) : Option Nat :=
  if c.isDigit then some (c.toNat - 48)
  else if 'a' ≤ c ∧ c ≤ 'f' then some (c.toNat - 87)
  else if 'A' ≤ c ∧ c ≤ 'F' then some (c.toNat - 55)
  else none

def codePoint (n : Nat) (cs : Chars) : Option (Char × Chars) := do
  let digits := cs.take n
  if digits.length < n then none
  let values ← digits.mapM hexDigit?
  let code := values.foldl (fun acc d => 16 * acc + d) 0
  if code < 0xd800 ∨ (0xdfff < code ∧ code < 0x110000) then
    some (Char.ofNat code, cs.drop n)
  else none

def escaped : Scanner Char
  | 'b' :: rest => some ('\x08', rest)
  | 't' :: rest => some ('\t', rest)
  | 'n' :: rest => some ('\n', rest)
  | 'f' :: rest => some ('\x0c', rest)
  | 'r' :: rest => some ('\r', rest)
  | '"' :: rest => some ('"', rest)
  | '\\' :: rest => some ('\\', rest)
  | 'u' :: rest => codePoint 4 rest
  | 'U' :: rest => codePoint 8 rest
  | _ => none

/-- A string with escapes after its opening quote, the characters so far in reverse. -/
def basicBody : Nat → Chars → Scanner String
  | 0, _, _ => none
  | fuel + 1, sofar, cs =>
    match cs with
    | '"' :: rest => some (String.ofList sofar.reverse, rest)
    | '\\' :: rest => do
      let (c, rest) ← escaped rest
      basicBody fuel (c :: sofar) rest
    | c :: rest => if isVisible c then basicBody fuel (c :: sofar) rest else none
    | [] => none

def literalBody (cs : Chars) : Option (String × Chars) :=
  let body := cs.takeWhile fun c => isVisible c && c ≠ '\''
  match cs.drop body.length with
  | '\'' :: rest => some (String.ofList body, rest)
  | _ => none

/-- A line end right after the opening quotes does not count. -/
def dropFirstNewline (cs : Chars) : Chars := (newline? cs).getD cs

/-- A backslash at the end of a line takes all white space up to the next character with it. -/
def continuation? (cs : Chars) : Option Chars := do
  let rest ← newline? (skipGap cs)
  some (rest.dropWhile fun c => isGap c || c = '\n' || c = '\r')

/-- A string over several lines after its opening quotes. Up to two of the closing quotes'
kind may stand together inside, and two more before the closing ones. -/
def longBody (mark : Char) (escapes : Bool) : Nat → Chars → Scanner String
  | 0, _, _ => none
  | fuel + 1, sofar, cs =>
    match cs with
    | [] => none
    | c :: rest =>
      if c = mark then
        let run := (cs.takeWhile (· = mark)).length
        if run < 3 then
          longBody mark escapes fuel (List.replicate run mark ++ sofar) (cs.drop run)
        else
          let inside := min (run - 3) 2
          some (String.ofList (List.replicate inside mark ++ sofar).reverse, cs.drop (inside + 3))
      else if c = '\\' && escapes then
        match continuation? rest with
        | some rest => longBody mark escapes fuel sofar rest
        | none => do
          let (e, rest) ← escaped rest
          longBody mark escapes fuel (e :: sofar) rest
      else
        match newline? cs with
        | some rest => longBody mark escapes fuel ('\n' :: sofar) rest
        | none => if isVisible c then longBody mark escapes fuel (c :: sofar) rest else none

def shortString : Scanner String
  | '"' :: rest => basicBody (rest.length + 1) [] rest
  | '\'' :: rest => literalBody rest
  | _ => none

def anyString : Scanner String
  | '"' :: '"' :: '"' :: rest =>
    longBody '"' true (rest.length + 1) [] (dropFirstNewline rest)
  | '\'' :: '\'' :: '\'' :: rest =>
    longBody '\'' false (rest.length + 1) [] (dropFirstNewline rest)
  | cs => shortString cs

/-! ## Keys -/

def isBare (c : Char) : Bool := c.isAlphanum || c = '_' || c = '-'

def simpleKey (cs : Chars) : Option (String × Chars) :=
  match cs with
  | '"' :: _ | '\'' :: _ => shortString cs
  | _ =>
    let name := cs.takeWhile isBare
    if name.isEmpty then none else some (String.ofList name, cs.drop name.length)

def keyPath : Nat → Scanner (List String)
  | 0, _ => none
  | fuel + 1, cs => do
    let (key, rest) ← simpleKey (skipGap cs)
    match skipGap rest with
    | '.' :: more =>
      let (keys, rest) ← keyPath fuel more
      pure (key :: keys, rest)
    | rest => pure ([key], rest)

/-! ## Numbers and dates -/

/-- Digits with single underscores between them, the underscores dropped. -/
def grouped (isDigit : Char → Bool) : Chars → Option Chars
  | [] => none
  | [c] => if isDigit c then some [c] else none
  | c :: '_' :: rest => if isDigit c then (grouped isDigit rest).map (c :: ·) else none
  | c :: rest => if isDigit c then (grouped isDigit rest).map (c :: ·) else none

def splitSign : Chars → Bool × Chars
  | '-' :: rest => (true, rest)
  | '+' :: rest => (false, rest)
  | cs => (false, cs)

def inRange (n : Int) : Option Document :=
  if Word.least 64 ≤ n ∧ n ≤ Word.greatest 64 then some (.int n) else none

def radix (base : Nat) (isDigit : Char → Bool) (cs : Chars) : Option Document := do
  let digits ← grouped isDigit cs
  let values ← digits.mapM hexDigit?
  inRange (values.foldl (fun acc d => base * acc + d) 0 : Nat)

/-- Decimal digits, where a zero stands first only alone. -/
def wholePart (cs : Chars) : Option Chars := do
  let digits ← grouped Char.isDigit cs
  if digits.length > 1 ∧ cs.head? = some '0' then none else some digits

def integer? : Chars → Option Document
  | '0' :: 'x' :: rest => radix 16 (fun c => (hexDigit? c).isSome) rest
  | '0' :: 'o' :: rest => radix 8 (fun c => '0' ≤ c && c ≤ '7') rest
  | '0' :: 'b' :: rest => radix 2 (fun c => c = '0' || c = '1') rest
  | cs => do
    let (negative, body) := splitSign cs
    let digits ← wholePart body
    let n : Int := Decimal.digitsValue digits
    inRange (if negative then -n else n)

def exponent? (cs : Chars) : Option Chars := do
  let (negative, body) := splitSign cs
  let digits ← grouped Char.isDigit body
  pure (if negative then '-' :: digits else digits)

/-- A decimal with a point or an exponent; one too large for an infinity of its sign is
refused when positive. -/
def decimal? (cs : Chars) : Option Document := do
  let (negative, body) := splitSign cs
  let whole := body.takeWhile fun c => c.isDigit || c = '_'
  let rest := body.drop whole.length
  let digits ← wholePart whole
  let (fraction, rest) ← match rest with
    | '.' :: more =>
      let part := more.takeWhile fun c => c.isDigit || c = '_'
      (grouped Char.isDigit part).map fun ds => ('.' :: ds, more.drop part.length)
    | other => some ([], other)
  let exponent ← match rest with
    | [] => some []
    | e :: more => if e = 'e' ∨ e = 'E' then (exponent? more).map ('e' :: ·) else none
  if fraction.isEmpty && exponent.isEmpty then none
  let d ← Decimal.ofChars? (digits ++ fraction ++ exponent)
  match d.toScalar .double negative with
  | .posInf => none
  | x => some (.float x)

def special? (cs : Chars) : Option Document :=
  let (negative, body) := splitSign cs
  if body = ['i', 'n', 'f'] then some (.float (if negative then .negInf else .posInf))
  else if body = ['n', 'a', 'n'] then some (.float .nan)
  else none

/-- A number of exactly `n` digits within bounds. -/
def digitsIn (n lo hi : Nat) (cs : Chars) : Option (Nat × Chars) :=
  let ds := cs.take n
  let v := Decimal.digitsValue ds
  if ds.length = n ∧ ds.all Char.isDigit ∧ lo ≤ v ∧ v ≤ hi then some (v, cs.drop n) else none

def mark (c : Char) : Chars → Option Chars
  | d :: rest => if c = d then some rest else none
  | [] => none

def isLeap (y : Nat) : Bool := y % 4 = 0 && (y % 100 ≠ 0 || y % 400 = 0)

def daysIn (y m : Nat) : Nat :=
  if m = 2 then if isLeap y then 29 else 28
  else if m = 4 ∨ m = 6 ∨ m = 9 ∨ m = 11 then 30
  else 31

def date (cs : Chars) : Option Chars := do
  let (y, rest) ← digitsIn 4 0 9999 cs
  let rest ← mark '-' rest
  let (m, rest) ← digitsIn 2 1 12 rest
  let rest ← mark '-' rest
  let (_, rest) ← digitsIn 2 1 (daysIn y m) rest
  pure rest

def time (cs : Chars) : Option Chars := do
  let (_, rest) ← digitsIn 2 0 23 cs
  let rest ← mark ':' rest
  let (_, rest) ← digitsIn 2 0 59 rest
  let rest ← mark ':' rest
  let (_, rest) ← digitsIn 2 0 60 rest
  match rest with
  | '.' :: more =>
    let digits := more.takeWhile Char.isDigit
    if digits.isEmpty then none else some (more.drop digits.length)
  | rest => some rest

def offset (cs : Chars) : Option Chars :=
  match cs with
  | [] => some []
  | c :: rest =>
    if c = 'Z' ∨ c = 'z' then some rest
    else if c = '+' ∨ c = '-' then do
      let (_, rest) ← digitsIn 2 0 23 rest
      let rest ← mark ':' rest
      let (_, rest) ← digitsIn 2 0 59 rest
      pure rest
    else none

def isMoment (cs : Chars) : Bool :=
  match date cs with
  | some [] => true
  | some (c :: rest) =>
    (c = 'T' || c = 't' || c = ' ') && (time rest >>= offset) = some []
  | none => time cs = some []

/-- A date or a time, kept as a table with one entry. -/
def moment? (cs : Chars) : Option Document :=
  if isMoment cs then some (.table [("$moment", .text (String.ofList cs))]) else none

def isWordChar (c : Char) : Bool :=
  c.isAlphanum || c = '+' || c = '-' || c = '_' || c = '.' || c = ':'

/-- The word at the front; a date takes a time after one blank with it. -/
def takeWord (cs : Chars) : Chars × Chars :=
  let w := cs.takeWhile isWordChar
  let rest := cs.drop w.length
  match rest with
  | ' ' :: c :: more =>
    if date w = some [] ∧ c.isDigit then
      let t := (c :: more).takeWhile isWordChar
      (w ++ ' ' :: t, (c :: more).drop t.length)
    else (w, rest)
  | _ => (w, rest)

def plainValue (cs : Chars) : Option (Document × Chars) := do
  let (w, rest) := takeWord cs
  let d ←
    if w = ['t', 'r', 'u', 'e'] then some (.bool true)
    else if w = ['f', 'a', 'l', 's', 'e'] then some (.bool false)
    else special? w <|> moment? w <|> integer? w <|> decimal? w
  pure (d, rest)

end Montage.Document.Toml
