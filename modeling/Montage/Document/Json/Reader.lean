import Montage.Document.Basic
import Montage.Number.Word
import Montage.Text.Utf8

/-!
# Reading JSON

The grammar of RFC 8259 over octets. Whole numbers without point and exponent
are integers as far as 64 bits hold them, all others are floating. A string
that is no text does not stop the reader unless it names an entry.
-/

namespace Montage.Document.Json

open Montage.Text

abbrev Parser (α : Type) := Bytes → Option (α × Bytes)

def isSpace (b : UInt8) : Bool := b = 0x20 || b = 0x0a || b = 0x0d || b = 0x09

def skipSpace (bs : Bytes) : Bytes := bs.dropWhile isSpace

def word (w : Bytes) (bs : Bytes) : Option Bytes :=
  if w.isPrefixOf bs then some (bs.drop w.length) else none

/-! ## Strings -/

def hexDigit? (b : UInt8) : Option Nat :=
  let n := b.toNat
  if 48 ≤ n ∧ n ≤ 57 then some (n - 48)
  else if 97 ≤ n ∧ n ≤ 102 then some (n - 87)
  else if 65 ≤ n ∧ n ≤ 70 then some (n - 55)
  else none

def hex4 : Parser Nat
  | a :: b :: c :: d :: rest => do
    let a ← hexDigit? a
    let b ← hexDigit? b
    let c ← hexDigit? c
    let d ← hexDigit? d
    pure (((a * 16 + b) * 16 + c) * 16 + d, rest)
  | _ => none

def isHigh (n : Nat) : Bool := 0xd800 ≤ n && n < 0xdc00

def isLow (n : Nat) : Bool := 0xdc00 ≤ n && n < 0xe000

/-- The octets of a code unit after a backslash and `u`, with the second half of a pair where
there is one; none in the first place for half a pair. -/
def unicodeEscape (bs : Bytes) : Option (Option Bytes × Bytes) := do
  let (n, rest) ← hex4 bs
  if isHigh n then
    match rest with
    | 0x5c :: 0x75 :: more =>
      let (m, after) ← hex4 more
      if isLow m then
        let c := Char.ofNat (0x10000 + (n - 0xd800) * 0x400 + (m - 0xdc00))
        pure (some (encode c.toString), after)
      else pure (none, rest)
    | _ => pure (none, rest)
  else if isLow n then pure (none, rest)
  else pure (some (encode (Char.ofNat n).toString), rest)

def simpleEscape? (b : UInt8) : Option UInt8 :=
  if b = 0x22 ∨ b = 0x5c ∨ b = 0x2f then some b
  else if b = 0x62 then some 0x08
  else if b = 0x66 then some 0x0c
  else if b = 0x6e then some 0x0a
  else if b = 0x72 then some 0x0d
  else if b = 0x74 then some 0x09
  else none

/-- The rest of a string after its first quote: the octets it spells, in reverse, or none for
those when it contains half a surrogate pair. -/
def stringBody : Nat → Option Bytes → Parser (Option Bytes)
  | 0, _, _ => none
  | fuel + 1, sofar, bs =>
    match bs with
    | [] => none
    | 0x22 :: rest => some (sofar, rest)
    | 0x5c :: 0x75 :: rest => do
      let (piece, rest) ← unicodeEscape rest
      let sofar := do
        let done ← sofar
        let piece ← piece
        pure (piece.reverse ++ done)
      stringBody fuel sofar rest
    | 0x5c :: b :: rest => do
      let c ← simpleEscape? b
      stringBody fuel (sofar.map (c :: ·)) rest
    | b :: rest => if b < 0x20 then none else stringBody fuel (sofar.map (b :: ·)) rest

/-- A string after its first quote, none for its text when it spells none. -/
def string (bs : Bytes) : Option (Option String × Bytes) := do
  let (octets, rest) ← stringBody (bs.length + 1) (some []) bs
  let text := do
    let octets ← octets
    (decode octets.reverse).toOption
  pure (text, rest)

/-! ## Numbers -/

def isDigit (b : UInt8) : Bool := 0x30 ≤ b && b ≤ 0x39

def chars (bs : Bytes) : List Char := bs.map fun b => Char.ofNat b.toNat

def exponentPart (bs : Bytes) : Option (Bytes × Bytes) :=
  match bs with
  | e :: rest =>
    if e = 0x65 ∨ e = 0x45 then
      let (sign, rest) : Bytes × Bytes := match rest with
        | 0x2b :: more => ([0x2b], more)
        | 0x2d :: more => ([0x2d], more)
        | more => ([], more)
      let digits := rest.takeWhile isDigit
      if digits.isEmpty then none else some (e :: sign ++ digits, rest.dropWhile isDigit)
    else some ([], bs)
  | [] => some ([], [])

/-- A number without its sign. -/
def numberBody (negative : Bool) (bs : Bytes) : Option (Document × Bytes) := do
  let whole := bs.takeWhile isDigit
  let rest := bs.dropWhile isDigit
  if whole.isEmpty ∨ (whole.length > 1 ∧ whole.head? = some 0x30) then none
  let (fraction, rest) ← match rest with
    | 0x2e :: more =>
      let digits := more.takeWhile isDigit
      if digits.isEmpty then none else some (0x2e :: digits, more.dropWhile isDigit)
    | other => some ([], other)
  let (exponent, rest) ← exponentPart rest
  let n := Decimal.digitsValue (chars whole)
  let float := do
    let d ← Decimal.ofChars? (chars (whole ++ fraction ++ exponent))
    pure (Document.float (d.toScalar .double negative), rest)
  if fraction.isEmpty && exponent.isEmpty then
    if negative then
      if 0 < n ∧ n ≤ Word.count 63 then pure (.int (-n), rest) else float
    else if n < Word.count 64 then pure (.int n, rest) else float
  else float

/-! ## Values -/

mutual
def value : Nat → Parser Document
  | 0, _ => none
  | fuel + 1, bs =>
    match bs with
    | [] => none
    | 0x22 :: rest => do
      let (content, rest) ← string rest
      pure (content.elim .garbled .text, rest)
    | 0x5b :: rest =>
      match skipSpace rest with
      | 0x5d :: rest => some (.list [], rest)
      | rest => do
        let (ds, rest) ← items fuel rest
        pure (.list ds, rest)
    | 0x7b :: rest =>
      match skipSpace rest with
      | 0x7d :: rest => some (.table [], rest)
      | rest => do
        let (es, rest) ← entries fuel rest
        pure (.table es, rest)
    | 0x2d :: rest => numberBody true rest
    | 0x6e :: rest => (word [0x75, 0x6c, 0x6c] rest).map (.null, ·)
    | 0x74 :: rest => (word [0x72, 0x75, 0x65] rest).map (.bool true, ·)
    | 0x66 :: rest => (word [0x61, 0x6c, 0x73, 0x65] rest).map (.bool false, ·)
    | bs => numberBody false bs

/-- The items of a list up to and with its closing bracket. -/
def items : Nat → Parser (List Document)
  | 0, _ => none
  | fuel + 1, bs => do
    let (d, rest) ← value fuel bs
    match skipSpace rest with
    | 0x5d :: rest => pure ([d], rest)
    | 0x2c :: rest =>
      let (ds, rest) ← items fuel (skipSpace rest)
      pure (d :: ds, rest)
    | _ => none

/-- The entries of a table up to and with its closing brace. -/
def entries : Nat → Parser (List (String × Document))
  | 0, _ => none
  | fuel + 1, bs =>
    match bs with
    | 0x22 :: rest => do
      let (key, rest) ← string rest
      let key ← key
      match skipSpace rest with
      | 0x3a :: rest =>
        let (d, rest) ← value fuel (skipSpace rest)
        match skipSpace rest with
        | 0x7d :: rest => pure ([(key, d)], rest)
        | 0x2c :: rest =>
          let (es, rest) ← entries fuel (skipSpace rest)
          pure ((key, d) :: es, rest)
        | _ => none
      | _ => none
    | _ => none
end

def read (bs : Bytes) : Option Document := do
  let (d, rest) ← value (bs.length + 1) (skipSpace bs)
  if (skipSpace rest).isEmpty then some d else none

end Montage.Document.Json
