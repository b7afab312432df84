import Montage.Number.Decimal

/-!
# Lines of a transcoder

What a line on the transcoder's error stream says. With progress switched on,
reports of progress are mixed with diagnostics: a report names a time or a speed,
or is a key with a value and has no space in it.
-/

namespace Montage.TranscoderLine

def after? (word cs : List Char) : Option (List Char) :=
  if word.isPrefixOf cs then some (cs.drop word.length) else none

/-- The first success at any position of a text, from the left. -/
def firstMatch? (f : List Char → Option α) : List Char → Option α
  | [] => f []
  | c :: rest =>
    match f (c :: rest) with
    | some a => some a
    | none => firstMatch? f rest

def timeKey : List Char := "out_time_ms=".toList

def speedKey : List Char := "speed=".toList

def timeDigits? (cs : List Char) : Option (List Char) := do
  let digits := (← after? timeKey cs).takeWhile Char.isDigit
  if digits.isEmpty then none else some digits

/-- Blanks as the transcoder writes them. -/
def isLineBlank (c : Char) : Bool :=
  c = ' ' || c = '\t' || c = '\n' || c = '\r' || c = '\x0b' || c = '\x0c'

/-- The number of a speed at the head of a text: digits, which a point and more digits may
follow, and then the letter x. -/
def speedDigits? (cs : List Char) : Option (List Char) := do
  let body := (← after? speedKey cs).dropWhile isLineBlank
  let whole := body.takeWhile Char.isDigit
  let rest := body.dropWhile Char.isDigit
  if whole.isEmpty then none
  else
    match rest with
    | 'x' :: _ => some whole
    | '.' :: more =>
      match more.dropWhile Char.isDigit with
      | 'x' :: _ => some (whole ++ '.' :: more.takeWhile Char.isDigit)
      | _ => none
    | _ => none

/-- Seconds of a time in millionths. -/
def seconds (digits : List Char) : Scalar :=
  .div .double (Decimal.toScalar .double false ⟨Decimal.digitsValue digits, 0⟩) 1000000

def time? (line : List Char) : Option Scalar := (firstMatch? timeDigits? line).map seconds

def speed? (line : List Char) : Option String :=
  (firstMatch? speedDigits? line).map fun digits => String.ofList (digits ++ ['x'])

def isProgress (line : List Char) : Bool :=
  (time? line).isSome || (speed? line).isSome || (line.contains '=' && !line.contains ' ')

end Montage.TranscoderLine
