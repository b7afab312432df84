import Montage.Number.Decimal
import Montage.Text.Blank

/-!
# Points in time

A point in time by its date and its time of day in universal time, down to
nanoseconds. Second 60 is a leap second. The order is that of the parts, and the
text of a point between the years 0 and 9999 has a fixed width, so that the order of
the texts is the same.
-/

namespace Montage

structure Timestamp where
  year : Int
  month : Nat
  day : Nat
  hour : Nat
  minute : Nat
  second : Nat
  nanos : Nat
  deriving DecidableEq, Repr

namespace Timestamp

/-! ## The calendar -/

def isLeapYear (y : Int) : Bool := y % 4 = 0 && (y % 100 ≠ 0 || y % 400 = 0)

def daysInMonth (y : Int) (m : Nat) : Nat :=
  if m = 2 then (if isLeapYear y then 29 else 28)
  else if m = 4 ∨ m = 6 ∨ m = 9 ∨ m = 11 then 30
  else 31

def firstYear : Int := -262143

def lastYear : Int := 262142

def valid (t : Timestamp) : Bool :=
  firstYear ≤ t.year && t.year ≤ lastYear && 1 ≤ t.month && t.month ≤ 12 &&
    1 ≤ t.day && t.day ≤ daysInMonth t.year t.month && t.hour ≤ 23 && t.minute ≤ 59 &&
    t.second ≤ 60 && t.nanos < 1000000000

def nextDay (t : Timestamp) : Timestamp :=
  if t.day < daysInMonth t.year t.month then { t with day := t.day + 1 }
  else if t.month < 12 then { t with month := t.month + 1, day := 1 }
  else { t with year := t.year + 1, month := 1, day := 1 }

def previousDay (t : Timestamp) : Timestamp :=
  if 1 < t.day then { t with day := t.day - 1 }
  else if 1 < t.month then
    { t with month := t.month - 1, day := daysInMonth t.year (t.month - 1) }
  else { t with year := t.year - 1, month := 12, day := 31 }

/-- The point in universal time of a local time that is `offset` minutes ahead, less than a
day. -/
def universal (t : Timestamp) (offset : Int) : Timestamp :=
  let minutes : Int := (t.hour * 60 + t.minute : Nat) - offset
  let moved := if minutes < 0 then t.previousDay else if 1440 ≤ minutes then t.nextDay else t
  let minuteOfDay := (minutes % 1440).toNat
  { moved with hour := minuteOfDay / 60, minute := minuteOfDay % 60 }

/-- The point without what is below a microsecond. -/
def toMicros (t : Timestamp) : Timestamp := { t with nanos := t.nanos / 1000 * 1000 }

/-! ## Order -/

def parts (t : Timestamp) : List Int :=
  [t.year, t.month, t.day, t.hour, t.minute, t.second, t.nanos]

def before (s t : Timestamp) : Bool := decide (s.parts < t.parts)

/-! ## As text -/

def padded (width n : Nat) : List Char :=
  let ds := digitChars n
  List.replicate (width - ds.length) '0' ++ ds

/-- A year; one that does not have four digits is written with its sign. -/
def yearText (y : Int) : List Char :=
  if 0 ≤ y ∧ y ≤ 9999 then padded 4 y.toNat
  else (if y < 0 then '-' else '+') :: padded 4 y.natAbs

def wholeText (t : Timestamp) : List Char :=
  yearText t.year ++ '-' :: padded 2 t.month ++ '-' :: padded 2 t.day ++
    'T' :: padded 2 t.hour ++ ':' :: padded 2 t.minute ++ ':' :: padded 2 t.second

/-- The fraction of a second in as few groups of three digits as it needs. -/
def fractionText (nanos : Nat) : List Char :=
  if nanos = 0 then []
  else if nanos % 1000000 = 0 then '.' :: padded 3 (nanos / 1000000)
  else if nanos % 1000 = 0 then '.' :: padded 6 (nanos / 1000)
  else '.' :: padded 9 nanos

/-- The text with the fraction it needs. -/
def text (t : Timestamp) : String :=
  String.ofList (t.wholeText ++ fractionText t.nanos ++ ['Z'])

/-- The text with six digits after the point, what is below a microsecond being cut off. -/
def microText (t : Timestamp) : String :=
  String.ofList (t.wholeText ++ '.' :: padded 6 (t.nanos / 1000) ++ ['Z'])

/-! ## From text -/

abbrev Take (α : Type) := List Char → Option (α × List Char)

def takeNumber (most : Nat) : Take Nat := fun cs =>
  let digits := (cs.take most).takeWhile Char.isDigit
  if digits.isEmpty then none else some (Decimal.digitsValue digits, cs.drop digits.length)

def takeExactly (width : Nat) : Take Nat := fun cs =>
  let digits := (cs.take width).takeWhile Char.isDigit
  if digits.length = width then some (Decimal.digitsValue digits, cs.drop width) else none

def takeMark (mark : Char) : Take Unit
  | c :: rest => if c = mark then some ((), rest) else none
  | [] => none

def takeDivider : Take Unit
  | 'T' :: rest | 't' :: rest | ' ' :: rest => some ((), rest)
  | _ => none

/-- A fraction of a second in nanoseconds, none written counting as zero. Digits after the ninth
one are dropped. -/
def takeFraction : Take Nat
  | '.' :: cs => do
    let digits := (cs.take 9).takeWhile Char.isDigit
    if digits.isEmpty then none
    else
      let rest := (cs.drop digits.length)
      let rest := if digits.length = 9 then rest.dropWhile Char.isDigit else rest
      some (Decimal.digitsValue digits * Nat.pow 10 (9 - digits.length), rest)
  | cs => some (0, cs)

def skipBlanks (cs : List Char) : List Char := cs.dropWhile Text.isBlank

/-- A year, with a sign and then any number of digits, or without and of at most four. -/
def takeYear : Take Int := fun cs =>
  match skipBlanks cs with
  | '-' :: rest => (takeNumber rest.length rest).map fun (n, rest) => (-(n : Int), rest)
  | '+' :: rest => (takeNumber rest.length rest).map fun (n, rest) => ((n : Int), rest)
  | rest => (takeNumber 4 rest).map fun (n, rest) => ((n : Int), rest)

/-- A number of one or two digits, blanks before it being skipped. -/
def takePart : Take Nat := fun cs => takeNumber 2 (skipBlanks cs)

/-- A mark, blanks before it being skipped. -/
def takeMarkAfterBlanks (mark : Char) : Take Unit := fun cs => takeMark mark (skipBlanks cs)

/-- Hours and minutes of an offset, which colons and blanks may separate. -/
def takeOffsetDigits : Take Nat := fun cs => do
  let (hours, rest) ← takeExactly 2 cs
  let (minutes, rest) ← takeExactly 2 (rest.dropWhile fun c => c = ':' || Text.isBlank c)
  if 59 < minutes then none
  else if 1440 ≤ 60 * hours + minutes then none
  else some (60 * hours + minutes, rest)

/-- Minutes that local time is ahead of universal time. -/
def takeOffset : Take Int := fun cs =>
  match skipBlanks cs with
  | 'Z' :: rest | 'z' :: rest => some (0, rest)
  | '+' :: rest => (takeOffsetDigits rest).map fun (n, rest) => ((n : Int), rest)
  | '-' :: rest | '−' :: rest => (takeOffsetDigits rest).map fun (n, rest) => (-(n : Int), rest)
  | a :: b :: c :: rest =>
    if a.toUpper = 'U' ∧ b.toUpper = 'T' ∧ c.toUpper = 'C' then some (0, rest) else none
  | _ => none

def checked (t : Timestamp) : Option Timestamp := if t.valid then some t else none

/-- Reads a date and a time of day with an offset, forgiving blanks and missing zeros. -/
def ofText? (s : String) : Option Timestamp := do
  let (year, cs) ← takeYear s.toList
  let (_, cs) ← takeMarkAfterBlanks '-' cs
  let (month, cs) ← takePart cs
  let (_, cs) ← takeMarkAfterBlanks '-' cs
  let (day, cs) ← takePart cs
  let (_, cs) ← takeDivider cs
  let (hour, cs) ← takePart cs
  let (_, cs) ← takeMarkAfterBlanks ':' cs
  let (minute, cs) ← takePart cs
  let (_, cs) ← takeMarkAfterBlanks ':' cs
  let (second, cs) ← takePart cs
  let (nanos, cs) ← takeFraction cs
  let (offset, cs) ← takeOffset cs
  if !(skipBlanks cs).isEmpty then none
  else
    let t ← checked { year, month, day, hour, minute, second, nanos }
    checked (t.universal offset)

/-- Reads the form with six digits after the point and a year of four digits. -/
def ofMicroText? (s : String) : Option Timestamp := do
  let (year, cs) ← takeExactly 4 s.toList
  let (_, cs) ← takeMark '-' cs
  let (month, cs) ← takeExactly 2 cs
  let (_, cs) ← takeMark '-' cs
  let (day, cs) ← takeExactly 2 cs
  let (_, cs) ← takeMark 'T' cs
  let (hour, cs) ← takeExactly 2 cs
  let (_, cs) ← takeMark ':' cs
  let (minute, cs) ← takeExactly 2 cs
  let (_, cs) ← takeMark ':' cs
  let (second, cs) ← takeExactly 2 cs
  let (_, cs) ← takeMark '.' cs
  let (micros, cs) ← takeExactly 6 cs
  if cs = ['Z'] then
    checked { year, month, day, hour, minute, second, nanos := micros * 1000 }
  else none

end Timestamp

end Montage
