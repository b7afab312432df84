import Montage.Number.Precision

/-!
# Decimal text

Scalars in decimal notation: with a fixed number of places, with the fewest
digits that read back, and the way back from text. The two notations with
fewest digits share one search and differ in a small record that says where
exponents begin and which neighbour a tie goes to.
-/

namespace Montage

def digitChars (n : Nat) : List Char := Nat.toDigits 10 n

def leftPad (width : Nat) (c : Char) (cs : List Char) : List Char :=
  List.replicate (width - cs.length) c ++ cs

namespace Scalar

/-! ## Fixed places -/

/-- A natural read as so many units of the last of `places` places. -/
def placed (places : Nat) (n : Nat) : List Char :=
  let cs := leftPad (places + 1) '0' (digitChars n)
  cs.take (cs.length - places) ++ '.' :: cs.drop (cs.length - places)

/-- The scalar with `places` places (at least one), a half going to the even last digit. -/
def fixed (places : Nat) : Scalar → String
  | num q =>
    let cs := placed places (nearestEven (q.num.natAbs * Nat.pow 10 places) q.den)
    String.ofList (if q < 0 then '-' :: cs else cs)
  | negZero => String.ofList ('-' :: placed places 0)
  | posInf => "inf"
  | negInf => "-inf"
  | nan => "NaN"

end Scalar

/-! ## Fewest digits -/

/-- The number `digits * 10 ^ exponent`. -/
structure Decimal where
  digits : Nat
  exponent : Int
  deriving DecidableEq, Repr

namespace Decimal

def value (d : Decimal) : Rat := (d.digits : Rat) * (10 : Rat) ^ d.exponent

/-- The largest `k` with `10 ^ k ≤ q`, for positive `q`. -/
def floorLog10 (q : Rat) : Int :=
  let k : Int := ((digitChars q.num.natAbs).length : Int) - (digitChars q.den).length
  if (10 : Rat) ^ k ≤ q then k else k - 1

/-- How many times ten divides a natural, up to `fuel` times, and what remains. -/
def stripTens : Nat → Nat → Nat × Nat
  | 0, n => (0, n)
  | fuel + 1, n =>
    if n ≠ 0 ∧ n % 10 = 0 then
      let (k, r) := stripTens fuel (n / 10)
      (k + 1, r)
    else (0, n)

def normalize (d : Decimal) : Decimal :=
  let (k, r) := stripTens (digitChars d.digits).length d.digits
  ⟨r, d.exponent + k⟩

/-- Whether a decimal rounds to `q` in precision `p`. -/
def readsAs (p : Precision) (q : Rat) (d : Decimal) : Bool := p.round d.value == .num q

/-- Where a value half way between two candidates goes. -/
inductive Tie
  | up
  | toEven
  deriving DecidableEq

/-- Of the two decimals around `q` in units of `10 ^ e`, the nearer that reads back. -/
def onGrid? (p : Precision) (tie : Tie) (q : Rat) (e : Int) : Option Decimal :=
  let low := (q / (10 : Rat) ^ e).floor.toNat
  let lower : Decimal := ⟨low, e⟩
  let upper : Decimal := ⟨low + 1, e⟩
  match readsAs p q lower, readsAs p q upper with
  | false, false => none
  | true, false => some lower
  | false, true => some upper
  | true, true =>
    let below := q - lower.value
    let above := upper.value - q
    if below < above then some lower
    else if above < below then some upper
    else match tie with
      | .up => some upper
      | .toEven => some (if low % 2 = 0 then lower else upper)

/-- Tries grids of `n`, `n + 1`, … digits. -/
def search (p : Precision) (tie : Tie) (q : Rat) (k : Int) : Nat → Nat → Option Decimal
  | 0, _ => none
  | fuel + 1, n =>
    match onGrid? p tie q (k - n + 1) with
    | some d => some d
    | none => search p tie q k fuel (n + 1)

/-- The full expansion of a rational whose denominator is a power of two. -/
def expansion (q : Rat) : Decimal :=
  let j := q.den.log2
  ⟨q.num.natAbs * Nat.pow 5 j, -(j : Int)⟩

/-- The decimal of fewest digits that rounds to the positive value `q`. -/
def shortest (p : Precision) (tie : Tie) (q : Rat) : Decimal :=
  normalize <| (search p tie q (floorLog10 q) 17 1).getD (expansion q)

/-- The decimal without an exponent, a fraction only where there is one. -/
def plain (d : Decimal) : List Char :=
  if 0 ≤ d.exponent then digitChars d.digits ++ List.replicate d.exponent.toNat '0'
  else Scalar.placed (-d.exponent).toNat d.digits

end Decimal

/-- How a number with the fewest digits is laid out. -/
structure NumberForm where
  precision : Precision
  tie : Decimal.Tie
  /-- Whether whole numbers end in a point and a zero. -/
  pointZero : Bool
  /-- Numbers below `10 ^ lowest` are written with an exponent. -/
  lowest : Option Int
  /-- Numbers from `10 ^ highest` on are written with an exponent. -/
  highest : Option Int

namespace NumberForm

/-- Messages write numbers without exponents. -/
def message : NumberForm := ⟨.double, .up, false, none, none⟩

/-- Documents write whole numbers with a point and leave positional notation at the sixteenth
power of ten. -/
def document : NumberForm := ⟨.double, .toEven, true, some (-5), some 16⟩

/-- The same for single precision, which leaves positional notation earlier. -/
def documentSingle : NumberForm := ⟨.single, .toEven, true, some (-6), some 13⟩

def scientific (d : Decimal) (magnitude : Int) : List Char :=
  let e := magnitude - 1
  let mantissa := match digitChars d.digits with
    | [c] => [c]
    | c :: cs => c :: '.' :: cs
    | [] => []
  mantissa ++ 'e' :: (if e < 0 then '-' :: digitChars e.natAbs else digitChars e.toNat)

def positive (f : NumberForm) (q : Rat) : List Char :=
  let d := Decimal.shortest f.precision f.tie q
  let magnitude : Int := (digitChars d.digits).length + d.exponent
  let positional :=
    (match f.lowest with | some l => decide (l < magnitude) | none => true) &&
    (match f.highest with | some h => decide (magnitude ≤ h) | none => true)
  if positional then
    if f.pointZero && decide (0 ≤ d.exponent) then d.plain ++ ['.', '0'] else d.plain
  else scientific d magnitude

def zero (f : NumberForm) : List Char := if f.pointZero then ['0', '.', '0'] else ['0']

def write (f : NumberForm) : Scalar → String
  | .num q =>
    if q = 0 then String.ofList f.zero
    else if q < 0 then String.ofList ('-' :: f.positive (-q))
    else String.ofList (f.positive q)
  | .negZero => String.ofList ('-' :: f.zero)
  | .posInf => "inf"
  | .negInf => "-inf"
  | .nan => "NaN"

end NumberForm

/-- The scalar as messages show it. -/
def Scalar.text (x : Scalar) : String := NumberForm.message.write x

/-! ## Reading -/

namespace Decimal

/-- The nearest scalar to a decimal, far exponents being settled without computing the power. -/
def toScalar (p : Precision) (negative : Bool) (d : Decimal) : Scalar :=
  let size : Int := (digitChars d.digits).length + d.exponent
  if d.digits = 0 ∨ size < -400 then if negative then .negZero else .num 0
  else if 400 < size then if negative then .negInf else .posInf
  else p.round (if negative then -d.value else d.value)

def digitsValue (cs : List Char) : Nat :=
  cs.foldl (fun n c => 10 * n + (c.toNat - '0'.toNat)) 0

/-- Digits with an optional point and an optional exponent, with at least one digit before
the exponent and one in it. -/
def ofChars? (cs : List Char) : Option Decimal :=
  let whole := cs.takeWhile Char.isDigit
  let afterWhole := cs.dropWhile Char.isDigit
  let (fraction, rest) := match afterWhole with
    | '.' :: more => (more.takeWhile Char.isDigit, more.dropWhile Char.isDigit)
    | other => ([], other)
  if whole.isEmpty && fraction.isEmpty then none
  else
    let mantissa := digitsValue (whole ++ fraction)
    let shift : Int := -(fraction.length : Int)
    match rest with
    | [] => some ⟨mantissa, shift⟩
    | e :: more =>
      if e = 'e' ∨ e = 'E' then
        let (negative, digits) := match more with
          | '-' :: ds => (true, ds)
          | '+' :: ds => (false, ds)
          | ds => (false, ds)
        if digits.isEmpty || !digits.all Char.isDigit then none
        else
          let n : Int := digitsValue digits
          some ⟨mantissa, shift + (if negative then -n else n)⟩
      else none

end Decimal

namespace Scalar

/-- Reads an optionally signed decimal, infinity or `nan`, the words in any case. -/
def ofText? (p : Precision) (s : String) : Option Scalar :=
  let (negative, body) := match s.toList with
    | '-' :: cs => (true, cs)
    | '+' :: cs => (false, cs)
    | cs => (false, cs)
  let word := String.ofList (body.map Char.toLower)
  if word = "inf" ∨ word = "infinity" then some (if negative then negInf else posInf)
  else if word = "nan" then some nan
  else (Decimal.ofChars? body).map (Decimal.toScalar p negative)

end Scalar

/-- Reads a natural below `bound`, with an optional plus sign and at least one digit. -/
def natOfText? (bound : Nat) (s : String) : Option Nat :=
  let body := match s.toList with
    | '+' :: cs => cs
    | cs => cs
  if body.isEmpty || !body.all Char.isDigit then none
  else
    let n := Decimal.digitsValue body
    if n < bound then some n else none

end Montage
