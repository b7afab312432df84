import Montage.Number.Scalar

/-!
# Precision and arithmetic

A precision says how an exact result is turned into a scalar. Binary formats
round to the nearest value, a half going to the even neighbour, and overflow to
an infinity; the exact precision keeps every rational as it is. All arithmetic
is stated over a precision, so the same definitions give machine arithmetic and
arithmetic on exact numbers.
-/

namespace Montage

/-- The quotient `n / d` rounded to the nearest natural, a half going to the even one. -/
def nearestEven (n d : Nat) : Nat :=
  let k := n / d
  let r := n % d
  if 2 * r < d then k
  else if d < 2 * r then k + 1
  else if k % 2 = 0 then k else k + 1

/-- The largest `e` with `2 ^ e ≤ n / d`, for positive `n` and `d`. -/
def floorLog2 (n d : Nat) : Int :=
  let k : Int := (n.log2 : Int) - d.log2
  if 0 ≤ k then
    if d * Nat.pow 2 k.toNat ≤ n then k else k - 1
  else if d ≤ n * Nat.pow 2 (-k).toNat then k else k - 1

inductive Precision
  | exact
  /-- Values of `digits` binary digits, multiples of `2 ^ least` and below `2 ^ top`. -/
  | binary (digits : Nat) (least top : Int)
  deriving DecidableEq

namespace Precision

def single : Precision := .binary 24 (-149) 128

def double : Precision := .binary 53 (-1074) 1024

/-- The multiple of `2 ^ e` nearest to `n / d`. -/
def onGrid (e : Int) (n d : Nat) : Rat :=
  if 0 ≤ e then ((nearestEven n (d * Nat.pow 2 e.toNat) * Nat.pow 2 e.toNat : Nat) : Rat)
  else mkRat (nearestEven (n * Nat.pow 2 (-e).toNat) d) (Nat.pow 2 (-e).toNat)

/-- The magnitude `n / d` in binary form, none when it overflows. -/
def magnitude? (digits : Nat) (least top : Int) (n d : Nat) : Option Rat :=
  let v := onGrid (max (floorLog2 n d + 1 - digits) least) n d
  if v < (2 : Rat) ^ top then some v else none

/-- The scalar of precision `p` nearest to a rational. -/
def round : Precision → Rat → Scalar
  | .exact, q => .num q
  | .binary digits least top, q =>
    if q = 0 then .num 0
    else
      match magnitude? digits least top q.num.natAbs q.den with
      | none => if q < 0 then .negInf else .posInf
      | some v =>
        if q < 0 then (if v = 0 then .negZero else .num (-v)) else .num v

end Precision

namespace Scalar

def narrow (p : Precision) : Scalar → Scalar
  | num q => p.round q
  | x => x

def ofNat (p : Precision) (n : Nat) : Scalar := p.round n

def ofInt (p : Precision) (n : Int) : Scalar := p.round n

/-- The sum; opposite infinities have none. -/
def add (p : Precision) : Scalar → Scalar → Scalar
  | nan, _ | _, nan => nan
  | posInf, negInf | negInf, posInf => nan
  | posInf, _ | _, posInf => posInf
  | negInf, _ | _, negInf => negInf
  | negZero, y => y
  | x, negZero => x
  | num a, num b => p.round (a + b)

def sub (p : Precision) (x y : Scalar) : Scalar := add p x y.neg

/-- A zero or an infinity with the sign of a product of `x` and `y`. -/
def signedBy (x y : Scalar) (pos negative : Scalar) : Scalar :=
  if x.signed = y.signed then pos else negative

/-- The product; a zero times an infinity has none. -/
def mul (p : Precision) (x y : Scalar) : Scalar :=
  match x.value?, y.value? with
  | some a, some b =>
    if a = 0 ∨ b = 0 then signedBy x y (num 0) negZero else p.round (a * b)
  | some a, none => if y.isNaN ∨ a = 0 then nan else signedBy x y posInf negInf
  | none, some b => if x.isNaN ∨ b = 0 then nan else signedBy x y posInf negInf
  | none, none => if x.isNaN ∨ y.isNaN then nan else signedBy x y posInf negInf

/-- The quotient; a nonzero number over a zero is infinite. -/
def div (p : Precision) (x y : Scalar) : Scalar :=
  match x.value?, y.value? with
  | some a, some b =>
    if b = 0 then (if a = 0 then nan else signedBy x y posInf negInf)
    else if a = 0 then signedBy x y (num 0) negZero
    else p.round (a / b)
  | some _, none => if y.isNaN then nan else signedBy x y (num 0) negZero
  | none, some _ => if x.isNaN then nan else signedBy x y posInf negInf
  | none, none => nan

/-- Left-to-right sum, starting from the neutral zero. -/
def sum (p : Precision) (xs : List Scalar) : Scalar := xs.foldl (add p) negZero

/-- Repeated squaring: `acc * x ^ n`, with the factors taken from the low bit of `n` up. -/
def powNat (p : Precision) (acc x : Scalar) (n : Nat) : Scalar :=
  let acc := if n % 2 = 1 then mul p acc x else acc
  if n < 2 then acc else powNat p acc (mul p x x) (n / 2)
termination_by n

/-- A power with an integer exponent; a negative one gives the reciprocal of the power. -/
def pow (p : Precision) (x : Scalar) (n : Int) : Scalar :=
  let r := powNat p (num 1) x n.natAbs
  if n < 0 then div p (num 1) r else r

end Scalar

end Montage
