/-!
# Scalars

A scalar is a number as measurements and settings carry it: a rational, a zero
with a minus sign, one of two infinities, or no number at all. Order and
selection follow the rules for binary floating point, so nothing is below,
above or equal to `nan`, and the two zeros are equal.
-/

namespace Montage

inductive Scalar
  | num (q : Rat)
  | negZero
  | posInf
  | negInf
  | nan
  deriving DecidableEq

namespace Scalar

instance : Inhabited Scalar := ⟨.num 0⟩

instance (n : Nat) : OfNat Scalar n := ⟨.num n⟩

def zero : Scalar := .num 0

/-- The rational a finite scalar stands for; both zeros stand for `0`. -/
def value? : Scalar → Option Rat
  | num q => some q
  | negZero => some 0
  | posInf | negInf | nan => none

def isNaN : Scalar → Bool
  | nan => true
  | _ => false

def isFinite (x : Scalar) : Bool := x.value?.isSome

/-- Whether the scalar is written with a minus sign. -/
def signed : Scalar → Bool
  | num q => decide (q < 0)
  | negZero | negInf => true
  | posInf | nan => false

/-! ## Order -/

/-- Strictly below, false as soon as one side is `nan`. -/
def lt : Scalar → Scalar → Bool
  | nan, _ | _, nan => false
  | negInf, negInf => false
  | negInf, _ => true
  | _, negInf => false
  | posInf, _ => false
  | _, posInf => true
  | num a, num b => decide (a < b)
  | num a, negZero => decide (a < 0)
  | negZero, num b => decide (0 < b)
  | negZero, negZero => false

/-- At most, false as soon as one side is `nan`. -/
def le (x y : Scalar) : Bool := !x.isNaN && !y.isNaN && !y.lt x

def ge (x y : Scalar) : Bool := y.le x

/-- The smaller of two scalars, where a number wins over `nan`. -/
def min (x y : Scalar) : Scalar :=
  if y.lt x then y else if x.isNaN then y else x

/-- Anything that is not above zero counts as zero. -/
def nonneg (x : Scalar) : Scalar :=
  if zero.lt x then x else zero

/-! ## Sign -/

def neg : Scalar → Scalar
  | num q => if q = 0 then negZero else num (-q)
  | negZero => num 0
  | posInf => negInf
  | negInf => posInf
  | nan => nan

/-- The part of a finite nonnegative scalar before the point, cut at `top`. Negative
scalars and `nan` give `0`. -/
def toNatUpTo (top : Nat) : Scalar → Nat
  | num q => Min.min q.floor.toNat top
  | posInf => top
  | negZero | negInf | nan => 0

end Scalar

end Montage
