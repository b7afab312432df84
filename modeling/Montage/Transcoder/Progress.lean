import Montage.Number.Decimal

/-!
# Progress of a render

Messages on how far a render is, and the mailbox they are put into. A full
mailbox loses messages and does not hold the render up.
-/

namespace Montage

structure Progress where
  /-- From 0 to 100, in single precision. -/
  percent : Scalar
  /-- Seconds of output written. -/
  time : Scalar
  /-- Seconds of output expected, when known. -/
  total : Option Scalar
  /-- Speed of encoding as a multiple of playing speed. -/
  speed : Option String
  deriving DecidableEq

namespace Progress

/-- How much of `total` seconds `time` seconds are, zero when that is not known. -/
def percentOf (time : Scalar) (total : Option Scalar) : Scalar :=
  match total with
  | some t =>
    if Scalar.zero.lt t then
      ((Scalar.mul .double (.div .double time t) 100).min 100).narrow .single
    else .zero
  | none => .zero

end Progress

/-- Messages put in so far and room for more; a closed mailbox has no room. -/
structure Mailbox where
  room : Nat
  messages : List Progress := []
  deriving DecidableEq

namespace Mailbox

def offer (m : Mailbox) (p : Progress) : Mailbox :=
  if m.room = 0 then m else ⟨m.room - 1, m.messages ++ [p]⟩

end Mailbox

structure Watch where
  /-- Seconds of output expected, when known. -/
  total : Option Scalar
  mailbox : Mailbox
  deriving DecidableEq

end Montage
