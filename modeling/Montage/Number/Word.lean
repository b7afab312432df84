/-!
# Words

Whole numbers of a fixed number of bits, and how numbers out of their range wrap
around.
-/

namespace Montage.Word

/-- The number of values that `bits` bits have. -/
def count (bits : Nat) : Nat := Nat.pow 2 bits

def least (bits : Nat) : Int := -(count (bits - 1) : Nat)

def greatest (bits : Nat) : Int := (count (bits - 1) : Nat) - 1

/-- A number as a signed word: the one from `least` up to `greatest` that differs from it by a
multiple of `count`. -/
def signed (bits : Nat) (n : Int) : Int := n.bmod (count bits)

def unsigned (bits : Nat) (n : Int) : Nat := (n % (count bits : Nat)).toNat

end Montage.Word
