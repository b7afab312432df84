import Montage.Text.Utf8

/-!
# Percent-encoding

Names as segments of a link. Letters, digits and four marks stand for
themselves, every other octet is written as a percent sign and two hexadecimal
digits. Reading leaves a percent sign alone that two digits do not follow.
-/

namespace Montage.Text

def isUnreserved (b : UInt8) : Bool :=
  let c := Char.ofNat b.toNat
  c.isAlphanum || c = '-' || c = '.' || c = '_' || c = '~'

def upperHex (n : Nat) : Char := if n < 10 then Char.ofNat (48 + n) else Char.ofNat (55 + n)

def percentOctet (b : UInt8) : List Char :=
  if isUnreserved b then [Char.ofNat b.toNat]
  else ['%', upperHex (b.toNat / 16), upperHex (b.toNat % 16)]

def percentEncode (s : String) : String := String.ofList ((encode s).flatMap percentOctet)

def hexValue? (b : UInt8) : Option UInt8 :=
  if 48 ≤ b && b ≤ 57 then some (b - 48)
  else if 65 ≤ b && b ≤ 70 then some (b - 55)
  else if 97 ≤ b && b ≤ 102 then some (b - 87)
  else none

def percentDecodeBytes : Bytes → Bytes
  | 0x25 :: a :: b :: rest =>
    match hexValue? a, hexValue? b with
    | some x, some y => (x * 16 + y) :: percentDecodeBytes rest
    | _, _ => 0x25 :: percentDecodeBytes (a :: b :: rest)
  | c :: rest => c :: percentDecodeBytes rest
  | [] => []

def percentDecode (s : String) : Except Utf8Error String :=
  decode (percentDecodeBytes (encode s))

end Montage.Text
