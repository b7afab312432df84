/-!
# UTF-8

Octets and text. Reading is by single steps: a step takes one character, or as
many octets of a broken one as rule it out. Strict reading stops at the first
broken character, lenient reading puts the replacement character in its place.
-/

namespace Montage

abbrev Bytes := List UInt8

namespace Text

/-- What stands at the head of an octet sequence. -/
inductive Unit8
  | char (c : Char) (length : Nat)
  /-- The first `length` octets rule a character out. -/
  | broken (length : Nat)
  /-- The sequence ends inside a character. -/
  | incomplete
  | done

def isTail (b : UInt8) : Bool := 0x80 ≤ b && b ≤ 0xbf

/-- The least and the greatest octet after the first one of a longer character. -/
def secondRange (b : UInt8) : UInt8 × UInt8 :=
  if b = 0xe0 then (0xa0, 0xbf)
  else if b = 0xed then (0x80, 0x9f)
  else if b = 0xf0 then (0x90, 0xbf)
  else if b = 0xf4 then (0x80, 0x8f)
  else (0x80, 0xbf)

def low6 (b : UInt8) : Nat := b.toNat % 64

def headUnit : Bytes → Unit8
  | [] => .done
  | a :: rest =>
    if a < 0x80 then .char (Char.ofNat a.toNat) 1
    else if a < 0xc2 || 0xf4 < a then .broken 1
    else
      let (lo, hi) := secondRange a
      match rest with
      | [] => .incomplete
      | b :: rest =>
        if b < lo || hi < b then .broken 1
        else if a < 0xe0 then .char (Char.ofNat (a.toNat % 32 * 64 + low6 b)) 2
        else
          match rest with
          | [] => .incomplete
          | c :: rest =>
            if !isTail c then .broken 2
            else if a < 0xf0 then
              .char (Char.ofNat ((a.toNat % 16 * 64 + low6 b) * 64 + low6 c)) 3
            else
              match rest with
              | [] => .incomplete
              | d :: _ =>
                if !isTail d then .broken 3
                else
                  .char (Char.ofNat (((a.toNat % 8 * 64 + low6 b) * 64 + low6 c) * 64 + low6 d)) 4

/-- Where and how octets fail to be text. -/
structure Utf8Error where
  /-- Number of octets before the broken character. -/
  start : Nat
  /-- Length of the broken part, none when the octets end inside a character. -/
  length : Option Nat
  deriving DecidableEq, Repr

def Utf8Error.message (e : Utf8Error) : String :=
  match e.length with
  | some n => s!"invalid utf-8 sequence of {n} bytes from index {e.start}"
  | none => s!"incomplete utf-8 byte sequence from index {e.start}"

/-- Reads octets from position `at`, the characters so far in reverse; `skip` octets of the
last character are still to be passed over. -/
def decodeFrom (start skip : Nat) (sofar : List Char) : Bytes → Except Utf8Error (List Char)
  | [] => .ok sofar.reverse
  | b :: rest =>
    match skip with
    | k + 1 => decodeFrom (start + 1) k sofar rest
    | 0 =>
      match headUnit (b :: rest) with
      | .char c n => decodeFrom (start + 1) (n - 1) (c :: sofar) rest
      | .broken n => .error ⟨start, some n⟩
      | .incomplete | .done => .error ⟨start, none⟩

/-- The text that octets spell, or the first place where they do not. -/
def decode (bs : Bytes) : Except Utf8Error String :=
  (decodeFrom 0 0 [] bs).map String.ofList

def replacement : Char := '\ufffd'

def decodeLossyFrom (skip : Nat) (sofar : List Char) : Bytes → List Char
  | [] => sofar.reverse
  | b :: rest =>
    match skip with
    | k + 1 => decodeLossyFrom k sofar rest
    | 0 =>
      match headUnit (b :: rest) with
      | .char c n => decodeLossyFrom (n - 1) (c :: sofar) rest
      | .broken n => decodeLossyFrom (n - 1) (replacement :: sofar) rest
      | .incomplete | .done => (replacement :: sofar).reverse

/-- The text that octets spell, each broken part replaced by one replacement character. -/
def decodeLossy (bs : Bytes) : String := String.ofList (decodeLossyFrom 0 [] bs)

def encode (s : String) : Bytes := s.toUTF8.data.toList

end Text

end Montage
