import Montage.Text.Unprintable

/-!
# Quoted text

Text as messages quote it: between double quotes, with a backslash before quotes
and backslashes, short names for the usual controls, and the code point of
everything else that cannot be seen.
-/

namespace Montage.Text

def hexDigits (n : Nat) : List Char := Nat.toDigits 16 n

/-- One character inside quotes; `marks` are the quote marks that need a backslash. -/
def escapeChar (marks : List Char) (c : Char) : List Char :=
  if c = '\x00' then ['\\', '0']
  else if c = '\t' then ['\\', 't']
  else if c = '\n' then ['\\', 'n']
  else if c = '\r' then ['\\', 'r']
  else if c = '\\' ∨ c ∈ marks then ['\\', c]
  else if isUnprintable c then '\\' :: 'u' :: '\x7b' :: hexDigits c.toNat ++ ['\x7d']
  else [c]

def quotedWith (marks : List Char) (s : String) : String :=
  String.ofList ('"' :: s.toList.flatMap (escapeChar marks) ++ ['"'])

def quoted (s : String) : String := quotedWith ['"'] s

/-- A path between quotes; single quotes are escaped too. -/
def quotedPath (s : String) : String := quotedWith ['"', '\''] s

end Montage.Text
