import Montage.Disk.Path
import Montage.Scenario.Basic

/-!
# Links and file names

The extension that a link shows, and the names that downloaded files get: the
number of the source, its role, and the extension of its link or else the one that
the scenario expects.
-/

namespace Montage

namespace Link

def afterLast? (mark : Char) (cs : List Char) : Option (List Char) :=
  if cs.contains mark then some (cs.reverse.takeWhile (· ≠ mark)).reverse else none

def beforeQuery (url : String) : List Char := url.toList.takeWhile fun c => c ≠ '?' && c ≠ '#'

/-- The longest extension that counts as one. -/
def longestExtension : Nat := 5

/-- The extension that a link shows: what follows the last point of its last segment, if that is
short and of letters and digits. -/
def extension? (url : String) : Option String := do
  let path := beforeQuery url
  let segment := (afterLast? '/' path).getD path
  let ext ← afterLast? '.' segment
  if !ext.isEmpty && ext.length ≤ longestExtension && ext.all Char.isAlphanum then
    some (String.ofList (ext.map Char.toLower))
  else none

end Link

namespace Source

def fileName (s : Source) (index : Nat) : String :=
  let number := (if index < 10 then "0" else "") ++ toString index
  number ++ "_" ++ s.role ++ "." ++ (Link.extension? s.url).getD s.fallbackExtension

end Source

end Montage
