/-!
# Paths

Paths as text. Names are separated by slashes; empty names and single points
lead nowhere, two points lead up.
-/

namespace Montage.Path

/-- The stretches between separators, the characters of the first one in reverse. -/
def splitFrom (sep : Char) : List Char → List Char → List (List Char)
  | sofar, [] => [sofar.reverse]
  | sofar, c :: rest =>
    if c = sep then sofar.reverse :: splitFrom sep [] rest else splitFrom sep (c :: sofar) rest

def split (sep : Char) (s : String) : List String := (splitFrom sep [] s.toList).map String.ofList

/-- A leading slash makes a path absolute. -/
def isAbsolute (path : String) : Bool := path.toList.head? = some '/'

def isStep (name : String) : Bool := name != "" && name != "."

/-- The names along a path that lead somewhere. -/
def names (path : String) : List String := (split '/' path).filter isStep

/-- A path by what it says and not how it is written: where it starts, and its names. -/
def key (path : String) : List String :=
  if isAbsolute path then "/" :: names path
  else if (split '/' path).head? = some "." then "." :: names path
  else names path

def ofNames (absolute : Bool) (ns : List String) : String :=
  (if absolute then "/" else "") ++ "/".intercalate ns

/-- The directory that a path lies in, empty for paths of no more than one name. -/
def parent (path : String) : String :=
  let ns := names path
  ofNames (isAbsolute path && 2 ≤ ns.length) ns.dropLast

/-- The last name of a path, unless it leads up. -/
def fileName? (path : String) : Option String := (names path).getLast?.filter (· ≠ "..")

/-- A name below a directory; an absolute one stands for itself. -/
def join (dir name : String) : String :=
  if isAbsolute name then name
  else if dir = "" ∨ dir.toList.getLast? = some '/' then dir ++ name
  else dir ++ "/" ++ name

/-- Everything before the last point, or all of a name whose only point comes first. -/
def stem (name : String) : String :=
  let tail := name.toList.reverse.dropWhile (· ≠ '.')
  match tail with
  | '.' :: c :: rest => String.ofList (c :: rest).reverse
  | _ => name

def withExtension (path extension : String) : String :=
  match fileName? path with
  | some name =>
    join (ofNames (isAbsolute path) (names path).dropLast) (stem name ++ "." ++ extension)
  | none => path

/-- A path and the directories above it, the nearest first. -/
def ancestors (path : String) : List String :=
  let ns := names path
  let above := (List.range ns.length).reverse.filterMap fun k =>
    if k = 0 then none else some (ofNames (isAbsolute path) (ns.take k))
  if path = "" then [] else path :: above

end Montage.Path
