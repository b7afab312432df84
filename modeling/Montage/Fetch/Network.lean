import Montage.Compose.Link
import Montage.Text.Utf8

/-!
# Networks

What comes back when a link is asked for. A server may send on to another link,
which is followed a limited number of times. The state of a network is its own, so
that nothing is assumed of how servers answer.
-/

namespace Montage

/-- An answer with its body, which comes in pieces and may break off. -/
structure Response where
  status : Nat
  /-- The link to ask instead, as the server writes it. -/
  location : Option String := none
  chunks : List Bytes := []
  /-- Why the body broke off, if it did. -/
  broken : Option String := none
  deriving DecidableEq, Repr

inductive Reply
  | failed (reason : String)
  | answered (response : Response)
  deriving DecidableEq, Repr

/-- Answers a program that calls itself `userAgent` and asks for `url`. -/
abbrev Network (σ : Type) := (userAgent url : String) → σ → Reply × σ

namespace Response

def isSuccess (r : Response) : Bool := 200 ≤ r.status && r.status < 300

def redirectStatuses : List Nat := [301, 302, 303, 307, 308]

def redirect? (r : Response) : Option String :=
  if redirectStatuses.contains r.status then r.location else none

end Response

namespace Link

/-- Splits a link after its scheme, `none` without one. -/
def splitScheme? : List Char → List Char → Option (List Char × List Char)
  | sofar, ':' :: '/' :: '/' :: rest => some ((sofar.reverse, rest))
  | sofar, c :: rest => if c.isAlphanum then splitScheme? (c :: sofar) rest else none
  | _, [] => none

/-- The names along a path from the root, with steps up taken. -/
def foldNames (names : List (List Char)) : List (List Char) :=
  names.foldl (fun done name =>
    if name = ['.', '.'] then done.dropLast else if name = ['.'] then done else done ++ [name]) []

/-- The link that `location` stands for on the page `base`. -/
def resolve (base location : String) : String :=
  match splitScheme? [] location.toList, splitScheme? [] base.toList with
  | none, some (scheme, rest) =>
    let authority := rest.takeWhile fun c => c ≠ '/' && c ≠ '?' && c ≠ '#'
    let path := (rest.drop authority.length).takeWhile fun c => c ≠ '?' && c ≠ '#'
    let origin := scheme ++ "://".toList ++ authority
    let link := match location.toList with
      | '/' :: '/' :: other => scheme ++ "://".toList ++ other
      | '/' :: _ => origin ++ location.toList
      | '?' :: _ => origin ++ path ++ location.toList
      | relative =>
        let names := (Path.splitFrom '/' [] path).drop 1
        origin ++ (foldNames (names.dropLast ++ Path.splitFrom '/' [] relative)).flatMap ('/' :: ·)
    String.ofList link
  | _, _ => location

end Link

namespace Network

def redirectLimit : Nat := 10

/-- Asks for a link, and for those it is sent on to, `hops` at most. -/
def follow (net : Network σ) (userAgent : String) : Nat → String → σ → Reply × σ
  | hops, url, own =>
    match net userAgent url own with
    | (.failed reason, own) => (.failed reason, own)
    | (.answered r, own) =>
      match r.redirect?, hops with
      | none, _ => (.answered r, own)
      | some _, 0 => (.failed "too many redirects", own)
      | some location, hops + 1 => net.follow userAgent hops (Link.resolve url location) own

def request (net : Network σ) (userAgent url : String) (own : σ) : Reply × σ :=
  net.follow userAgent redirectLimit url own

def unreachable : Network σ := fun _ url own =>
  (.failed ("error sending request for url (" ++ url ++ ")"), own)

end Network

end Montage
