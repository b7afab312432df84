import Montage.Fetch.Fetcher
import Montage.Fetch.Network
import Montage.Settings.Basic
import Montage.Text.Percent

/-!
# Fetching by link

Links to local files are copied, links to servers are downloaded. A download is
written beside its target and takes the target's name once it is complete.
-/

namespace Montage

inductive LinkKind
  /-- A file of this disk, by its percent-encoded path. -/
  | localFile (path : String)
  | remote
  | unknown
  deriving DecidableEq, Repr

namespace Link

def after? : List Char → List Char → Option (List Char)
  | [], cs => some cs
  | b :: beginning, c :: cs => if b = c then after? beginning cs else none
  | _ :: _, [] => none

def startsWith (beginning url : String) : Bool := (after? beginning.toList url.toList).isSome

/-- The kind of a link, by its scheme in lower case. -/
def kind (url : String) : LinkKind :=
  match after? "file://".toList url.toList with
  | some path => .localFile (String.ofList path)
  | none => if startsWith "http://" url || startsWith "https://" url then .remote else .unknown

end Link

structure FetchClient (σ : Type) where
  network : Network σ
  userAgent : String
  /-- Counts the octets of a finished download. -/
  countBytes : Nat → σ → σ

namespace FetchClient

/-- Where a download is written until it is complete. -/
def partialFile (path : String) : String := Path.withExtension path "part"

def copyLocal (url source path : String) (disk : Disk) : Except FetchError (Nat × Disk) := do
  let file ← (Text.percentDecode source).mapError fun e => .invalidUrl url e.message
  (disk.copyFile file path).mapError .io

def writeBody (url target : String) (r : Response) (disk : Disk) :
    Except FetchError Nat × Disk :=
  match disk.create target with
  | .error e => (.error (.io e), disk)
  | .ok (id, disk) =>
    let body := r.chunks.flatten
    let disk := disk.writeAt id 0 body
    match r.broken with
    | some reason => (.error (.request url reason), disk)
    | none => (.ok body.length, disk)

def receive (url target : String) (reply : Reply) (disk : Disk) : Except FetchError Nat × Disk :=
  match reply with
  | .failed reason => (.error (.request url reason), disk)
  | .answered r =>
    if r.isSuccess then writeBody url target r disk else (.error (.http url r.status), disk)

/-- Writes what a server answers beside its target and then gives it the target's name. A
download that fails takes the file beside the target with it. -/
def saveReply (url path : String) (reply : Reply) (disk : Disk) : Except FetchError Nat × Disk :=
  match receive url (partialFile path) reply disk with
  | (.error e, disk) => (.error e, disk.removeFileIfAny (partialFile path))
  | (.ok size, disk) =>
    match disk.renameFile (partialFile path) path with
    | .ok disk => (.ok size, disk)
    | .error e => (.error (.io e), disk)

def saveLink (c : FetchClient σ) (url path : String) (own : σ) (disk : Disk) :
    Except FetchError Nat × σ × Disk :=
  match Link.kind url with
  | .localFile source =>
    match copyLocal url source path disk with
    | .ok (size, disk) => (.ok size, own, disk)
    | .error e => (.error e, own, disk)
  | .remote =>
    let (reply, own) := c.network.request c.userAgent url own
    let (r, disk) := saveReply url path reply disk
    (r, own, disk)
  | .unknown => (.error (.invalidUrl url "expected http, https or file scheme"), own, disk)

/-- Saves what a link leads to, below directories that are made as needed. -/
def save (c : FetchClient σ) (url path : String) (own : σ) (disk : Disk) :
    Except FetchError String × σ × Disk :=
  match disk.createDirectories (Path.parent path) with
  | (.error e, disk) => (.error (.io e), own, disk)
  | (.ok (), disk) =>
    match c.saveLink url path own disk with
    | (.ok size, own, disk) => (.ok path, c.countBytes size own, disk)
    | (.error e, own, disk) => (.error e, own, disk)

def fetcher (c : FetchClient σ) : Fetcher σ where
  name := "http"
  save := c.save

/-! ## From settings -/

/-- Whether a name can be sent to servers: it has no control characters but tabs. -/
def isSendable (userAgent : String) : Bool :=
  (Text.encode userAgent).all fun b => (32 ≤ b && b != 127) || b = 9

/-- The client with the name that the settings give it. -/
def ofSettings (s : FetchSettings) (network : Network σ) (countBytes : Nat → σ → σ) :
    Except FetchError (FetchClient σ) :=
  if isSendable s.userAgent then .ok ⟨network, s.userAgent, countBytes⟩
  else .error (.request "" "failed to create HTTP client: builder error")

end FetchClient

end Montage
