import Montage.Render.Error

/-!
# Failures of a job

Failures of the steps of a job, each with the kinds of its own step, and the job's
failure, which says at which step it happened.
-/

namespace Montage

inductive FetchError
  | invalidUrl (url reason : String)
  | http (url : String) (status : Nat)
  /-- The connection, or reading from it, failed. -/
  | request (url reason : String)
  | io (error : DiskError)
  deriving DecidableEq, Repr

namespace FetchError

def message : FetchError → String
  | invalidUrl url reason => "Invalid source URL " ++ url ++ ": " ++ reason
  | http url status => "Download of " ++ url ++ " failed with HTTP " ++ toString status
  | request url reason => "Request to " ++ url ++ " failed: " ++ reason
  | io e => "I/O error: " ++ e.message

def chain (e : FetchError) : List String :=
  match e with
  | io inner => [e.message, inner.message]
  | _ => [e.message]

/-- Whether another attempt could succeed: the server was busy or the connection broke. -/
def retryable : FetchError → Bool
  | http _ status => status = 429 || 500 ≤ status
  | request _ _ => true
  | invalidUrl _ _ | io _ => false

end FetchError

inductive ArtifactError
  | sourceNotFound (path : String)
  | invalidName (name : String)
  | io (error : DiskError)
  deriving DecidableEq, Repr

namespace ArtifactError

def message : ArtifactError → String
  | sourceNotFound path => "Artifact not found: " ++ path
  | invalidName name => "Invalid artifact name: " ++ name
  | io e => "I/O error: " ++ e.message

def chain (e : ArtifactError) : List String :=
  match e with
  | io inner => [e.message, inner.message]
  | _ => [e.message]

end ArtifactError

inductive RecordError
  | database (text : String)
  | serialization (text : String)
  deriving DecidableEq, Repr

namespace RecordError

def message : RecordError → String
  | database text => "Database error: " ++ text
  | serialization text => "Serialization error: " ++ text

end RecordError

inductive ComposeError
  /-- The request was turned down before anything was done. -/
  | validation (reason : String)
  | fetch (error : FetchError)
  | upload (error : ArtifactError)
  | record (error : RecordError)
  | render (error : RenderError)
  /-- The job's working directory could not be made. -/
  | io (error : DiskError)
  deriving DecidableEq, Repr

namespace ComposeError

def message : ComposeError → String
  | validation reason => "Invalid scenario request: " ++ reason
  | fetch e => "Source download failed: " ++ e.message
  | upload e => "Artifact upload failed: " ++ e.message
  | record e => "Failed to record prepared video: " ++ e.message
  | render e => "Render failed: " ++ e.message
  | io e => "I/O error: " ++ e.message

/-- The messages of the failure and of those behind it, outermost first. -/
def chain (e : ComposeError) : List String :=
  e.message :: match e with
    | validation _ => []
    | fetch inner => inner.chain
    | upload inner => inner.chain
    | record inner => [inner.message]
    | render inner => inner.chain
    | io inner => [inner.message]

/-- Whether another attempt at the whole job could succeed. -/
def retryable : ComposeError → Bool
  | fetch e => e.retryable
  | render e => e.retryable
  | io _ => true
  | validation _ | upload _ | record _ => false

end ComposeError

end Montage
