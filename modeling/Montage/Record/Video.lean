import Montage.Document.Fields
import Montage.Record.Timestamp

/-!
# Prepared videos

What is kept of a finished job: where its video is, for whom it is meant, and when
it was made.
-/

namespace Montage

structure PreparedVideo where
  id : String
  jobId : String
  scenario : String
  accounts : List String
  caption : Option String
  url : String
  sizeBytes : Nat
  checksum : Option String
  /-- Expected length in seconds. -/
  duration : Scalar
  createdAt : Timestamp
  deriving DecidableEq

namespace PreparedVideo

open Document in
def readTimestamp : Reader Timestamp
  | .text s => Timestamp.ofText? s
  | _ => none

open Document in
def read : Reader PreparedVideo :=
  readRecord .refused do
    let id ← field "id" readText
    let jobId ← field "job_id" readText
    let scenario ← field "scenario" readText
    let accounts ← field "accounts" (readList readText)
    let caption ← maybeField "caption" readText
    let url ← field "url" readText
    let sizeBytes ← field "size_bytes" (readNat 64)
    let checksum ← maybeField "checksum" readText
    let duration ← field "duration_secs" (readScalar .double)
    let createdAt ← field "created_at" readTimestamp
    pure { id, jobId, scenario, accounts, caption, url, sizeBytes, checksum, duration, createdAt }

def toDocument (v : PreparedVideo) : Document :=
  .table [("id", .text v.id), ("job_id", .text v.jobId), ("scenario", .text v.scenario),
    ("accounts", .texts v.accounts), ("caption", .optional .text v.caption), ("url", .text v.url),
    ("size_bytes", .nat v.sizeBytes), ("checksum", .optional .text v.checksum),
    ("duration_secs", .number v.duration), ("created_at", .text v.createdAt.text)]

end PreparedVideo

/-- Which video is looked for; a part that is not set does not matter. -/
structure VideoFilter where
  jobId : Option String := none
  scenario : Option String := none
  account : Option String := none
  deriving DecidableEq, Repr

namespace VideoFilter

def forAccount (account : String) : VideoFilter := { account := some account }

def forJob (jobId : String) : VideoFilter := { jobId := some jobId }

def accepts (f : VideoFilter) (v : PreparedVideo) : Bool :=
  f.jobId.all (· = v.jobId) && f.scenario.all (· = v.scenario) &&
    f.account.all (v.accounts.contains ·)

end VideoFilter

end Montage
