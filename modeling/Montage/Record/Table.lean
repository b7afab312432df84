import Montage.Compose.Error
import Montage.Number.Word
import Montage.Record.Video

/-!
# Record tables

Prepared videos in two tables, one row for a video and one for each of its
accounts. A video is added whole or not at all. Of several that are looked for, the
one with the smallest text of its time is found, the one added first among equals.
-/

namespace Montage

/-- A row of the table of videos. Sizes are signed numbers of 64 bits, times are text. -/
structure VideoRow where
  id : String
  jobId : String
  scenario : String
  caption : Option String
  url : String
  size : Int
  checksum : Option String
  duration : Scalar
  createdAt : String
  deriving DecidableEq

structure AccountRow where
  videoId : String
  account : String
  position : Nat
  deriving DecidableEq, Repr

/-- The two tables, rows in the order of their insertion. -/
structure RecordTable where
  videos : List VideoRow := []
  accounts : List AccountRow := []
  deriving DecidableEq

namespace VideoRow

/-- A natural of 64 bits as a signed number. -/
def signedSize (n : Nat) : Int := Word.signed 64 n

def unsignedSize (n : Int) : Nat := Word.unsigned 64 n

/-- Numbers as the table keeps them, which has one zero only. -/
def keptDuration : Scalar → Scalar
  | .negZero => .zero
  | x => x

def ofVideo (v : PreparedVideo) : VideoRow where
  id := v.id
  jobId := v.jobId
  scenario := v.scenario
  caption := v.caption
  url := v.url
  size := signedSize v.sizeBytes
  checksum := v.checksum
  duration := keptDuration v.duration
  createdAt := v.createdAt.microText

def toVideo (r : VideoRow) (accounts : List String) (createdAt : Timestamp) : PreparedVideo where
  id := r.id
  jobId := r.jobId
  scenario := r.scenario
  accounts := accounts
  caption := r.caption
  url := r.url
  sizeBytes := unsignedSize r.size
  checksum := r.checksum
  duration := r.duration
  createdAt := createdAt

end VideoRow

namespace RecordTable

/-! ## Adding -/

def addVideoRow (t : RecordTable) (r : VideoRow) : Except RecordError RecordTable :=
  if r.duration.isNaN then
    .error (.database "NOT NULL constraint failed: prepared_videos.duration_secs")
  else if t.videos.any (·.id = r.id) then
    .error (.database "UNIQUE constraint failed: prepared_videos.id")
  else .ok { t with videos := t.videos ++ [r] }

def addAccountRow (t : RecordTable) (r : AccountRow) : Except RecordError RecordTable :=
  if t.accounts.any fun a => a.videoId = r.videoId ∧ a.account = r.account then
    .error <| .database <| "UNIQUE constraint failed: prepared_video_accounts.video_id, "
      ++ "prepared_video_accounts.account"
  else .ok { t with accounts := t.accounts ++ [r] }

def accountRows (v : PreparedVideo) : List AccountRow :=
  v.accounts.zipIdx.map fun (account, position) => ⟨v.id, account, position⟩

/-- Adds a video with its accounts, or changes nothing. -/
def add (t : RecordTable) (v : PreparedVideo) : Except RecordError RecordTable := do
  let t ← t.addVideoRow (.ofVideo v)
  (accountRows v).foldlM addAccountRow t

/-! ## Finding -/

def accountsOf (t : RecordTable) (videoId : String) : List String :=
  ((t.accounts.filter (·.videoId = videoId)).mergeSort fun a b => a.position ≤ b.position).map
    (·.account)

def accepts (t : RecordTable) (f : VideoFilter) (r : VideoRow) : Bool :=
  f.jobId.all (· = r.jobId) && f.scenario.all (· = r.scenario) &&
    f.account.all fun account =>
      t.accounts.any fun a => a.videoId = r.id ∧ a.account = account

/-- The row with the smallest text of its time, the first one among equals. -/
def earliest? : List VideoRow → Option VideoRow
  | [] => none
  | r :: rest =>
    match earliest? rest with
    | none => some r
    | some s => if s.createdAt < r.createdAt then some s else some r

def getOne (t : RecordTable) (f : VideoFilter) : Except RecordError (Option PreparedVideo) :=
  match earliest? (t.videos.filter (t.accepts f)) with
  | none => .ok none
  | some r =>
    match Timestamp.ofMicroText? r.createdAt with
    | some time => .ok (some (r.toVideo (t.accountsOf r.id) time))
    | none => .error (.serialization "created_at: input contains invalid characters")

def count (t : RecordTable) : Nat := t.videos.length

end RecordTable

end Montage
