import Montage.Scenario.Basic
import Montage.Text.Quoted

/-!
# Requests

A job as it is submitted. The check of a request finds every fault that can be
seen without touching a file, the first one counts.
-/

namespace Montage

structure Request where
  jobId : String
  /-- The accounts that the video is meant for. -/
  accounts : List String
  caption : Option String
  scenario : Scenario
  deriving DecidableEq

/-- The first element that occurs a second time. -/
def firstRepeated [BEq α] : List α → List α → Option α
  | _, [] => none
  | seen, a :: rest => if seen.contains a then some a else firstRepeated (a :: seen) rest

namespace Request

/-- Job names are used in paths and links, so they are kept to characters that need no care. -/
def isJobChar (c : Char) : Bool := c.isAlphanum || c = '-' || c = '_'

def jobIdFault? (id : String) : Option String :=
  if Text.trim id = "" then some "job_id is empty"
  else if id.toList.all isJobChar then none
  else some ("job_id " ++ Text.quoted id ++ " may only contain letters, digits, '-' and '_'")

def accountsFault? (accounts : List String) : Option String :=
  if accounts.isEmpty then some "no target accounts"
  else if accounts.any (Text.trim · = "") then some "account name is empty"
  else (firstRepeated [] accounts).map fun a =>
    "account " ++ Text.quoted a ++ " listed more than once"

def fault? (r : Request) : Option String :=
  jobIdFault? r.jobId <|> accountsFault? r.accounts <|> r.scenario.fault?

def validate (r : Request) : Except ComposeError Unit :=
  match r.fault? with
  | some reason => .error (.validation reason)
  | none => .ok ()

open Document in
def read : Reader Request :=
  readRecord .refused do
    let jobId ← field "job_id" readText
    let accounts ← field "accounts" (readList readText)
    let caption ← defaultField "caption" none (readOption readText)
    let scenario ← field "scenario" Scenario.read
    pure { jobId, accounts, caption, scenario }

def toDocument (r : Request) : Document :=
  .table [("job_id", .text r.jobId), ("accounts", .texts r.accounts),
    ("caption", .optional .text r.caption), ("scenario", r.scenario.toDocument)]

end Request

end Montage
