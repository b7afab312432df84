import Montage.Compose.Error
import Montage.Document.Lookup
import Montage.Settings.Basic

/-!
# Reports of failures

A failure as the entries of a document: the name of its kind, its message, and
whether another attempt could succeed. A failure can also be read from a document
with the name of its kind and its parts; a text that is left out is empty.
-/

namespace Montage

open Document

def failureReport (kind message : String) : List (String × Document) :=
  [("error", .text kind), ("message", .text message)]

def failurePart (d : Document) (key : String) : Lookup String := d.entryOr key "" readText

def unknownKind (kind : String) : Lookup α := .error ("unknown kind " ++ kind)

def DiskError.ofReport (d : Document) : Lookup DiskError := do
  pure (.other (← failurePart d "text"))

namespace RenderError

def kind : RenderError → String
  | invalidState _ => "InvalidState"
  | invalidArgument _ => "InvalidArgument"
  | probeFailed _ _ => "ProbeFailed"
  | processFailed _ _ => "ProcessFailed"
  | timeout _ => "Timeout"
  | binaryNotFound _ => "BinaryNotFound"
  | io _ => "Io"

def report (e : RenderError) : List (String × Document) :=
  failureReport e.kind e.message ++
    [("retryable", .bool e.retryable), ("diagnostics", .optional .text e.diagnostics?)]

def ofReport (d : Document) : Lookup RenderError := do
  match ← d.entry "kind" readText with
  | "InvalidState" => pure (.invalidState (← failurePart d "reason"))
  | "InvalidArgument" => pure (.invalidArgument (← failurePart d "reason"))
  | "ProbeFailed" => pure (.probeFailed (← failurePart d "path") (← failurePart d "reason"))
  | "ProcessFailed" =>
    let code ← d.entryIfAny "exit_code" (readSigned 32)
    pure (.processFailed code (← failurePart d "stderr"))
  | "Timeout" => pure (.timeout (← d.entry "timeout_secs" (readNat 64)))
  | "BinaryNotFound" => pure (.binaryNotFound (← failurePart d "path"))
  | "Io" => pure (.io (← DiskError.ofReport d))
  | other => unknownKind other

end RenderError

namespace FetchError

def kind : FetchError → String
  | invalidUrl _ _ => "InvalidUrl"
  | http _ _ => "Http"
  | request _ _ => "Request"
  | io _ => "Io"

def report (e : FetchError) : List (String × Document) :=
  failureReport e.kind e.message ++ [("retryable", .bool e.retryable)]

def ofReport (d : Document) : Lookup FetchError := do
  match ← d.entry "kind" readText with
  | "InvalidUrl" => pure (.invalidUrl (← failurePart d "url") (← failurePart d "reason"))
  | "Http" => pure (.http (← failurePart d "url") (← d.entry "status" (readNat 16)))
  | "Request" => pure (.request (← failurePart d "url") (← failurePart d "reason"))
  | "Io" => pure (.io (← DiskError.ofReport d))
  | other => unknownKind other

end FetchError

namespace ArtifactError

def kind : ArtifactError → String
  | sourceNotFound _ => "SourceNotFound"
  | invalidName _ => "InvalidName"
  | io _ => "Io"

def report (e : ArtifactError) : List (String × Document) := failureReport e.kind e.message

def ofReport (d : Document) : Lookup ArtifactError := do
  match ← d.entry "kind" readText with
  | "SourceNotFound" => pure (.sourceNotFound (← failurePart d "path"))
  | "InvalidName" => pure (.invalidName (← failurePart d "name"))
  | "Io" => pure (.io (← DiskError.ofReport d))
  | other => unknownKind other

end ArtifactError

namespace RecordError

def kind : RecordError → String
  | database _ => "Database"
  | serialization _ => "Serialization"

def report (e : RecordError) : List (String × Document) := failureReport e.kind e.message

def ofReport (d : Document) : Lookup RecordError := do
  match ← d.entry "kind" readText with
  | "Database" => pure (.database (← failurePart d "text"))
  | "Serialization" => pure (.serialization (← failurePart d "text"))
  | other => unknownKind other

end RecordError

namespace SettingsError

def kind : SettingsError → String
  | fileNotFound _ => "FileNotFound"
  | unreadable => "ParseError"
  | invalid _ => "ValidationError"

def report (e : SettingsError) : List (String × Document) := failureReport e.kind e.message

def ofReport (d : Document) : Lookup SettingsError := do
  match ← d.entry "kind" readText with
  | "FileNotFound" => pure (.fileNotFound (← failurePart d "text"))
  | "ParseError" => pure .unreadable
  | "ValidationError" => pure (.invalid (← failurePart d "text"))
  | other => unknownKind other

end SettingsError

namespace ComposeError

def kind : ComposeError → String
  | validation _ => "Validation"
  | fetch _ => "Fetch"
  | upload _ => "Upload"
  | record _ => "Record"
  | render _ => "Render"
  | io _ => "Io"

def cause : ComposeError → Document
  | validation _ | io _ => .null
  | fetch e => .table e.report
  | upload e => .table e.report
  | record e => .table e.report
  | render e => .table e.report

def report (e : ComposeError) : List (String × Document) :=
  failureReport e.kind e.message ++ [("retryable", .bool e.retryable), ("cause", e.cause)]

/-- The failure at a step, read from the report of what went wrong there. -/
def ofReport (step : String) (d : Document) : Lookup ComposeError := do
  match step with
  | "Validation" => pure (.validation (← failurePart d "text"))
  | "Fetch" => pure (.fetch (← FetchError.ofReport d))
  | "Upload" => pure (.upload (← ArtifactError.ofReport d))
  | "Record" => pure (.record (← RecordError.ofReport d))
  | "Render" => pure (.render (← RenderError.ofReport d))
  | "Io" => pure (.io (← DiskError.ofReport d))
  | other => unknownKind other

end ComposeError

end Montage
