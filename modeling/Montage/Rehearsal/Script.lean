import Montage.Document.Lookup
import Montage.Rehearsal.Program
import Montage.Text.Percent

/-!
# Written scripts

Disks and scripts of programs as they are written down in documents. Octets are
written as text, as hexadecimal digits, or as a text that is repeated.
-/

namespace Montage.Rehearsal

open Document

/-! ## Octets -/

/-- The octets of pairs of hexadecimal digits, the ones so far in reverse. -/
def hexOctets? (sofar : Bytes) : Bytes → Option Bytes
  | [] => some sofar.reverse
  | a :: b :: rest => do
    let octet := 16 * (← Text.hexValue? a) + (← Text.hexValue? b)
    hexOctets? (octet :: sofar) rest
  | [_] => none

def readContent : Reader Bytes
  | .text s => some (Text.encode s)
  | d =>
    match d.get? "hex" with
    | some (.text digits) => hexOctets? [] (Text.encode digits)
    | _ => do
      let piece ← d.get? "repeat" >>= readText
      let count ← d.get? "count" >>= readNat 32
      some (List.replicate count (Text.encode piece)).flatten

/-! ## Disks -/

/-- A new empty working directory beside the directory for temporary files. -/
def freshDisk : Disk :=
  { home := ["sandbox"], entries := [(["sandbox"], .directory), (["tmp"], .directory)] }

def placeFile (disk : Disk) (path : String) (content : Bytes) : Lookup Disk :=
  match disk.createDirectories (Path.parent path) with
  | (.ok (), disk) => (disk.write path content).mapError DiskError.message
  | (.error e, _) => .error e.message

def diskWith (files : List (String × Document)) : Lookup Disk :=
  files.foldlM (fun disk (path, d) => do placeFile disk path (← found path (readContent d)))
    freshDisk

/-! ## Scripts -/

def isSet (d : Document) (key : String) : Bool :=
  match d.get? key with
  | none | some .null | some (.bool false) => false
  | some _ => true

def readEnding (d : Document) (signal exit : String) : Lookup Ending := do
  if isSet d signal then pure .killed else pure (.exited (← d.entryOr exit 0 (readNat 32)))

def ProbeScript.ofDocument (d : Document) : Lookup ProbeScript := do
  pure {
    output := ← d.entryIfAny "probe_stdout" readContent
    errors := (← d.entryIfAny "probe_stderr" readContent).getD []
    ending := ← readEnding d "probe_signal" "probe_exit" }

def TranscodeScript.ofDocument (d : Document) : Lookup TranscodeScript := do
  pure {
    errors := (← d.entryIfAny "stderr" readContent).getD []
    lateErrors := ← d.entryIfAny "stderr_late" readContent
    result := ← d.entryIfAny "out" readContent
    ending := ← if isSet d "hang" then pure .hanging else readEnding d "signal" "exit" }

def Programs.ofDocument (prober transcoder : String) (d : Document) : Lookup Programs := do
  pure { prober, transcoder, probe := ← ProbeScript.ofDocument d,
         transcode := ← TranscodeScript.ofDocument d }

end Montage.Rehearsal
