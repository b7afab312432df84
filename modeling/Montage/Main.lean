import Montage.CommandLine.Run

/-!
# The program

Arguments, environment and files go in, text and an exit code come out. Starting
other programs and reaching servers is left to those who build the library into a
system of theirs: from here every program is missing and no server answers.
-/

namespace Montage.Main

structure Ledger where
  databases : Databases := {}
  probeFailures : Nat := 0
  downloadedBytes : Nat := 0

namespace Ledger

def host : Host Ledger where
  launch _ _ own disk := (.missing, own, disk)
  network := .unreachable
  noteProbeFailure l := { l with probeFailures := l.probeFailures + 1 }
  countBytes size l := { l with downloadedBytes := l.downloadedBytes + size }
  databases := (·.databases)
  setDatabases d l := { l with databases := d }
  activity l journal := ⟨journal, l.probeFailures, l.downloadedBytes⟩

end Ledger

/-! ## What the commands see -/

/-- Variables as the system keeps them, each one followed by a zero character. -/
def environmentOf (block : String) : List (String × String) :=
  (Path.split '\x00' block).filterMap fun line =>
    match Path.split '=' line with
    | name :: part :: rest => some (name, "=".intercalate (part :: rest))
    | _ => none

def namedFiles : Option CommandLine → List String
  | some (.invoke o c) =>
    o.config.toList ++ match c with
      | .compose job => [job]
      | .probe file => [file]
      | .showConfig => []
  | _ => []

def sourceFiles (disk : Disk) : Option CommandLine → List String
  | some (.invoke _ (.compose job)) =>
    match CommandLine.readJob disk job with
    | .ok r => r.scenario.sources.filterMap fun s =>
      match Link.kind s.url with
      | .localFile path => (Text.percentDecode path).toOption
      | _ => none
    | .error _ => []
  | _ => []

def readOrEmpty (path : String) : IO (Option ByteArray) := do
  try
    pure (some (← IO.FS.readBinFile path))
  catch _ =>
    pure none

def withFile (disk : Disk) (path : String) : IO Disk := do
  match ← readOrEmpty path with
  | none => pure disk
  | some content =>
    let (_, disk) := disk.createDirectories (Path.parent path)
    match disk.write path content.toList with
    | .ok disk => pure disk
    | .error _ => pure disk

def log (json : Bool) (message : String) : IO Unit := do
  (← IO.getStderr).putStrLn (CommandLine.logLine json message)

def start (args : List String) : IO UInt32 := do
  let block := (← readOrEmpty "/proc/self/environ").elim [] ByteArray.toList
  let env := environmentOf (Text.decodeLossy block)
  let line := CommandLine.read env args
  let disk ← (namedFiles line).foldlM withFile {}
  let disk ← (sourceFiles disk line).foldlM withFile disk
  let suffix := Checksum.lowerHex (Checksum.octets 4 (← IO.rand 0 (Word.count 32 - 1)))
  let stamp : Stamp := ⟨suffix, "", ⟨1970, 1, 1, 0, 0, 0, 0⟩⟩
  let (farewell, _) := (CommandLine.run Ledger.host env stamp args).run { own := {}, disk }
  IO.print farewell.printed
  let json := match line with
    | some (.invoke o _) => o.jsonLogs
    | _ => false
  if line.isNone then log false CommandLine.usageMessage
  for text in farewell.metrics do (← IO.getStderr).putStr text
  for text in farewell.fatal do log json ("Fatal error: " ++ text)
  pure (UInt32.ofNat farewell.exitCode)

end Montage.Main

def main (args : List String) : IO UInt32 := Montage.Main.start args
