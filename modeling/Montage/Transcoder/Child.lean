import Montage.Program
import Montage.Transcoder.Basic
import Montage.Transcoder.Line

/-!
# Transcoding by a program

A program is started once for every run and its error stream is read line by line
until it ends or its time is up. Its exit code decides about success; what it wrote
besides progress is kept as diagnostics.
-/

namespace Montage

/-- The state while an error stream is read. -/
structure Reading where
  /-- Diagnostic lines so far, the last one first. -/
  diagnostics : List String := []
  /-- The last time that was reported. -/
  time : Scalar := .zero
  speed : Option String := none
  /-- When a message was last offered, the start at first. -/
  lastSent : Nat := 0
  watch : Option Watch
  deriving DecidableEq

namespace Reading

/-- Milliseconds between messages. -/
def interval : Nat := 500

/-- Offers a message if enough time has passed. -/
def offer (r : Reading) (w : Watch) (now : Nat) : Reading :=
  if r.lastSent + interval ≤ now then
    let message := ⟨Progress.percentOf r.time w.total, r.time, w.total, r.speed⟩
    { r with lastSent := now, watch := some { w with mailbox := w.mailbox.offer message } }
  else r

/-- Takes one line in. Without a watcher every line is a diagnostic. -/
def line (r : Reading) (now : Nat) (s : String) : Reading :=
  match r.watch with
  | none => { r with diagnostics := s :: r.diagnostics }
  | some w =>
    let cs := s.toList
    if TranscoderLine.isProgress cs then
      { r with
        time := (TranscoderLine.time? cs).getD r.time
        speed := TranscoderLine.speed? cs <|> r.speed }.offer w now
    else { r with diagnostics := s :: r.diagnostics }

/-- All diagnostics, every line with its end. -/
def text (r : Reading) : String :=
  String.join (r.diagnostics.reverse.map (· ++ "\n"))

/-- Reads lines that arrive before the deadline. A line that is no text ends the reading. -/
def lines (limit deadline : Nat) (r : Reading) :
    List (Nat × Bytes) → Except RenderError Unit × Reading
  | [] => (.ok (), r)
  | (now, bytes) :: rest =>
    if deadline ≤ now then (.error (.timeout limit), r)
    else
      match Text.decode bytes with
      | .error e => (.error (.io (.other e.message)), r)
      | .ok s => lines limit deadline (r.line now s) rest

end Reading

namespace ChildRun

/-- What becomes of a run that is given `limit` seconds. -/
def outcome (run : ChildRun) (limit : Nat) (watch : Option Watch) :
    Except RenderError RunReport × Option Watch :=
  let deadline := limit * 1000
  match Reading.lines limit deadline { watch } run.errorLines with
  | (.error e, r) => (.error e, r.watch)
  | (.ok (), r) =>
    let result :=
      if deadline ≤ run.length then .error (.timeout limit)
      else
        match run.ending with
        | .hanging => .error (.timeout limit)
        | .killed => .error (.processFailed none r.text)
        | .exited code =>
          if code = 0 then .ok ⟨some 0, r.text⟩ else .error (.processFailed (some code) r.text)
    (result, r.watch)

end ChildRun

namespace Transcoder

def progressFlags : List String := ["-progress", "pipe:2", "-nostats"]

/-- The transcoder that starts the program at `path`, with `limit` seconds for every run. -/
def ofProgram (launch : Launcher σ) (path : String) (limit : Nat) : Transcoder σ where
  name := "ffmpeg"
  run arguments watch own disk :=
    let flags := if watch.isSome then progressFlags else []
    match launch path (flags ++ arguments) own disk with
    | (.missing, own, disk) => ⟨.error (.binaryNotFound path), watch, 0, own, disk⟩
    | (.refused e, own, disk) => ⟨.error (.io e), watch, 0, own, disk⟩
    | (.started child, own, disk) =>
      let (outcome, watch) := child.outcome limit watch
      ⟨outcome, watch, child.length, own, disk⟩

end Transcoder

end Montage
