import Montage.Program

/-!
# Scripted programs

Stand-ins for the probing and the transcoding program. They follow a script and
remember the arguments they were given last.
-/

namespace Montage.Rehearsal

structure ProbeScript where
  /-- What is printed; without it the content of the probed file is. -/
  output : Option Bytes := none
  errors : Bytes := []
  ending : Ending := .exited 0

structure TranscodeScript where
  /-- What is written to the error stream at once. -/
  errors : Bytes := []
  /-- What is written to it later. -/
  lateErrors : Option Bytes := none
  /-- What is written to the file named by the last argument. -/
  result : Option Bytes := none
  ending : Ending := .exited 0

structure Programs where
  prober : String
  transcoder : String
  probe : ProbeScript := {}
  transcode : TranscodeScript := {}
  probeArguments : Option (List String) := none
  transcodeArguments : Option (List String) := none

namespace Programs

/-- Milliseconds after which a script goes on. -/
def lateAfter : Nat := 600

def lastArgument (arguments : List String) : String := arguments.getLast?.getD ""

def probeRun (s : ProbeScript) (arguments : List String) (disk : Disk) : ChildRun where
  output := s.output.getD ((disk.read (lastArgument arguments)).toOption.getD [])
  errors := [(0, s.errors)]
  ending := s.ending

def transcodeRun (s : TranscodeScript) : ChildRun where
  errors := (0, s.errors) :: (s.lateErrors.map ((lateAfter, ·))).toList
  length := if s.lateErrors.isSome then lateAfter else 0
  ending := s.ending

def written (s : TranscodeScript) (arguments : List String) (disk : Disk) : Disk :=
  match s.result with
  | none => disk
  | some bytes =>
    match disk.write (lastArgument arguments) bytes with
    | .ok disk => disk
    | .error _ => disk

def hasZero (s : String) : Bool := s.toList.contains '\x00'

/-- Starts one of the two programs. Other files cannot be run. -/
def launch (get : σ → Programs) (set : Programs → σ → σ) : Launcher σ :=
  fun path arguments own disk =>
    let p := get own
    if hasZero path || arguments.any hasZero then
      (.refused (.other "nul byte found in provided data"), own, disk)
    else if path = p.prober then
      (.started (probeRun p.probe arguments disk),
        set { p with probeArguments := some arguments } own, disk)
    else if path = p.transcoder then
      (.started (transcodeRun p.transcode),
        set { p with transcodeArguments := some arguments } own,
        written p.transcode arguments disk)
    else if !path.toList.contains '/' then (.missing, own, disk)
    else
      match disk.look path with
      | .error .notFound => (.missing, own, disk)
      | .error e => (.refused e, own, disk)
      | .ok _ => (.refused .permissionDenied, own, disk)

end Programs

end Montage.Rehearsal
