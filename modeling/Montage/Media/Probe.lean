import Montage.Media.Report
import Montage.Program
import Montage.Render.Error
import Montage.Text.Blank

/-!
# Probes

A probe looks at a media file without changing it. Length and presence of sound
are read off a full inspection, each by one of its own.
-/

namespace Montage

structure Probe (σ : Type) where
  name : String
  inspect : String → σ → Disk → Except RenderError MediaInfo × σ

namespace Probe

/-- The length of a file in seconds. It has to have pictures. -/
def duration (p : Probe σ) (path : String) (own : σ) (disk : Disk) :
    Except RenderError Scalar × σ :=
  match p.inspect path own disk with
  | (.error e, own) => (.error e, own)
  | (.ok info, own) =>
    (if info.hasVideo then .ok info.duration
      else .error (.probeFailed path "no video stream"), own)

def hasAudio (p : Probe σ) (path : String) (own : σ) (disk : Disk) :
    Except RenderError Bool × σ :=
  match p.inspect path own disk with
  | (.error e, own) => (.error e, own)
  | (.ok info, own) => (.ok info.hasAudio, own)

/-! ## Probing by a program -/

def programFlags : List String :=
  ["-v", "quiet", "-print_format", "json", "-show_format", "-show_streams"]

/-- The facts that a finished probing program gives. -/
def infoOf (path : String) (run : ChildRun) : Except RenderError MediaInfo :=
  let failed (code : Option Int) : Except RenderError MediaInfo :=
    .error <| .probeFailed path <| "ffprobe exited with " ++ RenderError.showCode code ++ ": "
      ++ Text.trim (Text.decodeLossy (run.errors.flatMap (·.2)))
  match run.ending with
  | .exited code =>
    if code = 0 then
      match ProbeReport.ofJson (Text.decodeLossy run.output) with
      | some report => .ok (report.info path)
      | none => .error (.probeFailed path "unparseable ffprobe output")
    else failed (some code)
  | .killed | .hanging => failed none

/-- The probe that starts the program `program`. `noteFailure` is told of every file that could
not be probed, but not of a program that could not be started. -/
def ofProgram (launch : Launcher σ) (noteFailure : σ → σ) (program : String) : Probe σ where
  name := "ffprobe"
  inspect path own disk :=
    if !disk.has path then (.error (.probeFailed path "file not found"), noteFailure own)
    else
      match launch program (programFlags ++ [path]) own disk with
      | (.missing, own, _) => (.error (.binaryNotFound program), own)
      | (.refused e, own, _) => (.error (.io e), own)
      | (.started run, own, _) =>
        match infoOf path run with
        | .ok info => (.ok info, own)
        | .error e => (.error e, noteFailure own)

end Probe

end Montage
