import Montage.Compose.Job
import Montage.Report.Failure

/-!
# Reports of results

Results as documents, with numbers as text so that none is lost.
-/

namespace Montage

open Document

def Scalar.report (x : Scalar) : Document := .text x.text

def Graph.report (g : Graph) : Document :=
  .table [("inputs", .texts g.inputs), ("filter_graph", .text g.text),
    ("video_label", .text g.videoLabel), ("audio_label", .optional .text g.audioLabel),
    ("streams", .nat g.streams), ("duration_secs", g.duration.report),
    ("concat_nodes", .nat g.joins)]

def Edit.report (e : Edit) : Document :=
  let arguments : List Document := match e with
    | .colorAdjust b => [b.brightness.report, b.contrast.report, b.saturation.report]
    | .rotate turns => [.int turns]
    | .overlay image r => [.text image, .nat r.top, .nat r.left, .nat r.width, .nat r.height]
    | .trim start duration => [start.report, duration.report]
    | .silentAudio => []
    | .targetGeometry g => [.nat g.width, .nat g.height]
  .list [.text e.name, .list arguments]

def Pipeline.report (p : Pipeline) : Document :=
  .table [("input", .optional .text (p.bound.map (·.input))),
    ("ops", .list ((p.bound.elim [] (·.edits)).map Edit.report)),
    ("is_master", .bool p.isMaster),
    ("geometry", .list [.nat p.frame.width, .nat p.frame.height])]

def Document.replaced (d : Document) (key : String) (value : Document) : Document :=
  match d with
  | .table entries => .table (setEntry key value entries)
  | d => d

def MediaInfo.report (m : MediaInfo) : Document :=
  let d := (m.toDocument.replaced "duration_secs" m.duration.report).replaced "video_fps"
    (.optional Scalar.report m.frameRate)
  (d.replaced "has_video" (.bool m.hasVideo)).replaced "has_audio" (.bool m.hasAudio)

def PreparedVideo.report (v : PreparedVideo) : Document :=
  v.toDocument.replaced "duration_secs" v.duration.report

def Progress.report (p : Progress) : Document :=
  .table [("percent", p.percent.report), ("time_secs", p.time.report),
    ("duration_secs", .optional Scalar.report p.total), ("speed", .optional .text p.speed)]

def Mailbox.report (m : Mailbox) : Document := .list (m.messages.map Progress.report)

def RunReport.report (r : RunReport) : Document :=
  .table [("exit_code", .optional .int r.exitCode), ("stderr", .text r.diagnostics)]

def RenderResult.report (r : RenderResult) : Document :=
  .table [("output_path", .text r.output), ("output_size_bytes", .nat r.sizeBytes),
    ("streams", .nat r.streams), ("duration_secs", r.duration.report)]

def StoredArtifact.report (a : StoredArtifact) : Document :=
  .table [("url", .text a.url), ("size_bytes", .nat a.sizeBytes),
    ("checksum", .optional .text a.checksum)]

end Montage
