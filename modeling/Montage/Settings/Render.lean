import Montage.Document.Fields

/-!
# Settings of the render engine
-/

namespace Montage

structure EncodingSettings where
  videoCodec : String := "libx264"
  preset : String := "veryfast"
  crf : Nat := 23
  pixelFormat : String := "yuv420p"
  audioCodec : String := "aac"
  audioBitrateKbps : Nat := 128
  deriving DecidableEq, Repr

structure RenderSettings where
  transcoder : String := "ffmpeg"
  prober : String := "ffprobe"
  timeoutSecs : Nat := 900
  logLevel : String := "error"
  /-- Arguments placed before the output path. -/
  extraArguments : List String := []
  width : Nat := 1080
  height : Nat := 1920
  encoding : EncodingSettings := {}
  deriving DecidableEq, Repr

namespace EncodingSettings

/-- The encoder flags for a file with or without sound. -/
def arguments (e : EncodingSettings) (withAudio : Bool) : List String :=
  ["-c:v", e.videoCodec, "-preset", e.preset, "-crf", toString e.crf, "-pix_fmt", e.pixelFormat]
    ++ (if withAudio then ["-c:a", e.audioCodec, "-b:a", toString e.audioBitrateKbps ++ "k"]
      else ["-an"])
    ++ ["-movflags", "+faststart"]

open Document in
def read (surplus : Surplus) : Reader EncodingSettings :=
  readRecord surplus do
    let d : EncodingSettings := {}
    let videoCodec ← defaultField "video_codec" d.videoCodec readText
    let preset ← defaultField "preset" d.preset readText
    let crf ← defaultField "crf" d.crf (readNat 8)
    let pixelFormat ← defaultField "pixel_format" d.pixelFormat readText
    let audioCodec ← defaultField "audio_codec" d.audioCodec readText
    let audioBitrateKbps ← defaultField "audio_bitrate_kbps" d.audioBitrateKbps (readNat 32)
    pure { videoCodec, preset, crf, pixelFormat, audioCodec, audioBitrateKbps }

def toDocument (e : EncodingSettings) : Document :=
  .table [("video_codec", .text e.videoCodec), ("preset", .text e.preset), ("crf", .nat e.crf),
    ("pixel_format", .text e.pixelFormat), ("audio_codec", .text e.audioCodec),
    ("audio_bitrate_kbps", .nat e.audioBitrateKbps)]

end EncodingSettings

namespace RenderSettings

open Document in
def read (surplus : Surplus) : Reader RenderSettings :=
  readRecord surplus do
    let d : RenderSettings := {}
    let transcoder ← defaultField "ffmpeg_path" d.transcoder readText
    let prober ← defaultField "ffprobe_path" d.prober readText
    let timeoutSecs ← defaultField "timeout_secs" d.timeoutSecs (readNat 64)
    let logLevel ← defaultField "ffmpeg_log_level" d.logLevel readText
    let extraArguments ← defaultField "extra_ffmpeg_args" d.extraArguments (readList readText)
    let width ← defaultField "width" d.width (readNat 32)
    let height ← defaultField "height" d.height (readNat 32)
    let encoding ← defaultField "encoding" d.encoding (EncodingSettings.read surplus)
    pure { transcoder, prober, timeoutSecs, logLevel, extraArguments, width, height, encoding }

def toDocument (r : RenderSettings) : Document :=
  .table [("ffmpeg_path", .text r.transcoder), ("ffprobe_path", .text r.prober),
    ("timeout_secs", .nat r.timeoutSecs), ("ffmpeg_log_level", .text r.logLevel),
    ("extra_ffmpeg_args", .texts r.extraArguments), ("width", .nat r.width),
    ("height", .nat r.height), ("encoding", r.encoding.toDocument)]

end RenderSettings

end Montage
