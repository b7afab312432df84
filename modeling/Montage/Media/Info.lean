import Montage.Document.Fields

/-!
# Media facts

What is known of a media file: its container, and the first stream of pictures
and of sound in it.
-/

namespace Montage

structure MediaInfo where
  path : String
  sizeBytes : Nat
  /-- Length in seconds, zero when unknown. -/
  duration : Scalar
  /-- Name of the container format. -/
  format : String
  videoCodec : Option String
  width : Option Nat
  height : Option Nat
  /-- Frames per second, in single precision. -/
  frameRate : Option Scalar
  audioCodec : Option String
  sampleRate : Option Nat
  channels : Option Nat
  deriving DecidableEq

namespace MediaInfo

/-- A file has pictures when a codec for them is known. -/
def hasVideo (m : MediaInfo) : Bool := m.videoCodec.isSome

def hasAudio (m : MediaInfo) : Bool := m.audioCodec.isSome

open Document in
def read : Reader MediaInfo :=
  readRecord .refused do
    let path ← field "path" readText
    let sizeBytes ← field "size_bytes" (readNat 64)
    let duration ← field "duration_secs" (readScalar .double)
    let format ← field "format" readText
    let videoCodec ← maybeField "video_codec" readText
    let width ← maybeField "video_width" (readNat 32)
    let height ← maybeField "video_height" (readNat 32)
    let frameRate ← maybeField "video_fps" (readScalar .single)
    let audioCodec ← maybeField "audio_codec" readText
    let sampleRate ← maybeField "audio_sample_rate" (readNat 32)
    let channels ← maybeField "audio_channels" (readNat 8)
    pure { path, sizeBytes, duration, format, videoCodec, width, height, frameRate, audioCodec,
           sampleRate, channels }

def toDocument (m : MediaInfo) : Document :=
  .table [("path", .text m.path), ("size_bytes", .nat m.sizeBytes),
    ("duration_secs", .number m.duration), ("format", .text m.format),
    ("video_codec", .optional .text m.videoCodec), ("video_width", .optional .nat m.width),
    ("video_height", .optional .nat m.height),
    ("video_fps", .optional .singleNumber m.frameRate),
    ("audio_codec", .optional .text m.audioCodec),
    ("audio_sample_rate", .optional .nat m.sampleRate),
    ("audio_channels", .optional .nat m.channels)]

end MediaInfo

end Montage
