import Montage.Document.Json.Reader
import Montage.Media.Info
import Montage.Number.Decimal
import Montage.Number.Word

/-!
# Probing reports

The report of the probing program: a format and a list of streams. Of every kind
of stream the first one counts. Numbers come as text, and one that cannot be read
counts as absent.
-/

namespace Montage

structure ProbedFormat where
  name : String
  duration : Option String
  size : Option String
  deriving DecidableEq, Repr

structure ProbedStream where
  kind : String
  codec : Option String
  sampleRate : Option String
  channels : Option Nat
  width : Option Nat
  height : Option Nat
  frameRate : Option String
  duration : Option String
  deriving DecidableEq, Repr

structure ProbeReport where
  format : ProbedFormat
  streams : List ProbedStream
  deriving DecidableEq, Repr

namespace ProbeReport

open Document

def readFormat : Reader ProbedFormat :=
  readRecord .refused do
    let name ← field "format_name" readText
    let duration ← maybeField "duration" readText
    let size ← maybeField "size" readText
    pure { name, duration, size }

def readStream : Reader ProbedStream :=
  readRecord .refused do
    let kind ← field "codec_type" readText
    let codec ← maybeField "codec_name" readText
    let sampleRate ← maybeField "sample_rate" readText
    let channels ← maybeField "channels" (readNat 8)
    let width ← maybeField "width" (readNat 32)
    let height ← maybeField "height" (readNat 32)
    let frameRate ← maybeField "r_frame_rate" readText
    let duration ← maybeField "duration" readText
    pure { kind, codec, sampleRate, channels, width, height, frameRate, duration }

def read : Reader ProbeReport :=
  readRecord .refused do
    let format ← field "format" readFormat
    let streams ← defaultField "streams" [] (readList readStream)
    pure { format, streams }

def first? (r : ProbeReport) (kind : String) : Option ProbedStream :=
  r.streams.find? (·.kind = kind)

/-- A frame rate, as a number or as a quotient with a positive denominator. -/
def frameRate? (s : String) : Option Scalar :=
  let cs := s.toList
  match cs.dropWhile (· ≠ '/') with
  | [] => Scalar.ofText? .single s
  | _ :: den => do
    let n ← Scalar.ofText? .single (String.ofList (cs.takeWhile (· ≠ '/')))
    let d ← Scalar.ofText? .single (String.ofList den)
    if Scalar.zero.lt d then some (.div .single n d) else none

/-- The length of the file. Some containers give it for the pictures only. -/
def duration (r : ProbeReport) : Scalar :=
  ((r.format.duration <|> (r.first? "video").bind (·.duration)).bind
    (Scalar.ofText? .double)).getD .zero

def size (r : ProbeReport) : Nat := (r.format.size.bind (natOfText? (Word.count 64))).getD 0

def info (r : ProbeReport) (path : String) : MediaInfo :=
  let video := r.first? "video"
  let audio := r.first? "audio"
  { path
    sizeBytes := r.size
    duration := r.duration
    format := String.ofList (r.format.name.toList.takeWhile (· ≠ ','))
    videoCodec := video.bind (·.codec)
    width := video.bind (·.width)
    height := video.bind (·.height)
    frameRate := (video.bind (·.frameRate)).bind frameRate?
    audioCodec := audio.bind (·.codec)
    sampleRate := (audio.bind (·.sampleRate)).bind (natOfText? (Word.count 32))
    channels := audio.bind (·.channels) }

def ofJson (s : String) : Option ProbeReport := Json.read (Text.encode s) >>= read

end ProbeReport

end Montage
