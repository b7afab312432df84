import Montage.Compose.Error
import Montage.Geometry
import Montage.Text.Blank

/-!
# Scenarios

What a job makes of its sources: a clip with a banner after it, a clip with a
cover image on it, or a short window of a clip. A scenario knows which files it
needs and whether its parameters make sense.
-/

namespace Montage

inductive Scenario
  | bannerAppend (sourceUrl bannerUrl : String)
  | coverWithImage (sourceUrl imageUrl : String) (region : Region) (maxDuration : Scalar)
  | shortify (sourceUrl : String) (start maxDuration : Scalar) (quarterTurns : Int)
  deriving DecidableEq

structure Source where
  /-- A short name for its part in the scenario, used in the file's name. -/
  role : String
  url : String
  /-- The extension of the file when the link has none. -/
  fallbackExtension : String
  deriving DecidableEq, Repr

namespace Scenario

def name : Scenario → String
  | bannerAppend _ _ => "banner_append"
  | coverWithImage _ _ _ _ => "cover_with_image"
  | shortify _ _ _ _ => "shortify"

/-- The files to download, in the order in which the scenario uses them. -/
def sources : Scenario → List Source
  | bannerAppend source banner => [⟨"source", source, "mp4"⟩, ⟨"banner", banner, "mp4"⟩]
  | coverWithImage source image _ _ => [⟨"source", source, "mp4"⟩, ⟨"cover", image, "png"⟩]
  | shortify source _ _ _ => [⟨"source", source, "mp4"⟩]

/-- The fault of a longest duration that is not a positive number. -/
def durationFault? (d : Scalar) : Option String :=
  if !d.isFinite || d.le .zero then some ("max_duration_secs must be > 0, got " ++ d.text)
  else none

def startFault? (s : Scalar) : Option String :=
  if !s.isFinite || s.lt .zero then some ("start_secs must be >= 0, got " ++ s.text)
  else none

/-- The first fault of the parameters other than links. -/
def parameterFault? : Scenario → Option String
  | bannerAppend _ _ => none
  | coverWithImage _ _ region maxDuration =>
    durationFault? maxDuration <|>
      (if region.hasArea then none else some "cover region must have a non-zero area")
  | shortify _ start maxDuration _ => durationFault? maxDuration <|> startFault? start

/-- The first fault of a scenario; links are looked at first. -/
def fault? (s : Scenario) : Option String :=
  (s.sources.findSome? fun src =>
    if Text.trim src.url = "" then some (src.role ++ " url is empty") else none)
    <|> s.parameterFault?

/-! ## As documents -/

open Document

def readKind : String → Reader Scenario
  | "banner_append" => readRecord .refused do
    let sourceUrl ← field "source_url" readText
    let bannerUrl ← field "banner_url" readText
    pure (bannerAppend sourceUrl bannerUrl)
  | "cover_with_image" => readRecord .refused do
    let sourceUrl ← field "source_url" readText
    let imageUrl ← field "image_url" readText
    let region ← field "region" Region.read
    let maxDuration ← field "max_duration_secs" (readScalar .double)
    pure (coverWithImage sourceUrl imageUrl region maxDuration)
  | "shortify" => readRecord .refused do
    let sourceUrl ← field "source_url" readText
    let start ← defaultField "start_secs" .zero (readScalar .double)
    let maxDuration ← field "max_duration_secs" (readScalar .double)
    let quarterTurns ← defaultField "quarter_turns" 0 (readSigned 32)
    pure (shortify sourceUrl start maxDuration quarterTurns)
  | _ => fun _ => none

def read : Reader Scenario := readTagged "kind" readKind

def entries : Scenario → List (String × Document)
  | bannerAppend source banner => [("source_url", .text source), ("banner_url", .text banner)]
  | coverWithImage source image region maxDuration =>
    [("source_url", .text source), ("image_url", .text image), ("region", region.toDocument),
      ("max_duration_secs", .number maxDuration)]
  | shortify source start maxDuration turns =>
    [("source_url", .text source), ("start_secs", .number start),
      ("max_duration_secs", .number maxDuration), ("quarter_turns", .int turns)]

def toDocument (s : Scenario) : Document := .table (("kind", .text s.name) :: s.entries)

end Scenario

end Montage
