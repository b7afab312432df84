import Montage.Geometry

/-!
# Edits

One step in the treatment of a source: colour, rotation, an image on top, a cut
in time, silence, another frame size. Edits are applied in the order in which
they were appended.
-/

namespace Montage

/-- Colour correction, in single precision. -/
structure ColorBalance where
  brightness : Scalar
  contrast : Scalar
  saturation : Scalar
  deriving DecidableEq

namespace ColorBalance

def hundredths (n : Nat) : Scalar := Decimal.toScalar .single false ⟨n, -2⟩

/-- A little brighter, with more contrast and colour. -/
def default : ColorBalance := ⟨hundredths 3, hundredths 105, hundredths 115⟩

end ColorBalance

inductive Edit
  | colorAdjust (balance : ColorBalance)
  /-- Clockwise quarter turns. -/
  | rotate (quarterTurns : Int)
  | overlay (image : String) (region : Region)
  | trim (start duration : Scalar)
  | silentAudio
  | targetGeometry (geometry : Geometry)
  deriving DecidableEq

namespace Edit

def name : Edit → String
  | colorAdjust _ => "color_adjust"
  | rotate _ => "rotate"
  | overlay _ _ => "overlay"
  | trim _ _ => "trim"
  | silentAudio => "silent_audio"
  | targetGeometry _ => "target_geometry"

/-- A cut from `start` on for `duration` seconds, unless the window is empty or not finite. -/
def trim? (start duration : Scalar) : Except RenderError Edit :=
  if !start.isFinite || start.lt .zero then
    .error (.invalidArgument ("trim start must be >= 0, got " ++ start.text))
  else if !duration.isFinite || duration.le .zero then
    .error (.invalidArgument ("trim duration must be > 0, got " ++ duration.text))
  else .ok (trim start duration)

/-! ## As documents -/

open Document

def readBalance : Reader ColorBalance :=
  readRecord .refused do
    let brightness ← field "brightness" (readScalar .single)
    let contrast ← field "contrast" (readScalar .single)
    let saturation ← field "saturation" (readScalar .single)
    pure ⟨brightness, contrast, saturation⟩

/-- Quarter turns fit in 32 bits. -/
def readTurns : Reader Int := readSigned 32

def readKind : String → Reader Edit
  | "color_adjust" => fun d => (readBalance d).map colorAdjust
  | "rotate" => readRecord .refused do
    let turns ← field "quarter_turns" readTurns
    pure (rotate turns)
  | "overlay" => readRecord .refused do
    let image ← field "image" readText
    let region ← field "region" Region.read
    pure (overlay image region)
  | "trim" => readRecord .refused do
    let start ← field "start_secs" (readScalar .double)
    let duration ← field "duration_secs" (readScalar .double)
    pure (trim start duration)
  | "silent_audio" => readBare silentAudio
  | "target_geometry" => fun d => (readRecord .refused Geometry.fields d).map targetGeometry
  | _ => fun _ => none

def read : Reader Edit := readTagged "op" readKind

def balanceEntries (b : ColorBalance) : List (String × Document) :=
  [("brightness", .singleNumber b.brightness), ("contrast", .singleNumber b.contrast),
    ("saturation", .singleNumber b.saturation)]

def entries : Edit → List (String × Document)
  | colorAdjust b => balanceEntries b
  | rotate turns => [("quarter_turns", .int turns)]
  | overlay image region => [("image", .text image), ("region", region.toDocument)]
  | trim start duration => [("start_secs", .number start), ("duration_secs", .number duration)]
  | silentAudio => []
  | targetGeometry g => g.entries

def toDocument (e : Edit) : Document := .table (("op", .text e.name) :: e.entries)

end Edit

end Montage
