import Montage.Edit

/-!
# Filters

What one filter of a video chain does, and its text in the transcoder's filter
language. Seconds and balances have three decimals.
-/

namespace Montage

/-- A net rotation that is not a full turn. -/
inductive Turn
  | quarter
  | half
  | threeQuarters
  deriving DecidableEq, Repr

namespace Turn

/-- The rotation that a number of clockwise quarter turns amounts to. -/
def ofQuarters? (n : Int) : Option Turn :=
  match (n % 4).toNat with
  | 1 => some quarter
  | 2 => some half
  | 3 => some threeQuarters
  | _ => none

def quarters : Turn → Nat
  | quarter => 1
  | half => 2
  | threeQuarters => 3

def transposes : Turn → Bool
  | quarter | threeQuarters => true
  | half => false

def text : Turn → String
  | quarter => "transpose=1"
  | half => "hflip,vflip"
  | threeQuarters => "transpose=2"

end Turn

structure Window where
  start : Scalar
  duration : Scalar
  deriving DecidableEq

namespace Window

def options (w : Window) : String :=
  "start=" ++ w.start.fixed 3 ++ ":duration=" ++ w.duration.fixed 3

end Window

inductive Filter
  /-- Scales into the frame and pads up to it. -/
  | normalize (frame : Geometry)
  /-- Pads up to the frame without scaling. -/
  | letterbox (frame : Geometry)
  | turn (t : Turn)
  | balance (b : ColorBalance)
  | cut (w : Window)
  deriving DecidableEq

namespace Filter

def size (g : Geometry) : String := toString g.width ++ ":" ++ toString g.height

/-- Padding that centres the picture, with square pixels. -/
def padText (g : Geometry) : String := "pad=" ++ size g ++ ":(ow-iw)/2:(oh-ih)/2,setsar=1"

def text : Filter → String
  | normalize g => "scale=" ++ size g ++ ":force_original_aspect_ratio=decrease," ++ padText g
  | letterbox g => padText g
  | turn t => t.text
  | balance b =>
    "eq=brightness=" ++ b.brightness.fixed 3 ++ ":contrast=" ++ b.contrast.fixed 3
      ++ ":saturation=" ++ b.saturation.fixed 3
  | cut w => "trim=" ++ w.options ++ ",setpts=PTS-STARTPTS"

/-- The frame size after the filter, none when the frame is too large to be padded. -/
def frameAfter? (before : Geometry) : Filter → Option Geometry
  | normalize g => some g
  | letterbox g => if before.fitsIn g then some g else none
  | turn t => some (if t.transposes then before.transposed else before)
  | balance _ | cut _ => some before

end Filter

/-- Runs a frame size through a chain of filters. -/
def framesThrough? (before : Geometry) (fs : List Filter) : Option Geometry :=
  fs.foldlM Filter.frameAfter? before

end Montage
