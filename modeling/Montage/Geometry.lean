import Montage.Render.Error
import Montage.Document.Fields

/-!
# Frame sizes and places in a frame
-/

namespace Montage

/-- A frame size in pixels. -/
structure Geometry where
  width : Nat
  height : Nat
  deriving DecidableEq, Repr, Inhabited

namespace Geometry

/-- The frame turned by a quarter. -/
def transposed (g : Geometry) : Geometry := ⟨g.height, g.width⟩

def hasArea (g : Geometry) : Bool := 0 < g.width && 0 < g.height

def fitsIn (g outer : Geometry) : Bool := g.width ≤ outer.width && g.height ≤ outer.height

def text (g : Geometry) : String := toString g.width ++ "x" ++ toString g.height

def validate (g : Geometry) : Except RenderError Geometry :=
  if g.hasArea then .ok g
  else .error (.invalidArgument ("geometry must be non-zero, got " ++ g.text))

open Document in
def fields : FieldReader Geometry := do
  let width ← field "width" (readNat 32)
  let height ← field "height" (readNat 32)
  pure ⟨width, height⟩

def entries (g : Geometry) : List (String × Document) :=
  [("width", .nat g.width), ("height", .nat g.height)]

end Geometry

/-- A rectangle in a frame, by its upper left corner and its size. -/
structure Region where
  top : Nat
  left : Nat
  width : Nat
  height : Nat
  deriving DecidableEq, Repr, Inhabited

namespace Region

def hasArea (r : Region) : Bool := 0 < r.width && 0 < r.height

def validate (r : Region) : Except RenderError Region :=
  if r.hasArea then .ok r
  else .error <| .invalidArgument <|
    "overlay region must have a non-zero area, got " ++ (Geometry.mk r.width r.height).text

open Document in
def read : Reader Region :=
  readRecord .refused do
    let top ← field "top" (readNat 32)
    let left ← field "left" (readNat 32)
    let width ← field "width" (readNat 32)
    let height ← field "height" (readNat 32)
    pure ⟨top, left, width, height⟩

def toDocument (r : Region) : Document :=
  .table [("top", .nat r.top), ("left", .nat r.left), ("width", .nat r.width),
    ("height", .nat r.height)]

end Region

end Montage
