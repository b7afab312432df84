import Montage.Media.Probe

/-!
# A rehearsal of probing

A probe over made-up files: some are known, some cannot be probed, and every other
file is the same short clip.
-/

namespace Montage.Rehearsal

structure Media where
  known : List (List String × MediaInfo) := []
  failing : List (List String) := []

namespace Media

/-- A portrait clip with sound. -/
def clip (path : String) (duration : Scalar) : MediaInfo where
  path := path
  sizeBytes := 5 * 1024 * 1024
  duration := duration
  format := "mov"
  videoCodec := some "h264"
  width := some 1080
  height := some 1920
  frameRate := some 30
  audioCodec := some "aac"
  sampleRate := some 44100
  channels := some 2

def clipWith (path : String) (duration : Scalar) (hasAudio : Bool) : MediaInfo :=
  let info := clip path duration
  if hasAudio then info
  else { info with audioCodec := none, sampleRate := none, channels := none }

def setInfo (m : Media) (path : String) (info : MediaInfo) : Media :=
  { m with known := (Path.key path, info) :: m.known }

def fail (m : Media) (path : String) : Media := { m with failing := Path.key path :: m.failing }

def inspect (m : Media) (path : String) : Except RenderError MediaInfo :=
  if m.failing.contains (Path.key path) then .error (.probeFailed path "mock probe failure")
  else .ok ((m.known.lookup (Path.key path)).getD (clip path 10))

/-- The probe over the files of a state; `nameOf` gives the name under which a path is known. -/
def probe (get : σ → Media) (nameOf : String → String) : Probe σ where
  name := "mock"
  inspect path own _ := ((get own).inspect (nameOf path), own)

end Media

end Montage.Rehearsal
