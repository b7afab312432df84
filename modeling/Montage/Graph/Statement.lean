import Montage.Graph.Filter

/-!
# Pads and statements

A statement of a filter graph reads labelled pads, applies filters and writes one
new pad. Pads are kept by what they carry; a label is only their text, and the
filter language separates statements by semicolons.
-/

namespace Montage

inductive Pad
  /-- The pictures of an input file. -/
  | inputVideo (input : Nat)
  | inputAudio (input : Nat)
  /-- A piece of a stream's picture chain that goes on. -/
  | segment (stream index : Nat)
  /-- A scaled image to be laid over a piece. -/
  | image (stream index : Nat)
  /-- The end of a stream's picture chain. -/
  | picture (stream : Nat)
  | sound (stream : Nat)
  /-- The pictures of all streams, one after the other. -/
  | joinedPicture
  | joinedSound
  deriving DecidableEq, Repr

namespace Pad

def label : Pad → String
  | inputVideo k => toString k ++ ":v"
  | inputAudio k => toString k ++ ":a"
  | segment s i => "v" ++ toString s ++ "_" ++ toString i
  | image s i => "ov" ++ toString s ++ "_" ++ toString i
  | picture s => "v" ++ toString s
  | sound s => "a" ++ toString s
  | joinedPicture => "outv"
  | joinedSound => "outa"

def text (p : Pad) : String := "[" ++ p.label ++ "]"

def isInput : Pad → Bool
  | inputVideo _ | inputAudio _ => true
  | _ => false

end Pad

inductive Statement
  /-- A piece of a picture chain. -/
  | chain (source : Pad) (filters : List Filter) (target : Pad)
  /-- Scales the image of an input to its place. -/
  | fit (input width height : Nat) (target : Pad)
  /-- Lays an image over a picture. -/
  | overlay (base image : Pad) (left top : Nat) (target : Pad)
  /-- The sound of an input, cut like its pictures. -/
  | sound (input : Nat) (cuts : List Window) (target : Pad)
  /-- Generated silence. -/
  | silence (length : Scalar) (target : Pad)
  /-- Puts streams one after the other, each with a picture and a sound. -/
  | join (streams : List (Pad × Pad))
  deriving DecidableEq

namespace Statement

/-- All sound leaves in one format. -/
def soundFormat : String := "aformat=sample_rates=44100:channel_layouts=stereo"

def cutText (w : Window) : String := "atrim=" ++ w.options ++ ",asetpts=PTS-STARTPTS"

def reads : Statement → List Pad
  | chain source _ _ => [source]
  | fit input _ _ _ => [.inputVideo input]
  | overlay base image _ _ _ => [base, image]
  | sound input _ _ => [.inputAudio input]
  | silence _ _ => []
  | join streams => streams.flatMap fun s => [s.1, s.2]

def writes : Statement → List Pad
  | chain _ _ target | fit _ _ _ target | overlay _ _ _ _ target | sound _ _ target
  | silence _ target => [target]
  | join _ => [.joinedPicture, .joinedSound]

/-- The text between the pads. -/
def body : Statement → String
  | chain _ filters _ => ",".intercalate (filters.map Filter.text)
  | fit _ width height _ => "scale=" ++ toString width ++ ":" ++ toString height
  | overlay _ _ left top _ => "overlay=x=" ++ toString left ++ ":y=" ++ toString top
  | sound _ cuts _ => ",".intercalate (cuts.map cutText ++ [soundFormat])
  | silence length _ =>
    "anullsrc=channel_layout=stereo:sample_rate=44100,atrim=duration=" ++ length.fixed 3 ++ ","
      ++ soundFormat
  | join streams => "concat=n=" ++ toString streams.length ++ ":v=1:a=1"

def text (s : Statement) : String :=
  String.join (s.reads.map Pad.text) ++ s.body ++ String.join (s.writes.map Pad.text)

end Statement

end Montage
