import Montage.Transcoder.Basic

/-!
# A rehearsal of transcoding

A transcoder that fails as it is told to and otherwise writes a file of no
consequence.
-/

namespace Montage.Rehearsal

structure Transcoding where
  /-- Failures of the next runs. -/
  errors : List RenderError := []
  writesOutput : Bool := true
  /-- Whether a run that fails leaves a piece of a file behind. -/
  writesPartial : Bool := false
  /-- How long a run takes in milliseconds. -/
  delay : Nat := 0

namespace Transcoding

/-- Writes to the file named by the last argument. -/
def writeTo (arguments : List String) (content : String) (disk : Disk) :
    Except RenderError Unit × Disk :=
  match arguments.getLast? with
  | none => (.ok (), disk)
  | some path =>
    match disk.write path (Text.encode content) with
    | .ok disk => (.ok (), disk)
    | .error e => (.error (.io e), disk)

/-- One run, which takes the next failure away. -/
def perform (t : Transcoding) (arguments : List String) (disk : Disk) :
    Except RenderError RunReport × Transcoding × Disk :=
  match t.errors with
  | e :: rest =>
    let t := { t with errors := rest }
    if t.writesPartial then
      match writeTo arguments "partial" disk with
      | (.ok (), disk) => (.error e, t, disk)
      | (.error e, disk) => (.error e, t, disk)
    else (.error e, t, disk)
  | [] =>
    if t.writesOutput then
      match writeTo arguments "mock render output" disk with
      | (.ok (), disk) => (.ok ⟨some 0, ""⟩, t, disk)
      | (.error e, disk) => (.error e, t, disk)
    else (.ok ⟨some 0, ""⟩, t, disk)

/-- The only message of a run. -/
def finished (total : Option Scalar) : Progress := ⟨100, total.getD .zero, total, some "1.0x"⟩

/-- The transcoder over a part of a state, which may or may not tell of its progress. -/
def transcoder (name : String) (tells : Bool) (get : σ → Transcoding)
    (set : Transcoding → σ → σ) : Transcoder σ where
  name := name
  run arguments watch own disk :=
    let t := get own
    let (outcome, after, disk) := t.perform arguments disk
    let watch := watch.map fun w =>
      if tells && outcome.isOk then { w with mailbox := w.mailbox.offer (finished w.total) } else w
    ⟨outcome, watch, t.delay, set after own, disk⟩

end Transcoding

end Montage.Rehearsal
