import Montage.Proofs.Graph.Trail

/-!
# Streams leave at one size

The books of a chain keep the size of its frame. It is the size that the filters
written so far give, whatever the source, once the waiting rotations are written.
So the last filter of a stream is chosen for the size its picture really has.
-/

namespace Montage

theorem framesThrough?_append (before : Geometry) (a b : List Filter) :
    framesThrough? before (a ++ b) = (framesThrough? before a).bind fun g => framesThrough? g b :=
  List.foldlM_append ..

def filtersOf {ι : Type} (steps : List (Step ι)) : List Filter := steps.filterMap Step.filter?

@[simp] theorem filtersOf_append {ι : Type} (a b : List (Step ι)) :
    filtersOf (a ++ b) = filtersOf a ++ filtersOf b := List.filterMap_append ..

@[simp] theorem filtersOf_numbered {ι : Type} (next : Nat) (steps : List (Step ι)) :
    filtersOf (numbered next steps) = filtersOf steps := by
  induction steps generalizing next with
  | nil => rfl
  | cons s steps ih =>
    cases s with
    | filter f => exact congrArg _ (ih next)
    | overlay image region => exact ih (next + 1)

/-! ## What the books say of the frame -/

namespace Books

theorem frames_turnSteps (b : Books) :
    framesThrough? b.frame (filtersOf (turnSteps (ι := String) b.turns)) = some b.flush.frame := by
  unfold turnSteps flush
  cases Turn.ofQuarters? b.turns with
  | none => rfl
  | some t => rfl

theorem frames_written (p : Precision) (b : Books) (e : Edit) :
    framesThrough? b.frame (filtersOf (e.written b.turns)) = some (b.note p e).frame := by
  have behind : ∀ steps : List (Step String),
      framesThrough? b.frame (filtersOf (turnSteps b.turns ++ steps)) =
        framesThrough? b.flush.frame (filtersOf steps) := by
    intro steps
    rw [filtersOf_append, framesThrough?_append, frames_turnSteps, Option.bind_some]
  cases e with
  | rotate q => rfl
  | _ => exact behind _

theorem frames_spell (p : Precision) (b : Books) (es : List Edit) :
    framesThrough? b.frame (filtersOf (Edit.spell b.turns es)) =
      some (es.foldl (note p) b).flush.frame := by
  induction es generalizing b with
  | nil => exact b.frames_turnSteps
  | cons e es ih =>
    rw [← b.written_append_spell p, filtersOf_append, framesThrough?_append, frames_written,
      Option.bind_some, ih, List.foldl_cons]

end Books

theorem Stream.frames_stepsBeforeFix (p : Precision) (s : Stream) (frame source : Geometry) :
    framesThrough? source (filtersOf (s.stepsBeforeFix frame)) = some (s.books p frame).frame := by
  rw [stepsBeforeFix, ← Edit.spell_zero]
  exact Books.frames_spell p (.opened frame s.duration) s.edits

theorem frames_sizeFix (before frame : Geometry) :
    framesThrough? before (sizeFix before frame) = some frame := by
  unfold sizeFix
  by_cases same : before = frame
  · rw [if_pos same, same]
    rfl
  · rw [if_neg same]
    by_cases fits : before.fitsIn frame
    · rw [if_pos fits]
      simp [framesThrough?, Filter.frameAfter?, fits]
    · rw [if_neg fits]
      rfl

/-- Where a frame runs through filters, every bare padding meets a frame that it can hold. -/
theorem fitsIn_of_letterbox {source size target : Geometry} {a b : List Filter}
    (h : framesThrough? source (a ++ .letterbox target :: b) = some size) :
    ∃ held, framesThrough? source a = some held ∧ held.fitsIn target := by
  rw [framesThrough?_append, Option.bind_eq_some_iff] at h
  obtain ⟨held, ha, h⟩ := h
  refine ⟨held, ha, ?_⟩
  by_cases fits : held.fitsIn target
  · exact fits
  · simp [framesThrough?, Filter.frameAfter?, fits] at h

structure Sized (source frame : Geometry) (steps : List (Step Nat)) (fix : List Filter) : Prop where
  reached : framesThrough? source (filtersOf steps ++ fix) = some frame
  padded : ∀ a target b, filtersOf steps ++ fix = a ++ .letterbox target :: b →
    ∃ held, framesThrough? source a = some held ∧ held.fitsIn target
  kept : ∀ size, framesThrough? source (filtersOf steps) = some size → size.fitsIn frame →
    fix = if size = frame then [] else [.letterbox frame]

/-- **Streams leave at one size.** Along the trail of a stream, up to the filter that may stand last,
a picture of any size takes the size that this filter was chosen for. -/
theorem Graph.sized_of_ok {streams : List Stream} {frame : Geometry} {g : Graph}
    (h : compile streams frame = .ok g) :
    ∀ i (hi : i < streams.length), ∃ fix : List Filter,
      (g.trail (.inputVideo (firstInput streams i))).1 =
        numbered (firstInput streams i + 1) (streams[i].stepsBeforeFix frame) ++ fix.map .filter ∧
      ∀ source, Sized source frame
        (numbered (firstInput streams i + 1) (streams[i].stepsBeforeFix frame)) fix := by
  intro i hi
  obtain ⟨heard, wiring⟩ := wiring_of_ok h
  have trail := trail_ofCompiled .double frame (eq_ofCompiled_of_ok h).2 wiring.wiring.once i hi
  refine ⟨sizeFix (streams[i].books .double frame).frame frame, ?_, fun source => ?_⟩
  · rw [trail, Stream.steps, numbered_append, numbered_filters]
  · have size := streams[i].frames_stepsBeforeFix .double frame source
    have reached : framesThrough? source
        (filtersOf (numbered (firstInput streams i + 1) (streams[i].stepsBeforeFix frame)) ++
          sizeFix (streams[i].books .double frame).frame frame) = some frame := by
      rw [filtersOf_numbered, framesThrough?_append, size, Option.bind_some, frames_sizeFix]
    refine ⟨reached, fun a target b e => fitsIn_of_letterbox (e ▸ reached), fun other ho fits => ?_⟩
    rw [filtersOf_numbered, size] at ho
    obtain rfl := Option.some.inj ho
    rw [sizeFix, if_pos fits]

theorem Graph.sized_mixedStreams :
    ∃ g, compile mixedStreams ⟨1920, 1080⟩ = .ok g ∧
      ∀ i (hi : i < mixedStreams.length), ∃ fix : List Filter,
        (g.trail (.inputVideo (firstInput mixedStreams i))).1 =
          numbered (firstInput mixedStreams i + 1)
            (mixedStreams[i].stepsBeforeFix ⟨1920, 1080⟩) ++ fix.map .filter ∧
        ∀ source, Sized source ⟨1920, 1080⟩ (numbered (firstInput mixedStreams i + 1)
          (mixedStreams[i].stepsBeforeFix ⟨1920, 1080⟩)) fix :=
  ⟨_, rfl, @sized_of_ok mixedStreams ⟨1920, 1080⟩ _ rfl⟩

end Montage
