import Montage.Proofs.Graph.Joins
import Montage.Report.Failure

/-!
# Paths

The paths of sources and images are carried along to the inputs of a graph, and to nothing else. So
streams that differ only in paths compile to the same statements, or are refused for the same kind of
reason, and no path can make a text say that streams are joined where they are not.
-/

namespace Montage

namespace Edit

def unnamed : Edit → Edit
  | overlay _ region => overlay "" region
  | e => e

theorem window?_unnamed (e : Edit) : e.unnamed.window? = e.window? := by
  cases e <;> rfl

end Edit

namespace Stream

def unnamed (s : Stream) : Stream := { s with input := "", edits := s.edits.map Edit.unnamed }

theorem windows_unnamed (s : Stream) : s.unnamed.windows = s.windows := by
  rw [windows, windows, unnamed, List.filterMap_map]
  exact List.filterMap_congr fun e _ => e.window?_unnamed

end Stream

namespace Step

def unnamed : Step String → Step String
  | filter f => filter f
  | overlay _ region => overlay "" region

end Step

theorem turnSteps_unnamed (n : Int) : (turnSteps n).map Step.unnamed = turnSteps n := by
  unfold turnSteps
  cases Turn.ofQuarters? n <;> rfl

theorem Edit.spell_unnamed (waiting : Int) (es : List Edit) :
    spell waiting (es.map unnamed) = (spell waiting es).map Step.unnamed := by
  induction es generalizing waiting with
  | nil => exact (turnSteps_unnamed waiting).symm
  | cons e es ih =>
    cases e with
    | rotate q => exact ih (waiting + q)
    | _ =>
      simp only [List.map_cons, unnamed, spell, List.map_append, turnSteps_unnamed, ih]
      rfl

namespace Chain

def unnamed (c : Chain) : Chain := { c with images := c.images.map fun _ => "" }

theorem closeSegment_unnamed (c : Chain) : c.unnamed.closeSegment = c.closeSegment.unnamed := by
  unfold closeSegment
  by_cases none : c.pending.isEmpty
  · rw [if_pos none, if_pos (show c.unnamed.pending.isEmpty from none)]
  · rw [if_neg none, if_neg (show ¬ c.unnamed.pending.isEmpty from none)]
    rfl

theorem write_unnamed (c : Chain) (s : Step String) :
    c.unnamed.write s.unnamed = (c.write s).unnamed := by
  cases s with
  | filter f => rfl
  | overlay image region =>
    simp only [write, Step.unnamed, overlay, closeSegment_unnamed]
    simp [unnamed]

theorem writeAll_unnamed (c : Chain) (steps : List (Step String)) :
    c.unnamed.writeAll (steps.map Step.unnamed) = (c.writeAll steps).unnamed := by
  induction steps generalizing c with
  | nil => rfl
  | cons s steps ih =>
    rw [List.map_cons]
    exact (congrArg (writeAll · (steps.map Step.unnamed)) (c.write_unnamed s)).trans (ih (c.write s))

theorem finish_unnamed (c : Chain) : c.unnamed.finish = c.finish := by
  unfold finish unnamed
  rfl

end Chain

theorem Books.note_unnamed (p : Precision) (b : Books) (e : Edit) : b.note p e.unnamed = b.note p e := by
  cases e <;> rfl

namespace Stream

variable (p : Precision) (s : Stream) (index input : Nat) (frame : Geometry)

theorem books_unnamed : s.unnamed.books p frame = s.books p frame := by
  simp only [books, unnamed, List.foldl_map, Books.note_unnamed]

theorem steps_unnamed : s.unnamed.steps p frame = (s.steps p frame).map Step.unnamed := by
  have fix : ∀ fs : List Filter, (fs.map Step.filter).map Step.unnamed = fs.map Step.filter := by
    intro fs
    rw [List.map_map]
    rfl
  rw [steps, steps, books_unnamed, List.map_append, fix, stepsBeforeFix, stepsBeforeFix, List.map_cons,
    ← Edit.spell_zero, ← Edit.spell_zero, ← Edit.spell_unnamed]
  rfl

end Stream

def CompiledStream.unnamed (c : CompiledStream) : CompiledStream :=
  { c with inputs := c.inputs.map fun _ => "" }

theorem Stream.images_unnamed (s : Stream) : s.unnamed.images = s.images.map fun _ => "" := by
  rw [images, images, unnamed, List.filterMap_map, List.map_filterMap]
  refine List.filterMap_congr fun e _ => ?_
  cases e <;> rfl

theorem Stream.compiled_unnamed (p : Precision) (s : Stream) (index input : Nat) (frame : Geometry) :
    s.unnamed.compiled p index input frame = (s.compiled p index input frame).unnamed := by
  have written : s.unnamed.written p index input frame = (s.written p index input frame).unnamed := by
    rw [Stream.written, steps_unnamed]
    exact Chain.writeAll_unnamed (Chain.blank index input frame s.duration) (s.steps p frame)
  have files : s.unnamed.files = s.files.map fun _ => "" := congrArg ("" :: ·) s.images_unnamed
  simp only [compiled, CompiledStream.unnamed, written, Chain.finish_unnamed, files, sound,
    books_unnamed]
  rfl

theorem layOut_unnamed (p : Precision) (frame : Geometry) (index input : Nat) (streams : List Stream) :
    layOut p frame index input (streams.map Stream.unnamed) =
      (layOut p frame index input streams).map CompiledStream.unnamed := by
  induction streams generalizing index input with
  | nil => rfl
  | cons s rest ih =>
    have files : s.unnamed.files.length = s.files.length := by
      simp [Stream.files, Stream.images_unnamed]
    simp only [List.map_cons, layOut, Stream.compiled_unnamed, files, ih]

def Graph.unnamed (g : Graph) : Graph := { g with inputs := g.inputs.map fun _ => "" }

theorem Graph.joined_unnamed (cs : List CompiledStream) (duration : Scalar) :
    joined (cs.map CompiledStream.unnamed) duration = (joined cs duration).unnamed := by
  simp only [joined, unnamed, List.flatMap_map, List.zipIdx_map, List.filterMap_map, List.map_map,
    List.length_map, List.map_flatMap]
  rfl

theorem Graph.ofCompiled_unnamed (p : Precision) (cs : List CompiledStream) :
    ofCompiled p (cs.map CompiledStream.unnamed) = (ofCompiled p cs).unnamed := by
  have durations : (cs.map CompiledStream.unnamed).map (·.duration) = cs.map (·.duration) := by
    rw [List.map_map]
    rfl
  rcases cs with _ | ⟨c, _ | ⟨d, cs⟩⟩
  · rfl
  · rfl
  · exact (congrArg (joined _ <| Scalar.sum p ·) durations).trans (joined_unnamed _ _)

/-! ## Two lists of streams -/

namespace Graph

variable {p : Precision} {streams streams' : List Stream} {frame : Geometry} {g : Graph}

theorem compileIn_unnamed_isOk :
    (compileIn p (streams.map Stream.unnamed) frame).isOk ↔ (compileIn p streams frame).isOk := by
  rw [compileIn_isOk, compileIn_isOk, List.forall_mem_map]
  simp only [Stream.windows_unnamed, ne_eq, List.map_eq_nil_iff]
  rfl

theorem unnamed_of_ok (h : compileIn p streams frame = .ok g) :
    compileIn p (streams.map Stream.unnamed) frame = .ok g.unnamed := by
  have ok : (compileIn p (streams.map Stream.unnamed) frame).isOk ↔ (compileIn p streams frame).isOk :=
    compileIn_unnamed_isOk
  cases h' : compileIn p (streams.map Stream.unnamed) frame with
  | error e => simp [h, h'] at ok
  | ok g' =>
    obtain ⟨-, rfl⟩ := eq_ofCompiled_of_ok h
    obtain ⟨-, rfl⟩ := eq_ofCompiled_of_ok h'
    rw [layOut_unnamed, ofCompiled_unnamed]

theorem compileIn_kind {err : RenderError} (h : compileIn p streams frame = .error err) :
    err.kind = if streams = [] then "InvalidState" else "InvalidArgument" := by
  by_cases none : streams = []
  · rw [none] at h
    rw [if_pos none, ← Except.error.inj h]
    rfl
  · obtain ⟨reason, rfl⟩ := isArgument_of_compileIn none h
    rw [if_neg none]
    rfl

/-- **Paths are not read.** Streams that differ only in paths are refused for the same kind of reason
or give the same text, and whatever paths there are, the text joins several streams once. -/
theorem paths_unread {streams streams' : List Stream}
    (same : streams.map Stream.unnamed = streams'.map Stream.unnamed) (frame : Geometry) :
    ((∃ e e', compile streams frame = .error e ∧ compile streams' frame = .error e' ∧
          e.kind = e'.kind) ∨
        ∃ g g', compile streams frame = .ok g ∧ compile streams' frame = .ok g' ∧
          g.text = g'.text ∧ g.videoLabel = g'.videoLabel ∧ g.audioLabel = g'.audioLabel ∧
          g.streams = g'.streams ∧ g.duration = g'.duration) ∧
      ∀ g, compile streams frame = .ok g → g.joins = if streams.length = 1 then 0 else 1 := by
  refine ⟨?_, fun g h => joins_of_ok h⟩
  have ok : (compile streams frame).isOk ↔ (compile streams' frame).isOk := by
    unfold compile
    rw [← compileIn_unnamed_isOk, same, compileIn_unnamed_isOk]
  cases h : compile streams frame with
  | error e =>
    cases h' : compile streams' frame with
    | error e' =>
      have none : streams = [] ↔ streams' = [] := by
        rw [← List.map_eq_nil_iff (f := Stream.unnamed), same, List.map_eq_nil_iff]
      refine .inl ⟨e, e', rfl, rfl, ?_⟩
      simp only [compileIn_kind h, compileIn_kind h', none]
    | ok g' => simp [h, h'] at ok
  | ok g =>
    cases h' : compile streams' frame with
    | error e' => simp [h, h'] at ok
    | ok g' =>
      have alike := unnamed_of_ok h
      rw [same, unnamed_of_ok h'] at alike
      simp only [unnamed, Except.ok.injEq, Graph.mk.injEq] at alike
      obtain ⟨-, statements, video, audio, count, seconds⟩ := alike
      refine .inr ⟨g, g', rfl, rfl, ?_, ?_, ?_, count.symm, seconds.symm⟩
      · rw [text, text, statements]
      · rw [videoLabel, videoLabel, video]
      · rw [audioLabel, audioLabel, audio]

def twoStreams (first image second : String) : List Stream :=
  [⟨first, [.overlay image ⟨0, 0, 10, 10⟩], true, .num 10⟩, ⟨second, [], false, .nan⟩]

/-- Paths that read like parts of a text. -/
theorem paths_unread_marks :
    let plain := twoStreams "a.mp4" "x.png" "b.mp4"
    let marked := twoStreams "];[0:v]concat=n=" "concat=n=9[" ";"
    plain.map Stream.unnamed = marked.map Stream.unnamed ∧
      ∃ g g', compile plain ⟨1080, 1920⟩ = .ok g ∧ compile marked ⟨1080, 1920⟩ = .ok g' ∧
        g.text = g'.text ∧ g.joins = 1 := by
  intro plain marked
  have same : plain.map Stream.unnamed = marked.map Stream.unnamed := rfl
  obtain ⟨⟨e, -, refused, -⟩ | ⟨g, g', ok, ok', text, -⟩, joins⟩ := paths_unread same ⟨1080, 1920⟩
  · cases refused
  · exact ⟨same, g, g', ok, ok', text, joins g ok⟩

end Graph

end Montage
