import Montage.Proofs.Graph.Writing

/-!
# Streams side by side

Streams are compiled one after the other, each taking the inputs behind those of
the streams before it. A graph that compiles is what laying its streams out so
and joining them gives.
-/

namespace Montage

/-- Number of the input that is the source of stream `i`, behind the sources and the images of the
streams before it. -/
def firstInput (streams : List Stream) (i : Nat) : Nat :=
  i + ((streams.take i).flatMap Stream.images).length

theorem firstInput_succ (s : Stream) (rest : List Stream) (i : Nat) :
    firstInput (s :: rest) (i + 1) = s.files.length + firstInput rest i := by
  simp only [firstInput, List.take_succ_cons, List.flatMap_cons, List.length_append, Stream.files,
    List.length_cons]
  omega

/-- The compiled streams, were nothing refused, from stream `index` and input `input` on. -/
def layOut (p : Precision) (frame : Geometry) : Nat → Nat → List Stream → List CompiledStream
  | _, _, [] => []
  | index, input, s :: rest =>
    s.compiled p index input frame :: layOut p frame (index + 1) (input + s.files.length) rest

section
variable (p : Precision) (frame : Geometry)

@[simp] theorem length_layOut (index input : Nat) (streams : List Stream) :
    (layOut p frame index input streams).length = streams.length := by
  induction streams generalizing index input with
  | nil => rfl
  | cons s rest ih => rw [layOut, List.length_cons, ih, List.length_cons]

theorem flatMap_inputs_layOut (index input : Nat) (streams : List Stream) :
    (layOut p frame index input streams).flatMap (·.inputs) = streams.flatMap Stream.files := by
  induction streams generalizing index input with
  | nil => rfl
  | cons s rest ih =>
    rw [layOut, List.flatMap_cons, ih, List.flatMap_cons]
    rfl

theorem getElem_layOut (index input : Nat) (streams : List Stream) (i : Nat)
    (hl : i < (layOut p frame index input streams).length) (hi : i < streams.length) :
    (layOut p frame index input streams)[i] =
      streams[i].compiled p (index + i) (input + firstInput streams i) frame := by
  induction streams generalizing index input i with
  | nil => cases hi
  | cons s rest ih =>
    cases i with
    | zero => rfl
    | succ i =>
      have := ih (index + 1) (input + s.files.length) i (Nat.lt_of_succ_lt_succ hl)
        (Nat.lt_of_succ_lt_succ hi)
      simp only [layOut, List.getElem_cons_succ, this]
      congr 1
      · omega
      · rw [firstInput_succ]
        omega

variable {p frame}

theorem Graph.compileStreams_ok {index input : Nat} {streams : List Stream}
    {cs : List CompiledStream} (h : compileStreams p frame index input streams = .ok cs) :
    cs = layOut p frame index input streams := by
  induction streams generalizing index input cs with
  | nil => exact (Except.ok.inj h).symm
  | cons s rest ih =>
    obtain ⟨c, hc, h⟩ := bind_eq_ok h
    obtain ⟨cs', hs, h⟩ := bind_eq_ok h
    rw [← Except.ok.inj h, ih hs, Stream.eq_compiled_of_ok hc]
    rfl

def Graph.ofCompiled (p : Precision) (cs : List CompiledStream) : Graph :=
  match cs with
  | [c] => alone c (Scalar.sum p (cs.map (·.duration)))
  | _ => joined cs (Scalar.sum p (cs.map (·.duration)))

theorem Graph.inputs_ofCompiled (p : Precision) (cs : List CompiledStream) :
    (ofCompiled p cs).inputs = cs.flatMap (·.inputs) := by
  unfold ofCompiled
  split
  · exact (List.append_nil _).symm
  · rfl

theorem Graph.ofCompiled_of_several (p : Precision) {cs : List CompiledStream} (h : 1 < cs.length) :
    ofCompiled p cs = joined cs (Scalar.sum p (cs.map (·.duration))) := by
  rcases cs with _ | ⟨c, _ | ⟨d, cs⟩⟩
  · cases h
  · exact absurd h (Nat.lt_irrefl 1)
  · rfl

/-- **A graph that compiles** is the graph of its streams laid out from the first input on. -/
theorem Graph.eq_ofCompiled_of_ok {streams : List Stream} {g : Graph}
    (h : compileIn p streams frame = .ok g) :
    streams ≠ [] ∧ g = ofCompiled p (layOut p frame 0 0 streams) := by
  unfold compileIn at h
  by_cases hs : streams.isEmpty
  · rw [if_pos hs] at h
    cases h
  · rw [if_neg hs] at h
    refine ⟨by simpa using hs, ?_⟩
    obtain ⟨frame', hv, h⟩ := bind_eq_ok h
    obtain ⟨cs, hc, h⟩ := bind_eq_ok h
    obtain rfl : frame = frame' := by
      unfold Geometry.validate at hv
      split at hv
      · exact Except.ok.inj hv
      · cases hv
    rw [← compileStreams_ok hc]
    rcases cs with _ | ⟨c, _ | ⟨d, cs⟩⟩ <;> exact (Except.ok.inj h).symm

end

def mixedStreams : List Stream :=
  [⟨"a.mp4", [.overlay "x.png" ⟨0, 0, 10, 10⟩, .overlay "y.png" ⟨5, 5, 10, 10⟩, .rotate 1,
      .rotate (-2), .trim (.num 1) (.num 2), .overlay "z.png" ⟨0, 0, 4, 4⟩], true, .num 10⟩,
    ⟨"b.mp4", [.silentAudio, .targetGeometry ⟨20, 10⟩, .rotate 4, .rotate 1], false, .zero⟩]

end Montage
