import Montage.Proofs.Compose.Layouts
import Montage.Proofs.Graph.Rotations
import Montage.Proofs.Pipeline.Running
import Montage.Rehearsal.Crew

/-!
# Clips that are turned

The layout of a clip leaves a rotation out that is a full turn. Nobody can tell, because
rotations count modulo four wherever a graph is compiled from them.
-/

namespace Montage

open ExceptT (exec_bind exec_get exec_pure)

def Engine.graphOf {σ : Type} (e : Engine σ) (w : World σ) (mailbox : Option Mailbox)
    (laid : Except RenderError (PipelineId × Board)) : Except RenderError Graph :=
  match laid with
  | .error err => .error err
  | .ok (master, board) => ((e.complexFilters master).exec ⟨board, w, mailbox⟩).1

def Board.clip (frame : Geometry) (source : String) (start duration : Scalar) (qs : List Int) :
    Except RenderError (PipelineId × Board) :=
  let (master, b) := Board.add {} frame true
  (b.performAll master
    (.init source :: .trim start duration :: (qs.map .rotate ++ [.colorAdjust]))).map (master, ·)

namespace Board

variable (frame : Geometry)

theorem performAll_turns (s : BoundSource) (qs : List Int) :
    (sole frame s).performAll 0 (qs.map .rotate ++ [.colorAdjust]) =
      .ok (sole frame { s with edits := s.edits ++ qs.map .rotate ++ [.colorAdjust .default] }) := by
  induction qs generalizing s with
  | nil =>
    simp [performAll, perform_sole frame s (c := .colorAdjust) rfl, Except.map, pure, Except.pure, bind,
      Except.bind]
  | cons q qs ih =>
    have turned : (sole frame s).perform 0 (.rotate q) =
        .ok (sole frame { s with edits := s.edits ++ [.rotate q] }) := rfl
    rw [List.map_cons, List.cons_append, performAll, List.foldlM_cons, turned]
    refine (ih _).trans ?_
    simp

theorem clip_eq_map (source : String) (start duration : Scalar) (qs : List Int) :
    clip frame source start duration qs = (Edit.trim? start duration).map fun e =>
      (0, sole frame { input := source, edits := [e] ++ qs.map .rotate ++ [.colorAdjust .default] }) := by
  have bound : clip frame source start duration qs =
      ((sole frame { input := source }).performAll 0
        (.trim start duration :: (qs.map .rotate ++ [.colorAdjust]))).map (0, ·) := rfl
  have cut : (sole frame { input := source }).perform 0 (.trim start duration) =
      (Edit.trim? start duration).map fun e => sole frame { input := source, edits := [e] } :=
    perform_sole frame _ rfl
  rw [bound, performAll, List.foldlM_cons, cut]
  cases Edit.trim? start duration with
  | error err => rfl
  | ok e => exact congrArg (Except.map (0, ·)) (performAll_turns frame _ qs)

end Board

namespace Scenario

theorem layout_shortify (url : String) (start duration : Scalar) (turns : Int) (frame : Geometry)
    (source : String) :
    (shortify url start duration turns).layout frame [source] =
      Board.clip frame source start duration (if turns % 4 = 0 then [] else [turns]) := by
  have bind_map : ∀ (id : PipelineId) (x : Except RenderError Board),
      (x >>= fun b => pure (id, b)) = x.map (id, ·) := by
    intro id x
    cases x <;> rfl
  unfold layout Board.clip
  by_cases full : turns % 4 = 0
  · simp only [masterCalls, full, if_true]
    exact bind_map _ _
  · simp only [masterCalls, full, if_false]
    exact bind_map _ _

end Scenario

namespace Engine

variable {σ : Type} (e : Engine σ) (w : World σ) (mailbox : Option Mailbox)

theorem complexFilters_sole (frame : Geometry) (input : String) (es : List Edit) :
    ((e.complexFilters 0).exec ⟨.sole frame { input, edits := es }, w, mailbox⟩).1 =
      match e.probe.duration input w.own w.disk with
      | (.error err, _) => .error err
      | (.ok duration, own) =>
        match e.probe.hasAudio input own w.disk with
        | (.error err, _) => .error err
        | (.ok hasAudio, _) => Graph.compile [⟨input, es, hasAudio, duration⟩] frame := by
  have flat : (Board.sole frame { input, edits := es }).flatten 0 = .ok [0] := rfl
  have bound : (Board.sole frame { input, edits := es }).isBound 0 := rfl
  have source : ((Board.sole frame { input, edits := es }).get 0).bound =
    some { input, edits := es } := rfl
  rw [exec_complexFilters, if_pos bound]
  simp only [flat, List.mapM_cons, List.mapM_nil, streamOf, exec_bind, exec_get, source, exec_factsOf]
  rcases e.probe.duration input w.own w.disk with ⟨err | duration, own⟩
  · rfl
  · dsimp only
    rcases e.probe.hasAudio input own w.disk with ⟨err | hasAudio, own'⟩ <;> rfl

/-- **Clips** compile alike when their rotations leave the same remainder. -/
theorem graphOf_clip_congr {qs rs : List Int} (h : total qs % 4 = total rs % 4) (frame : Geometry)
    (source : String) (start duration : Scalar) :
    e.graphOf w mailbox (Board.clip frame source start duration qs) =
      e.graphOf w mailbox (Board.clip frame source start duration rs) := by
  rw [Board.clip_eq_map, Board.clip_eq_map]
  cases Edit.trim? start duration with
  | error err => rfl
  | ok cut =>
    let es (qs : List Int) : List Edit := [cut] ++ qs.map .rotate ++ [.colorAdjust .default]
    have alike : Edit.Alike (es qs) (es rs) := (Edit.alike_rotates h).between [cut] _
    have compiled : ∀ a d, Graph.compile [⟨source, es qs, a, d⟩] frame =
        Graph.compile [⟨source, es rs, a, d⟩] frame := by
      intro a d
      have streams := Stream.alike_withEdits (s := ⟨source, es qs, a, d⟩) alike .double
      exact Graph.compileIn_replace streams [] [] frame
    change ((e.complexFilters 0).exec ⟨.sole frame { input := source, edits := es qs }, w, mailbox⟩).1 =
      ((e.complexFilters 0).exec ⟨.sole frame { input := source, edits := es rs }, w, mailbox⟩).1
    rw [complexFilters_sole, complexFilters_sole]
    simp only [compiled]

end Engine

/-! ## Modulo four -/

/-- Rotations count modulo four. Their sum is taken over all integers, wherever the chain's word of
32 bits wraps around. -/
structure CountsTurns {σ : Type} (e : Engine σ) : Prop where
  merged : ∀ (before after : List Stream) (s : Stream) (pre post : List Edit) (qs : List Int)
    (r : Int) (frame : Geometry), s.edits = pre ++ qs.map .rotate ++ post → r % 4 = total qs % 4 →
    Graph.compile (before ++ s.withEdits (pre ++ [.rotate r] ++ post) :: after) frame =
      Graph.compile (before ++ s :: after) frame
  dropped : ∀ (before after : List Stream) (s : Stream) (pre post : List Edit) (qs : List Int)
    (frame : Geometry), s.edits = pre ++ qs.map .rotate ++ post → total qs % 4 = 0 →
    Graph.compile (before ++ s.withEdits (pre ++ post) :: after) frame =
      Graph.compile (before ++ s :: after) frame
  written : ∀ (streams : List Stream) (frame : Geometry) (g : Graph),
    Graph.compile streams frame = .ok g → ∀ i (hi : i < streams.length),
      (turned (g.trail (.inputVideo (firstInput streams i))).1 : Int) % 4 =
        total (streams[i].edits.filterMap Edit.quarters?) % 4
  skipped : ∀ url start duration turns frame source w mailbox,
    e.graphOf w mailbox ((Scenario.shortify url start duration turns).layout frame [source]) =
      e.graphOf w mailbox (Board.clip frame source start duration [turns])
  remainder : ∀ url start duration turns turns' frame paths w mailbox, turns % 4 = turns' % 4 →
    e.graphOf w mailbox ((Scenario.shortify url start duration turns).layout frame paths) =
      e.graphOf w mailbox ((Scenario.shortify url start duration turns').layout frame paths)

theorem total_kept (turns : Int) :
    total (if turns % 4 = 0 then [] else [turns]) % 4 = total [turns] % 4 := by
  by_cases full : turns % 4 = 0
  · simp [full, total]
  · simp [full]

/-- **Rotations count modulo four**, for every compiler input and every clip. -/
theorem turns_modulo_four {σ : Type} (e : Engine σ) : CountsTurns e where
  merged before after s pre post qs r frame edits same := by
    have alike : Edit.Alike s.edits (pre ++ [.rotate r] ++ post) := by
      have rests : total qs % 4 = total [r] % 4 := by simp [total, same]
      rw [edits]
      exact (Edit.alike_rotates rests).between pre post
    exact (Graph.compileIn_replace (Stream.alike_withEdits alike .double) before after frame).symm
  dropped before after s pre post qs frame edits full := by
    have alike : Edit.Alike s.edits (pre ++ post) := by
      have none : Edit.Alike (qs.map .rotate) (([] : List Int).map .rotate) := Edit.alike_rotates full
      have between := none.between pre post
      rw [List.map_nil, List.append_nil] at between
      rw [edits]
      exact between
    exact (Graph.compileIn_replace (Stream.alike_withEdits alike .double) before after frame).symm
  written streams frame g compiled i hi := Graph.turned_trail compiled i hi
  skipped url start duration turns frame source w mailbox := by
    rw [Scenario.layout_shortify]
    exact e.graphOf_clip_congr w mailbox (total_kept turns) frame source start duration
  remainder url start duration turns turns' frame paths w mailbox same := by
    by_cases one : paths.length = 1
    · obtain ⟨source, rfl⟩ := List.length_eq_one_iff.mp one
      have rests : total (if turns % 4 = 0 then [] else [turns]) % 4 =
          total (if turns' % 4 = 0 then [] else [turns']) % 4 := by
        rw [total_kept, total_kept]
        simp [total, same]
      rw [Scenario.layout_shortify, Scenario.layout_shortify]
      exact e.graphOf_clip_congr w mailbox rests frame source start duration
    · simp only [Scenario.layout, Scenario.sources, List.length_cons, List.length_nil, Nat.zero_add,
        ne_eq, one, not_false_eq_true, if_true]
      rfl

/-- Three rotations whose sum no word of 32 bits holds are as one quarter turn. -/
theorem turns_modulo_four_past_word :
    let most : Int := 2147483647
    let s : Stream :=
      ⟨"a.mp4", [.silentAudio, .rotate most, .rotate most, .rotate 3, .colorAdjust .default], true, 10⟩
    let once := s.withEdits [.silentAudio, .rotate 1, .colorAdjust .default]
    Graph.compile [once] ⟨1920, 1080⟩ = Graph.compile [s] ⟨1920, 1080⟩ ∧
      (∃ g, Graph.compile [s] ⟨1920, 1080⟩ = .ok g ∧
        (turned (g.trail (.inputVideo 0)).1 : Int) % 4 = 1) := by
  intro most s once
  have counts := turns_modulo_four (Rehearsal.Crew.engine {})
  refine ⟨counts.merged [] [] s [.silentAudio] [.colorAdjust .default] [most, most, 3] 1 _ rfl
    (by decide), _, rfl, ?_⟩
  exact (counts.written [s] ⟨1920, 1080⟩ _ rfl 0 Nat.one_pos).trans (by decide)

end Montage
