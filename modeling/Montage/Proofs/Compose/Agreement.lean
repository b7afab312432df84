import Montage.Rehearsal.Crew
import Montage.Proofs.Compose.Layouts
import Montage.Proofs.Pipeline.Running

/-!
# What is accepted can be built

The check of a request, the layout of its pipelines and the compiler look at the same
parameters, each for itself. They agree: what the check accepts is laid out, and what is
laid out compiles whatever the probe finds, unless the window of a clip begins behind
its end, which no check can know.
-/

namespace Montage

/-! ## Acceptance and layout -/

namespace Request

theorem validate_isOk_iff {r : Request} (jobId : jobIdFault? r.jobId = none)
    (accounts : accountsFault? r.accounts = none)
    (links : ∀ source ∈ r.scenario.sources, Text.trim source.url ≠ "") :
    r.validate.isOk ↔ r.scenario.parameterFault? = none := by
  have linked : r.scenario.sources.findSome? (fun src =>
      if Text.trim src.url = "" then some (src.role ++ " url is empty") else none) = none :=
    List.findSome?_eq_none_iff.mpr fun source hs => if_neg (links source hs)
  have fault : r.fault? = r.scenario.parameterFault? := by
    rw [fault?, jobId, accounts, Scenario.fault?, linked]
    rfl
  rw [validate, fault]
  cases r.scenario.parameterFault? <;> simp

end Request

/-! ## Layout and compiler -/

namespace Scenario

/-- Where the window of a clip begins at the end of a source of `d` seconds or behind it. -/
def BeginsPast (d : Scalar) : Scenario → Prop
  | shortify _ start _ _ => Scalar.zero.lt d ∧ start.ge d
  | bannerAppend _ _ | coverWithImage _ _ _ _ => False

instance (d : Scalar) : DecidablePred (BeginsPast d)
  | shortify _ _ _ _ => inferInstanceAs (Decidable (_ ∧ _))
  | bannerAppend _ _ | coverWithImage _ _ _ _ => isFalse id

theorem fits_edits (p : Precision) (s : Scenario) (paths : List String) (d : Scalar) :
    Fits p d.nonneg ((s.edits paths).filterMap Edit.window?) ↔ ¬ s.BeginsPast d := by
  cases s with
  | bannerAppend source banner => exact iff_of_true trivial id
  | coverWithImage source image region maxDuration =>
    exact iff_of_true ⟨Window.beginsIn_zero _ _, trivial⟩ id
  | shortify source start maxDuration turns =>
    have windows : ((shortify source start maxDuration turns).edits paths).filterMap Edit.window? =
        [⟨start, maxDuration⟩] := by
      by_cases still : turns % 4 = 0 <;> simp only [edits, still, if_true, if_false] <;> rfl
    rw [windows]
    simp [Fits, Window.beginsIn_nonneg, BeginsPast]

/-! ## The board of a scenario -/

theorem flatten_board {s : Scenario} {paths : List String} (enough : paths.length = s.sources.length)
    (frame : Geometry) :
    (s.board frame paths).flatten 0 = .ok (List.range ((s.appended paths).length + 1)) := by
  cases s with
  | bannerAppend source banner =>
    obtain ⟨a, b, rfl⟩ := List.length_eq_two.mp enough
    simp [board, boardWith, appended, Board.flatten, Board.flattenWithin, Board.flattenAttachments,
      Board.get, Except.map, bind, Except.bind, pure, Except.pure]
    rfl
  | coverWithImage source image region maxDuration =>
    simp [board, boardWith, appended, Board.flatten, Board.flattenWithin, Board.flattenAttachments,
      Board.get, Except.map]
  | shortify source start maxDuration turns =>
    simp [board, boardWith, appended, Board.flatten, Board.flattenWithin, Board.flattenAttachments,
      Board.get, Except.map]

theorem edits_board_succ (s : Scenario) (frame : Geometry) (paths : List String) (i : Nat) :
    (s.board frame paths).edits (i + 1) = [] := by
  simp only [board, boardWith, Board.edits, Board.get, List.getD_eq_getElem?_getD,
    List.getElem?_cons_succ, List.getElem?_map]
  cases (s.appended paths)[i]? <;> rfl

theorem isBound_board {s : Scenario} {frame : Geometry} {paths : List String} {id : PipelineId}
    (h : id < (s.appended paths).length + 1) : (s.board frame paths).isBound id := by
  cases id with
  | zero => rfl
  | succ i =>
    have hi : i < (s.appended paths).length := Nat.lt_of_succ_lt_succ h
    simp [board, boardWith, Board.isBound, Board.get, hi]

end Scenario

namespace Engine

open ExceptT

variable {σ : Type} {e : Engine σ}

def Answered (e : Engine σ) (id : PipelineId) (s : Session σ) : Prop :=
  ∀ ids, s.board.flatten id = .ok ids → ((ids.mapM e.streamOf).exec s).1.isOk

theorem found_first {id : PipelineId} {ids : List PipelineId} {s t : Session σ} {b : BoundSource}
    {streams : List Stream} (bound : (s.board.get id).bound = some b) (new : b.facts = none)
    (h : ((id :: ids).mapM e.streamOf).exec s = (.ok streams, t)) :
    ∃ first rest own, streams = first :: rest ∧
      e.probe.duration b.input s.world.own s.world.disk = (.ok first.duration, own) := by
  rw [List.mapM_cons, exec_bind] at h
  simp only [streamOf, exec_bind, exec_get, bound, e.exec_factsOf id new] at h
  rcases hd : e.probe.duration b.input s.world.own s.world.disk with ⟨err | d, own⟩
  · simp [hd] at h
  · rcases ha : e.probe.hasAudio b.input own s.world.disk with ⟨err | a, own'⟩
    · simp [hd, ha] at h
    · simp only [hd, ha, exec_pure] at h
      split at h
      · obtain ⟨h, -⟩ := Prod.mk.inj h
        exact ⟨_, _, own, (Except.ok.inj h).symm, rfl⟩
      · cases h

/-- **Whatever the probe answers**, the pipelines of a scenario compile, unless its window begins
past the end of the first source. -/
theorem complexFilters_board {s : Scenario} {paths : List String}
    (enough : paths.length = s.sources.length) {frame : Geometry} (area : frame.hasArea)
    {w : World σ} {mailbox : Option Mailbox}
    (answered : e.Answered 0 ⟨s.board frame paths, w, mailbox⟩) :
    ∃ d own, e.probe.duration (paths.headD "") w.own w.disk = (.ok d, own) ∧
      (¬ ((e.complexFilters 0).exec ⟨s.board frame paths, w, mailbox⟩).1.isOk ↔ s.BeginsPast d) := by
  let b := s.board frame paths
  let start : Session σ := ⟨b, w, mailbox⟩
  let n := (s.appended paths).length
  have ids : List.range (n + 1) = 0 :: (List.range n).map Nat.succ := List.range_succ_eq_map
  have bound : ∀ id ∈ List.range (n + 1), b.isBound id :=
    fun id hid => Scenario.isBound_board (List.mem_range.mp hid)
  have good := answered _ (Scenario.flatten_board enough frame)
  rcases hx : ((List.range (n + 1)).mapM e.streamOf).exec start with ⟨r, t⟩
  obtain ⟨-, ⟨found, rfl, -⟩ | ⟨-, -, -, err, rfl, -⟩⟩ := e.streams_spec bound hx
  · have compiled : ((e.complexFilters 0).exec start).1 =
        Graph.compile ((List.range (n + 1)).map fun id => b.stream id (found id)) frame := by
      rw [exec_complexFilters, if_pos (bound 0 (by simp)), Scenario.flatten_board enough]
      dsimp only
      rw [hx]
      rfl
    have probed : ∃ own, e.probe.duration (paths.headD "") w.own w.disk =
        (.ok (found 0).duration, own) := by
      rw [ids] at hx
      obtain ⟨first, rest, own, streams, asked⟩ := found_first (s := start) rfl rfl hx
      obtain ⟨rfl, -⟩ := List.cons.inj streams
      exact ⟨own, asked⟩
    obtain ⟨own, probed⟩ := probed
    refine ⟨_, own, probed, ?_⟩
    -- nothing behind the master is cut
    have behind : ∀ i, Fits .double (found (i + 1)).duration.nonneg
        (b.stream (i + 1) (found (i + 1))).windows := by
      intro i
      rw [Stream.windows, Board.stream, Scenario.edits_board_succ]
      trivial
    have master : Fits .double (found 0).duration.nonneg (b.stream 0 (found 0)).windows ↔
        ¬ s.BeginsPast (found 0).duration := s.fits_edits .double paths _
    have all : (∀ x ∈ (List.range (n + 1)).map fun id => b.stream id (found id),
        Fits .double x.duration.nonneg x.windows) ↔ ¬ s.BeginsPast (found 0).duration := by
      rw [← master, ids, List.map_cons, List.forall_mem_cons]
      refine and_iff_left fun x hx => ?_
      obtain ⟨_, hi, rfl⟩ := List.mem_map.mp hx
      obtain ⟨i, -, rfl⟩ := List.mem_map.mp hi
      exact behind i
    have some : (List.range (n + 1)).map (fun id => b.stream id (found id)) ≠ [] := by simp
    rw [compiled, Graph.compile, Graph.compileIn_isOk, all, and_iff_right some, and_iff_right area,
      not_not]
  · rw [hx] at good
    cases good

end Engine

/-! ## Agreement -/

structure Agreement {σ : Type} (e : Engine σ) (settings : Settings) (r : Request) : Prop where
  laid : Request.jobIdFault? r.jobId = none → Request.accountsFault? r.accounts = none →
    (∀ source ∈ r.scenario.sources, Text.trim source.url ≠ "") →
    ∀ frame paths, paths.length = r.scenario.sources.length →
      (r.validate = .ok () ↔ ∃ master board, r.scenario.layout frame paths = .ok (master, board))
  /-- What a request is laid out to compiles under settings that are accepted, as long as the probe
  answers; only the window of a clip can begin too late. -/
  compiled : settings.validate = .ok () → ∀ paths master board,
    r.scenario.layout ⟨settings.render.width, settings.render.height⟩ paths = .ok (master, board) →
    ∀ w mailbox, e.Answered master ⟨board, w, mailbox⟩ → ∃ d own,
      e.probe.duration (paths.headD "") w.own w.disk = (.ok d, own) ∧
        (¬ ((e.complexFilters master).exec ⟨board, w, mailbox⟩).1.isOk ↔ r.scenario.BeginsPast d)

theorem Settings.hasArea_of_validate {s : Settings} (h : s.validate = .ok ()) :
    (Geometry.mk s.render.width s.render.height).hasArea := by
  rw [validate] at h
  cases hf : s.fault? with
  | some reason => simp [hf] at h
  | none =>
    rw [fault?] at hf
    by_cases zero : s.render.width = 0 ∨ s.render.height = 0
    · simp [zero] at hf
    · simp only [Geometry.hasArea, Bool.and_eq_true, decide_eq_true_eq]
      omega

theorem Request.validate_eq_ok {r : Request} : r.validate = .ok () ↔ r.validate.isOk := by
  cases r.validate <;> simp

/-- **Acceptance, layout and compiler agree.** -/
theorem agreement {σ : Type} (e : Engine σ) (settings : Settings) (r : Request) :
    Agreement e settings r where
  laid jobId accounts links frame paths enough := by
    rw [r.validate_eq_ok, r.validate_isOk_iff jobId accounts links]
    simp [Scenario.layout_eq_ok enough]
  compiled checked paths master board laid w mailbox answered := by
    obtain ⟨enough, -, e⟩ := Scenario.of_layout_eq_ok laid
    obtain ⟨rfl, rfl⟩ := Prod.mk.inj e
    exact Engine.complexFilters_board enough (settings.hasArea_of_validate checked) answered

def lateClip : Request := ⟨"job", ["account"], none, .shortify "https://host/a.mp4" 10 5 1⟩

/-- In rehearsal, where sources last ten seconds, the clip is accepted and laid out, but refused by
the compiler. -/
theorem agreement_lateClip :
    let board := lateClip.scenario.board ⟨1080, 1920⟩ ["a.mp4"]
    lateClip.validate = .ok () ∧
      lateClip.scenario.layout ⟨1080, 1920⟩ ["a.mp4"] = .ok (0, board) ∧
      ¬ (((Rehearsal.Crew.engine {}).complexFilters 0).exec ⟨board, ⟨{}, {}, [], 0⟩, none⟩).1.isOk := by
  have agree := agreement (Rehearsal.Crew.engine {}) {} lateClip
  have accepted : lateClip.validate = .ok () := by decide
  obtain ⟨master, board, laid⟩ := (agree.laid (by decide) (by decide) (by decide) ⟨1080, 1920⟩
    ["a.mp4"] rfl).mp accepted
  obtain ⟨-, -, e⟩ := Scenario.of_layout_eq_ok laid
  obtain ⟨rfl, rfl⟩ := Prod.mk.inj e
  have answered : (Rehearsal.Crew.engine {}).Answered 0
      ⟨lateClip.scenario.board ⟨1080, 1920⟩ ["a.mp4"], ⟨{}, {}, [], 0⟩, none⟩ := by
    intro ids h
    obtain rfl := Except.ok.inj ((Scenario.flatten_board rfl _).symm.trans h)
    rfl
  obtain ⟨d, own, probed, late⟩ := agree.compiled (by decide) ["a.mp4"] 0 _ laid
    ⟨{}, {}, [], 0⟩ none answered
  obtain rfl : (10 : Scalar) = d := Except.ok.inj (congrArg Prod.fst probed)
  exact ⟨accepted, laid, late.mpr (by decide)⟩

end Montage
