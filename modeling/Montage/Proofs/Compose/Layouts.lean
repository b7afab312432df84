import Montage.Compose.Layout
import Montage.Proofs.Graph.Cuts

/-!
# What scenarios are laid out to

The layout of a scenario is a master bound to the first file, with the scenario's
edits, and behind it one pipeline for each file that is appended. The calls that
make it are refused for the faults that the check of the parameters finds.
-/

namespace Montage

theorem map_eq_ok {ε α β : Type} {x : Except ε α} {f : α → β} {b : β} :
    x.map f = .ok b ↔ ∃ a, x = .ok a ∧ b = f a := by
  cases x <;> simp [Except.map, eq_comm]

theorem mapM_cons_eq_ok {ε α β : Type} {f : α → Except ε β} {a : α} {as : List α} {bs : List β} :
    (a :: as).mapM f = .ok bs ↔ ∃ b rest, f a = .ok b ∧ as.mapM f = .ok rest ∧ bs = b :: rest := by
  rw [List.mapM_cons]
  cases f a with
  | error e => simp [bind, Except.bind]
  | ok b => cases as.mapM f <;> simp [bind, Except.bind, pure, Except.pure, eq_comm]

theorem mapM_nil_eq_ok {ε α β : Type} {f : α → Except ε β} {bs : List β} :
    ([] : List α).mapM f = .ok bs ↔ bs = [] := by
  simp [pure, Except.pure, eq_comm]

/-! ## Checks of parameters -/

theorem Edit.trim?_eq_ok {start duration : Scalar} {e : Edit} :
    trim? start duration = .ok e ↔ Scenario.durationFault? duration = none ∧
      Scenario.startFault? start = none ∧ e = .trim start duration := by
  unfold trim? Scenario.startFault? Scenario.durationFault?
  split <;> split <;> simp [eq_comm]

theorem Region.validate_eq_ok {r r' : Region} : r.validate = .ok r' ↔ r.hasArea ∧ r' = r := by
  unfold validate
  by_cases area : r.hasArea
  · rw [if_pos area, Except.ok.injEq, and_iff_right area, eq_comm]
  · rw [if_neg area]
    exact iff_of_false nofun fun h => area h.1

/-! ## A master alone -/

namespace Board

def sole (frame : Geometry) (s : BoundSource) : Board where
  pipelines := [{ frame, isMaster := true, bound := some s }]

variable (frame : Geometry) (s : BoundSource)

theorem perform_sole {c : Call} {name : String} {edit : Except RenderError Edit}
    (h : c.edit? = some (name, edit)) :
    (sole frame s).perform 0 c = edit.map fun e => sole frame { s with edits := s.edits ++ [e] } := by
  have append : (sole frame s).perform 0 c = (sole frame s).append 0 name edit := by
    unfold perform
    rw [h]
  rw [append]
  rfl

theorem performAll_sole {calls : List Call} (editing : ∀ c ∈ calls, c.edit?.isSome) :
    (sole frame s).performAll 0 calls =
      ((calls.filterMap Call.edit?).mapM Prod.snd).map fun es =>
        sole frame { s with edits := s.edits ++ es } := by
  induction calls generalizing s with
  | nil => simp [performAll, pure, Except.pure, Except.map]
  | cons c calls ih =>
    obtain ⟨⟨name, edit⟩, hc⟩ := Option.isSome_iff_exists.mp (editing c List.mem_cons_self)
    have rest := fun s => ih s fun c hc => editing c (List.mem_cons_of_mem _ hc)
    rw [performAll, List.foldlM_cons, perform_sole frame s hc, List.filterMap_cons_some hc,
      List.mapM_cons]
    cases edit with
    | error e => rfl
    | ok e =>
      refine (rest _).trans ?_
      cases (calls.filterMap Call.edit?).mapM Prod.snd with
      | error e' => rfl
      | ok es => simp [Except.map, bind, Except.bind, pure, Except.pure]

end Board

namespace Scenario

def edits : Scenario → List String → List Edit
  | bannerAppend _ _, _ => [.colorAdjust .default]
  | coverWithImage _ _ region maxDuration, paths =>
    [.trim .zero maxDuration, .overlay (paths.getD 1 "") region]
  | shortify _ start maxDuration turns, _ =>
    .trim start maxDuration ::
      ((if turns % 4 = 0 then [] else [.rotate turns]) ++ [.colorAdjust .default])

def boardWith (s : Scenario) (frame : Geometry) (paths : List String) (es : List Edit) : Board where
  pipelines :=
    { frame := frame
      isMaster := true
      bound := some { input := paths.headD "", edits := es }
      attachments := (s.appended paths).zipIdx.map fun (_, i) => .other (i + 1) } ::
    (s.appended paths).map fun path => { frame, isMaster := false, bound := some { input := path } }

def board (s : Scenario) (frame : Geometry) (paths : List String) : Board :=
  s.boardWith frame paths (s.edits paths)

theorem startFault?_zero : startFault? .zero = none := by decide

theorem parameterFault?_coverWithImage {source image : String} {region : Region}
    {maxDuration : Scalar} :
    (coverWithImage source image region maxDuration).parameterFault? = none ↔
      durationFault? maxDuration = none ∧ region.hasArea := by
  unfold parameterFault?
  cases h : durationFault? maxDuration <;> simp [h]

theorem parameterFault?_shortify {source : String} {start maxDuration : Scalar} {turns : Int} :
    (shortify source start maxDuration turns).parameterFault? = none ↔
      durationFault? maxDuration = none ∧ startFault? start = none := by
  unfold parameterFault?
  cases h : durationFault? maxDuration <;> simp [h]

section
variable {s : Scenario} {paths : List String} (enough : paths.length = s.sources.length)
include enough

theorem mapM_edits_eq_ok {es : List Edit} :
    ((s.masterCalls paths).filterMap Board.Call.edit?).mapM Prod.snd = .ok es ↔
      s.parameterFault? = none ∧ es = s.edits paths := by
  cases s with
  | bannerAppend source banner =>
    obtain ⟨a, b, rfl⟩ := List.length_eq_two.mp enough
    exact ⟨fun e => ⟨rfl, (Except.ok.inj e).symm⟩, fun e => e.2 ▸ rfl⟩
  | coverWithImage source image region maxDuration =>
    obtain ⟨a, b, rfl⟩ := List.length_eq_two.mp enough
    rw [parameterFault?_coverWithImage]
    change [("trim", Edit.trim? .zero maxDuration),
      ("overlay", region.validate.map (.overlay b))].mapM Prod.snd = .ok es ↔ _
    simp only [mapM_cons_eq_ok, mapM_nil_eq_ok, Edit.trim?_eq_ok, map_eq_ok, Region.validate_eq_ok, startFault?_zero]
    constructor
    · rintro ⟨_, _, ⟨positive, -, rfl⟩, ⟨_, _, ⟨_, ⟨area, rfl⟩, rfl⟩, rfl, rfl⟩, rfl⟩
      exact ⟨⟨positive, area⟩, rfl⟩
    · rintro ⟨⟨positive, area⟩, rfl⟩
      exact ⟨_, _, ⟨positive, trivial, rfl⟩, ⟨_, _, ⟨_, ⟨area, rfl⟩, rfl⟩, rfl, rfl⟩, rfl⟩
  | shortify source start maxDuration turns =>
    obtain ⟨a, rfl⟩ := List.length_eq_one_iff.mp enough
    rw [parameterFault?_shortify]
    have calls : ((shortify source start maxDuration turns).masterCalls [a]).filterMap
        Board.Call.edit? = ("trim", Edit.trim? start maxDuration) ::
          ((if turns % 4 = 0 then [] else [("rotate", .ok (.rotate turns))]) ++
            [("color_adjust", .ok (.colorAdjust .default))]) := by
      by_cases still : turns % 4 = 0 <;> simp only [masterCalls, still, if_true, if_false] <;> rfl
    have free : ((if turns % 4 = 0 then [] else [("rotate", .ok (.rotate turns))]) ++
        [("color_adjust", .ok (.colorAdjust .default))] :
          List (String × Except RenderError Edit)).mapM Prod.snd =
        .ok ((if turns % 4 = 0 then [] else [.rotate turns]) ++ [.colorAdjust .default]) := by
      by_cases still : turns % 4 = 0 <;> simp only [still, if_true, if_false] <;> rfl
    rw [calls, mapM_cons_eq_ok, free]
    constructor
    · rintro ⟨e, rest, cut, others, rfl⟩
      obtain ⟨positive, begins, rfl⟩ := Edit.trim?_eq_ok.mp cut
      exact ⟨⟨positive, begins⟩, by rw [← Except.ok.inj others]; rfl⟩
    · rintro ⟨⟨positive, begins⟩, rfl⟩
      exact ⟨_, _, Edit.trim?_eq_ok.mpr ⟨positive, begins, rfl⟩, rfl, rfl⟩

theorem layout_eq_map (frame : Geometry) :
    s.layout frame paths =
      (((s.masterCalls paths).filterMap Board.Call.edit?).mapM Prod.snd).map fun es =>
        (0, s.boardWith frame paths es) := by
  have alone : ∀ (input : String) (calls : List Board.Call), (∀ c ∈ calls, c.edit?.isSome) →
      (Board.performAll (Board.add {} frame true).2 0 (.init input :: calls) >>= fun b =>
        (pure (0, b) : Except RenderError (PipelineId × Board))) =
      ((calls.filterMap Board.Call.edit?).mapM Prod.snd).map fun es =>
        (0, .sole frame { input, edits := es }) := by
    intro input calls editing
    change (Board.sole frame { input }).performAll 0 calls >>= _ = _
    rw [Board.performAll_sole frame _ editing]
    cases (calls.filterMap Board.Call.edit?).mapM Prod.snd <;> rfl
  rw [layout, if_neg (not_not_intro enough)]
  cases s with
  | bannerAppend source banner =>
    obtain ⟨a, b, rfl⟩ := List.length_eq_two.mp enough
    rfl
  | coverWithImage source image region maxDuration =>
    obtain ⟨a, b, rfl⟩ := List.length_eq_two.mp enough
    exact alone a _ (by simp [Board.Call.edit?])
  | shortify source start maxDuration turns =>
    obtain ⟨a, rfl⟩ := List.length_eq_one_iff.mp enough
    refine alone a _ fun c hc => ?_
    split at hc <;> (simp at hc; rcases hc with rfl | rfl | rfl <;> rfl)

/-- **A layout** is refused for a fault of the parameters only, and else it is the board of the
scenario. -/
theorem layout_eq_ok {frame : Geometry} {laid : PipelineId × Board} :
    s.layout frame paths = .ok laid ↔
      s.parameterFault? = none ∧ laid = (0, s.board frame paths) := by
  simp only [layout_eq_map enough, map_eq_ok, mapM_edits_eq_ok enough, and_assoc, exists_and_left,
    exists_eq_left]
  rfl

end

/-- What is laid out is the board of the scenario, whose master is bound. -/
theorem of_layout_eq_ok {s : Scenario} {frame : Geometry} {paths : List String}
    {laid : PipelineId × Board} (h : s.layout frame paths = .ok laid) :
    paths.length = s.sources.length ∧ s.parameterFault? = none ∧ laid = (0, s.board frame paths) := by
  by_cases enough : paths.length = s.sources.length
  · exact ⟨enough, (layout_eq_ok enough).mp h⟩
  · rw [layout, if_pos enough] at h
    cases h

end Scenario

end Montage
