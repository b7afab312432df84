import Montage.Proofs.Compose.Layouts
import Montage.Proofs.Pipeline.Sessions

/-!
# Receivers of calls

A call is refused and then changes nothing, or it is accepted and then changes the
pipeline that received it, by one thing at its end. What a pipeline was bound to first
stays its source, and what was appended to it stays where it is, whatever is called,
compiled or rendered later.
-/

namespace Montage

theorem Geometry.validate_eq_ok {g g' : Geometry} : g.validate = .ok g' ↔ g.hasArea ∧ g' = g := by
  unfold validate
  by_cases area : g.hasArea
  · rw [if_pos area, Except.ok.injEq, and_iff_right area, eq_comm]
  · rw [if_neg area]
    exact iff_of_false nofun fun h => area h.1

namespace Board

/-! ## What is given to a call -/

def Call.given? : Call → Option Edit
  | .init _ | .concat _ => none
  | .colorAdjust => some (.colorAdjust .default)
  | .colorAdjustWith balance => some (.colorAdjust balance)
  | .rotate turns => some (.rotate turns)
  | .overlay image region => some (.overlay image region)
  | .trim start duration => some (.trim start duration)
  | .silentAudio => some .silentAudio
  | .targetGeometry width height => some (.targetGeometry ⟨width, height⟩)

theorem Call.given?_of_edit? {c : Call} {name : String} {e : Edit}
    (h : c.edit? = some (name, .ok e)) : c.given? = some e := by
  unfold edit? at h
  cases c with
  | init input => cases h
  | concat other => cases h
  | overlay image region =>
    simp only [Option.some.injEq, Prod.mk.injEq, map_eq_ok, Region.validate_eq_ok] at h
    obtain ⟨-, r, ⟨-, rfl⟩, rfl⟩ := h
    rfl
  | trim start duration =>
    simp only [Option.some.injEq, Prod.mk.injEq, Edit.trim?_eq_ok] at h
    obtain ⟨-, -, -, rfl⟩ := h
    rfl
  | targetGeometry width height =>
    simp only [Option.some.injEq, Prod.mk.injEq, map_eq_ok, Geometry.validate_eq_ok] at h
    obtain ⟨-, g, ⟨-, rfl⟩, rfl⟩ := h
    rfl
  | _ =>
    cases h
    rfl

/-! ## One call -/

/-- What an accepted call makes of the pipeline at `id`. -/
inductive Receives (id : PipelineId) (p : Pipeline) : Call → Pipeline → Prop
  | bound {input : String} : p.bound = none →
    Receives id p (.init input) { p with bound := some ⟨input, [], none⟩ }
  | appended {c : Call} {s : BoundSource} {e : Edit} : p.bound = some s → c.given? = some e →
    Receives id p c { p with bound := some { s with edits := s.edits ++ [e] } }
  | attached {other : PipelineId} : p.isMaster → p.bound.isSome →
    Receives id p (.concat other) { p with attachments := p.attachments ++ [attachment id other] }

section
variable {b b' : Board} {id : PipelineId} {c : Call}

theorem length_perform (h : b.perform id c = .ok b') :
    b'.pipelines.length = b.pipelines.length := by
  rw [perform_ok h]
  unfold set
  apply List.length_set

theorem get_perform_of_ne (h : b.perform id c = .ok b') {j : PipelineId} (ne : j ≠ id) :
    b'.get j = b.get j := by
  rw [perform_ok h, get_set]
  apply if_neg
  intro same
  exact ne same.1.symm

theorem get_perform (h : b.perform id c = .ok b') (there : id < b.pipelines.length) :
    b'.get id = carryOut id (b.get id) c := by
  rw [perform_ok h, get_set]
  apply if_pos
  exact ⟨rfl, there⟩

theorem append_unbound {name : String} {edit : Except RenderError Edit}
    (free : b.isBound id = false) : b.append id name edit = .error (.beforeInit name) := by
  unfold isBound at free
  have none : (b.get id).bound = none := by simpa using free
  unfold append
  simp only [none]

theorem bound_of_append {name : String} {edit : Except RenderError Edit}
    (h : b.append id name edit = .ok b') : ∃ s, (b.get id).bound = some s := by
  by_cases free : b.isBound id
  · exact Option.isSome_iff_exists.mp free
  · rw [append_unbound (eq_false_of_ne_true free)] at h
    cases h

theorem append_receives {name : String} {edit : Except RenderError Edit}
    (named : c.edit? = some (name, edit)) (h : b.append id name edit = .ok b') :
    Receives id (b.get id) c (carryOut id (b.get id) c) := by
  obtain ⟨s, hs⟩ := bound_of_append h
  obtain ⟨e, rfl, -⟩ := append_ok h
  unfold carryOut
  simp only [named, hs, Option.map_some]
  apply Receives.appended hs
  exact Call.given?_of_edit? named

theorem perform_receives (h : b.perform id c = .ok b') (there : id < b.pipelines.length) :
    Receives id (b.get id) c (b'.get id) := by
  rw [get_perform h there]
  cases c with
  | init input =>
    apply Receives.bound
    unfold perform Board.init at h
    cases free : (b.get id).bound with
    | none => rfl
    | some s => simp [Call.edit?, free] at h
  | concat other =>
    have made : b.concat id other = .ok b' := h
    rw [concat_eq] at made
    by_cases master : (b.get id).isMaster
    · by_cases held : b.isBound id
      · exact .attached master held
      · simp [master, held] at made
    · simp [master] at made
  | _ => exact append_receives rfl h

theorem perform_unbound (free : b.isBound id = false) (other : ∀ input, c ≠ .init input) :
    ∃ reason, b.perform id c = .error (.invalidState reason) := by
  cases c with
  | init input => exact absurd rfl (other input)
  | concat o =>
    have refused : ∃ reason, b.concat id o = .error (.invalidState reason) := by
      rw [concat_eq]
      by_cases master : (b.get id).isMaster
      · simp only [master, free, Bool.not_true, Bool.not_false, Bool.false_eq_true, if_false, if_true]
        exact ⟨_, rfl⟩
      · simp only [master, Bool.not_false, if_true]
        exact ⟨_, rfl⟩
    exact refused
  | _ => exact ⟨_, append_unbound free⟩

/-- Being bound comes before having an area. -/
example : (⟨[.unbound ⟨640, 360⟩ false]⟩ : Board).perform 0 (.targetGeometry 0 0) =
    .error (.beforeInit "target_geometry") := rfl

end

end Board

/-! ## Runs -/

structure BoundSource.Grows (s t : BoundSource) : Prop where
  input : t.input = s.input
  edits : s.edits <+: t.edits
  facts : ∀ {f}, s.facts = some f → t.facts = some f

theorem BoundSource.Grows.refl (s : BoundSource) : s.Grows s where
  input := rfl
  edits := List.prefix_refl _
  facts h := h

structure Pipeline.Grows (p q : Pipeline) : Prop where
  bound : ∀ {s}, p.bound = some s → ∃ t, q.bound = some t ∧ s.Grows t
  attachments : p.attachments <+: q.attachments

namespace Pipeline

theorem Grows.refl (p : Pipeline) : p.Grows p where
  bound {s} h := ⟨s, h, .refl s⟩
  attachments := List.prefix_refl _

theorem Grows.trans {p q r : Pipeline} (h : p.Grows q) (k : q.Grows r) : p.Grows r := by
  refine ⟨fun {s} hs => ?_, h.attachments.trans k.attachments⟩
  obtain ⟨t, ht, first⟩ := h.bound hs
  obtain ⟨u, hu, second⟩ := k.bound ht
  refine ⟨u, hu, second.input.trans first.input, first.edits.trans second.edits, ?_⟩
  intro f hf
  apply second.facts
  exact first.facts hf

theorem grows_unbound (frame : Geometry) (isMaster : Bool) (q : Pipeline) :
    (unbound frame isMaster).Grows q where
  bound h := nomatch h
  attachments := List.nil_prefix

theorem grows_of_receives {id : PipelineId} {p q : Pipeline} {c : Board.Call}
    (h : Board.Receives id p c q) : p.Grows q := by
  cases h with
  | bound free =>
    refine ⟨fun hs => ?_, List.prefix_refl _⟩
    rw [free] at hs
    cases hs
  | @appended c s e hs given =>
    refine ⟨fun {s'} hs' => ?_, List.prefix_refl _⟩
    obtain rfl := Option.some.inj (hs.symm.trans hs')
    exact ⟨_, rfl, rfl, List.prefix_append _ _, fun hf => hf⟩
  | attached master held => exact ⟨fun {s} hs => ⟨s, hs, .refl s⟩, List.prefix_append _ _⟩

end Pipeline

namespace Board

def Grows (b b' : Board) : Prop := ∀ id, (b.get id).Grows (b'.get id)

theorem Grows.trans {a b c : Board} (h : a.Grows b) (k : b.Grows c) : a.Grows c :=
  fun id => (h id).trans (k id)

theorem grows_of_perform {b b' : Board} {id : PipelineId} {c : Call}
    (h : b.perform id c = .ok b') : b.Grows b' := by
  intro j
  by_cases same : j = id
  · subst same
    by_cases there : j < b.pipelines.length
    · exact Pipeline.grows_of_receives (perform_receives h there)
    · rw [get_of_le (Nat.le_of_not_lt there)]
      apply Pipeline.grows_unbound
  · rw [get_perform_of_ne h same]
    apply Pipeline.Grows.refl

theorem after_of_ok {b b' : Board} {id : PipelineId} {c : Call} (h : b.perform id c = .ok b') :
    b.after (.call id c) = b' := by
  rw [after, h]

theorem after_of_error {b : Board} {id : PipelineId} {c : Call} {err : RenderError}
    (h : b.perform id c = .error err) : b.after (.call id c) = b := by
  rw [after, h]

theorem grows_after (b : Board) (a : Act) : b.Grows (b.after a) := by
  cases a with
  | new frame isMaster =>
    intro j
    unfold after
    rw [get_add]
    by_cases next : j = b.pipelines.length
    · rw [if_pos next, get_of_le (Nat.le_of_eq next.symm)]
      apply Pipeline.grows_unbound
    · rw [if_neg next]
      apply Pipeline.Grows.refl
  | call id c =>
    cases h : b.perform id c with
    | ok b' =>
      rw [after_of_ok h]
      exact grows_of_perform h
    | error err =>
      rw [after_of_error h]
      exact fun j => .refl _

theorem Informs.grows {b b' : Board} (h : b.Informs b') : b.Grows b' := by
  intro id
  have bare : (b'.get id).bare = (b.get id).bare := by rw [← get_bare, h.bare, get_bare]
  refine ⟨fun {s} hs => ?_, ?_⟩
  · have held : (b'.get id).bound.map BoundSource.bare = some s.bare := by
      have := congrArg Pipeline.bound bare
      simpa only [Pipeline.bare, hs, Option.map_some] using this
    obtain ⟨t, ht, same⟩ := Option.map_eq_some_iff.mp held
    simp only [BoundSource.bare, BoundSource.mk.injEq, and_true] at same
    refine ⟨t, ht, same.1, same.2 ▸ List.prefix_refl _, ?_⟩
    intro f hf
    have known : b.facts? id = some f := by rw [facts?_of_bound hs, hf]
    rw [← facts?_of_bound ht]
    exact h.facts known
  · have same : (b'.get id).attachments = (b.get id).attachments := by
      rw [← attachments_bare b', h.bare, attachments_bare]
    exact same ▸ List.prefix_refl _

end Board

namespace Engine

variable {σ : Type} (e : Engine σ)

theorem grows_after (s : Session σ) (d : Deed σ) : s.board.Grows (e.after s d).board := by
  cases d with
  | act a => exact s.board.grows_after a
  | _ => exact (e.after_learns rfl s).informs.grows

theorem grows_foldl_after (deeds : List (Deed σ)) (s : Session σ) :
    s.board.Grows (deeds.foldl e.after s).board := by
  induction deeds generalizing s with
  | nil => exact fun j => .refl _
  | cons d deeds ih =>
    rw [List.foldl_cons]
    exact (e.grows_after s d).trans (ih _)

/-- What calls on the pipelines of a session may do, now and later. -/
structure KeepsToReceivers (s : Session σ) : Prop where
  refused : ∀ {id c err}, s.board.perform id c = .error err → e.after s (.act (.call id c)) = s
  accepted : ∀ {id c b'}, s.board.perform id c = .ok b' →
    e.after s (.act (.call id c)) = { s with board := b' }
  receiver : ∀ {id c b'}, s.board.perform id c = .ok b' → id < s.board.pipelines.length →
    Board.Receives id (s.board.get id) c (b'.get id)
  others : ∀ {id c b'}, s.board.perform id c = .ok b' →
    b'.pipelines.length = s.board.pipelines.length ∧ ∀ j, j ≠ id → b'.get j = s.board.get j
  unbound : ∀ {id c}, s.board.isBound id = false → (∀ input, c ≠ .init input) →
    ∃ reason, s.board.perform id c = .error (.invalidState reason)
  later : ∀ deeds : List (Deed σ), s.board.Grows (deeds.foldl e.after s).board

/-- **Calls are all or nothing**, and touch their receivers only, whatever was done before. -/
theorem keeps_to_receivers (s : Session σ) : e.KeepsToReceivers s where
  refused h := by rw [after, Board.after_of_error h]
  accepted h := by rw [after, Board.after_of_ok h]
  receiver := Board.perform_receives
  others h := ⟨Board.length_perform h, fun _ => Board.get_perform_of_ne h⟩
  unbound := Board.perform_unbound
  later deeds := e.grows_foldl_after deeds s

end Engine

end Montage
