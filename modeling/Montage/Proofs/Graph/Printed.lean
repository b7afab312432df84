import Montage.Proofs.Graph.Lengths
import Montage.Proofs.Graph.Pieces
import Montage.Proofs.Graph.Rotations
import Montage.Proofs.Graph.Survivors
import Montage.Proofs.Number.Places

/-!
# Seconds as they are written

A text has the cuts of its streams in order, along their pictures and along the sounds that are taken
with them, and the silences that stand for the others. Seconds are written with three places there,
so a cut or a silence that is no longer than half a millisecond is written as one of no length.
-/

namespace Montage

/-! ## Pictures -/

structure ByFilter {α : Type} (f : Statement → List α) (k : Filter → List α) : Prop where
  chain : ∀ source filters target, f (.chain source filters target) = filters.flatMap k
  fit : ∀ input width height target, f (.fit input width height target) = []
  overlay : ∀ base image left top target, f (.overlay base image left top target) = []

namespace ByFilter

variable {α : Type} {f : Statement → List α} {k : Filter → List α} (h : ByFilter f k) (c : Chain)
include h

theorem closeSegment :
    c.closeSegment.statements.flatMap f ++ c.closeSegment.pending.flatMap k =
      c.statements.flatMap f ++ c.pending.flatMap k := by
  unfold Chain.closeSegment
  split
  · rfl
  · simp [h.chain]

theorem overlay_eq (image : String) (r : Region) :
    (c.overlay image r).statements.flatMap f ++ (c.overlay image r).pending.flatMap k =
      c.statements.flatMap f ++ c.pending.flatMap k := by
  rw [← h.closeSegment c]
  simp [Chain.overlay, h.fit, h.overlay]

/-- What is written and what is pending, taken together, grow by one step after the other. -/
theorem writeAll (steps : List (Step String)) :
    (c.writeAll steps).statements.flatMap f ++ (c.writeAll steps).pending.flatMap k =
      c.statements.flatMap f ++ c.pending.flatMap k ++ (filtersOf steps).flatMap k := by
  induction steps generalizing c with
  | nil => exact (List.append_nil _).symm
  | cons s steps ih =>
    refine (ih (c.write s)).trans ?_
    cases s with
    | filter g =>
      have pending : (c.push g).pending.flatMap k = c.pending.flatMap k ++ k g := by
        simp [Chain.push]
      change c.statements.flatMap f ++ (c.push g).pending.flatMap k ++ (filtersOf steps).flatMap k = _
      rw [pending]
      simp [filtersOf, Step.filter?]
    | overlay image r =>
      change (c.overlay image r).statements.flatMap f ++ (c.overlay image r).pending.flatMap k ++ _ = _
      rw [h.overlay_eq]
      rfl

theorem finish : c.finish.2.flatMap f = c.statements.flatMap f ++ c.pending.flatMap k := by
  unfold Chain.finish
  split
  · rename_i none
    rw [List.isEmpty_iff.mp none, List.flatMap_nil, List.append_nil]
  · simp [h.chain]

theorem compiled (p : Precision) (s : Stream) (index input : Nat) (frame : Geometry) :
    (s.compiled p index input frame).statements.flatMap f =
      (filtersOf (s.steps p frame)).flatMap k := by
  refine (h.finish _).trans ((h.writeAll _ _).trans ?_)
  simp [Chain.blank, Chain.start]

theorem layOut (p : Precision) (frame : Geometry) (index input : Nat) (streams : List Stream) :
    ((layOut p frame index input streams).flatMap (·.statements)).flatMap f =
      streams.flatMap fun s => (filtersOf (s.steps p frame)).flatMap k := by
  induction streams generalizing index input with
  | nil => rfl
  | cons s rest ih =>
    rw [Montage.layOut, List.flatMap_cons, List.flatMap_append, ih, h.compiled, List.flatMap_cons]

end ByFilter

theorem flatMap_filter {α β : Type} (p : α → Bool) (f : α → List β) (l : List α) :
    (l.filter p).flatMap f = l.flatMap fun a => if p a then f a else [] := by
  induction l with
  | nil => rfl
  | cons a l ih =>
    rw [List.filter_cons, List.flatMap_cons, ← ih]
    split <;> simp

/-! ## Sounds -/

def Stream.Silenced (count : Nat) (s : Stream) : Prop :=
  .silentAudio ∈ s.edits ∨ 1 < count ∧ ¬ s.hasAudio

instance (count : Nat) : DecidablePred (Stream.Silenced count) := fun s =>
  inferInstanceAs (Decidable (Edit.silentAudio ∈ s.edits ∨ 1 < count ∧ ¬ s.hasAudio))

namespace Graph

variable {p : Precision} {frame : Geometry} {streams : List Stream} {g : Graph}
variable (hg : g = .ofCompiled p (layOut p frame 0 0 streams)) (ne : streams ≠ [])
include hg ne

theorem flatMap_statements {α : Type} {f : Statement → List α} {k : Filter → List α}
    {m : Stream → List α} (pictures : ByFilter f k) (join : ∀ l, f (.join l) = [])
    (sound : ∀ s input index, f (Stream.soundStatement p s input index) = m s) :
    g.statements.flatMap f =
      (streams.flatMap fun s => (filtersOf (s.steps p frame)).flatMap k) ++
        (streams.filter fun s => 1 < streams.length ∨ s.Sounds).flatMap m := by
  by_cases several : 1 < streams.length
  · have sounds : (soundsOf p streams).flatMap f = streams.flatMap m := by
      conv_rhs => rw [← List.zipIdx_map_fst 0 streams]
      rw [soundsOf, List.flatMap_map, List.flatMap_map]
      exact List.flatMap_congr fun x _ => sound x.1 _ x.2
    rw [hg, statements_of_several p frame several, List.flatMap_append, List.flatMap_append,
      pictures.layOut, sounds]
    simp [several, join]
  · obtain ⟨s, rfl⟩ := eq_singleton ne several
    rw [hg, (ofCompiled_of_one p frame s).1, List.flatMap_append, pictures.compiled]
    by_cases sounds : s.Sounds <;> simp [sounds, sound]

theorem flatMap_sounds {α : Type} {f : Statement → List α} {m : Stream → List α}
    (pictures : ByFilter f fun _ => []) (join : ∀ l, f (.join l) = [])
    (sound : ∀ s input index, f (Stream.soundStatement p s input index) = m s) :
    g.statements.flatMap f =
      streams.flatMap fun s => if 1 < streams.length ∨ s.Sounds then m s else [] := by
  have none : (streams.flatMap fun s => (filtersOf (s.steps p frame)).flatMap fun _ => []) =
      ([] : List α) := List.flatMap_eq_nil_iff.mpr (by simp)
  rw [flatMap_statements hg ne pictures join sound, none, List.nil_append, flatMap_filter]
  simp only [decide_eq_true_eq]

theorem pictureCuts_statements :
    g.statements.flatMap Statement.pictureCuts = streams.flatMap Stream.windows := by
  have pictures : ByFilter Statement.pictureCuts fun f => f.window?.toList :=
    ⟨fun _ _ _ => List.filterMap_eq_flatMap_toList _ _, fun _ _ _ _ => rfl, fun _ _ _ _ _ => rfl⟩
  have sound : ∀ s input index, (Stream.soundStatement p s input index).pictureCuts = [] := fun s _ _ =>
    (apply_ite Statement.pictureCuts s.Heard _ _).trans (ite_self _)
  have none : ∀ l : List Stream, (l.flatMap fun _ => []) = ([] : List Window) := fun l =>
    List.flatMap_eq_nil_iff.mpr fun _ _ => rfl
  rw [flatMap_statements hg ne pictures (fun _ => rfl) sound, none, List.append_nil]
  refine List.flatMap_congr fun s _ => ?_
  rw [← List.filterMap_eq_flatMap_toList, s.windows_steps]

theorem soundCuts_statements :
    g.statements.flatMap Statement.soundCuts =
      (streams.filter fun s => s.Heard).flatMap Stream.windows := by
  have pictures : ByFilter Statement.soundCuts fun _ => [] :=
    ⟨fun _ _ _ => (List.flatMap_eq_nil_iff.mpr fun _ _ => rfl).symm, fun _ _ _ _ => rfl,
      fun _ _ _ _ _ => rfl⟩
  have sound : ∀ s input index, (Stream.soundStatement p s input index).soundCuts =
      if s.Heard then s.windows else [] := fun s _ _ => apply_ite Statement.soundCuts s.Heard _ _
  rw [flatMap_sounds hg ne pictures (fun _ => rfl) sound, flatMap_filter]
  simp only [decide_eq_true_eq]
  refine List.flatMap_congr fun s _ => ?_
  by_cases heard : s.Heard
  · rw [if_pos heard, if_pos (show 1 < streams.length ∨ s.Sounds from .inr (.inl heard.1))]
  · rw [if_neg heard, ite_self]

theorem silences_statements :
    g.statements.filterMap Statement.silence? =
      (streams.filter fun s => s.Silenced streams.length).map (·.remaining p) := by
  have pictures : ByFilter (fun st => st.silence?.toList) fun _ => [] :=
    ⟨fun _ _ _ => (List.flatMap_eq_nil_iff.mpr fun _ _ => rfl).symm, fun _ _ _ _ => rfl,
      fun _ _ _ _ _ => rfl⟩
  have sound : ∀ s input index, (Stream.soundStatement p s input index).silence?.toList =
      if s.Heard then [] else [s.remaining p] := fun s _ _ =>
    apply_ite (fun st : Statement => st.silence?.toList) s.Heard _ _
  rw [List.filterMap_eq_flatMap_toList, flatMap_sounds hg ne pictures (fun _ => rfl) sound,
    List.map_eq_flatMap, flatMap_filter]
  simp only [decide_eq_true_eq]
  refine List.flatMap_congr fun s _ => ?_
  by_cases silent : .silentAudio ∈ s.edits
  · simp [Stream.Heard, Stream.Sounds, Stream.Silenced, silent]
  · by_cases audio : s.hasAudio <;>
      simp [Stream.Heard, Stream.Sounds, Stream.Silenced, silent, audio]

end Graph

structure Shows (cs : List Clause) (streams : List Stream) : Prop where
  pictures : cs.flatMap Clause.pictureCuts = (streams.flatMap Stream.windows).map Window.shown
  sounds : cs.flatMap Clause.soundCuts =
    ((streams.filter fun s => s.Heard).flatMap Stream.windows).map Window.shown
  silences : cs.filterMap Clause.silence? =
    (streams.filter fun s => s.Silenced streams.length).map fun s =>
      [[("duration", (s.remaining .double).fixed 3)]]

theorem Graph.shows_of_ok {streams : List Stream} {frame : Geometry} {g : Graph}
    (h : compile streams frame = .ok g) : ∃ cs, clausesOf? g.text = some cs ∧ Shows cs streams := by
  obtain ⟨heard, wiring⟩ := wiring_of_ok h
  obtain ⟨ne, hg⟩ := eq_ofCompiled_of_ok h
  refine ⟨_, wiring.clausesOf?_text, ?_, ?_, ?_⟩
  · rw [List.flatMap_map, ← pictureCuts_statements hg ne, List.map_flatMap]
    exact List.flatMap_congr fun st hst => Statement.pictureCuts_clause (wiring.bodies st hst)
  · rw [List.flatMap_map, ← soundCuts_statements hg ne, List.map_flatMap]
    exact List.flatMap_congr fun st hst => Statement.soundCuts_clause (wiring.bodies st hst)
  · have silences := congrArg (List.map fun length : Scalar => [[("duration", length.fixed 3)]])
      (silences_statements hg ne)
    rw [List.map_filterMap, List.map_map] at silences
    rw [List.filterMap_map]
    refine Eq.trans ?_ silences
    exact List.filterMap_congr fun st hst => Statement.silence?_clause (wiring.bodies st hst)

/-! ## Numbers -/

def Edit.Accepted : Edit → Prop
  | trim start duration => trim? start duration = .ok (trim start duration)
  | _ => True

instance : DecidablePred Edit.Accepted
  | .trim start duration =>
    inferInstanceAs (Decidable (Edit.trim? start duration = .ok (.trim start duration)))
  | .colorAdjust _ | .rotate _ | .overlay _ _ | .silentAudio | .targetGeometry _ => isTrue trivial

theorem Edit.accepted_trim {start duration : Scalar} (h : (trim start duration).Accepted) :
    start.isFinite ∧ start.Measured ∧ Scalar.zero.lt duration := by
  have number : ∀ {x : Scalar}, x.isFinite → x.isNaN = false := by
    rintro (_ | _ | _ | _ | _) finite <;> first | rfl | cases finite
  change trim? start duration = .ok (trim start duration) at h
  unfold trim? at h
  by_cases begins : (!start.isFinite || start.lt .zero) = true
  · rw [if_pos begins] at h
    cases h
  by_cases lasts : (!duration.isFinite || duration.le .zero) = true
  · rw [if_neg begins, if_pos lasts] at h
    cases h
  simp only [Bool.or_eq_true, Bool.not_eq_true', not_or, Bool.not_eq_false, Bool.not_eq_true]
    at begins lasts
  have zero : Scalar.zero.isNaN = false := rfl
  refine ⟨begins.1, ?_, ?_⟩
  · simp [Scalar.Measured, Scalar.le, number begins.1, begins.2, zero]
  · simpa [Scalar.le, number lasts.1, zero] using lasts.2

namespace Scalar

theorem rounded_of_isFinite {x : Scalar} (finite : x.isFinite) (places : Nat) :
    x.rounded places = num (roundTo places x.seconds) := by
  cases x with
  | num q => rfl
  | negZero =>
    refine congrArg num ?_
    simp [seconds, value?, roundTo, nearestEven]
  | _ => cases finite

variable {x : Scalar} (h : x.Measured)
include h

theorem Measured.finite_or : x.isFinite ∧ 0 ≤ x.seconds ∨ x = posInf := by
  cases x with
  | num q => exact .inl ⟨rfl, measured_num.mp h⟩
  | negZero => exact .inl ⟨rfl, le_refl 0⟩
  | posInf => exact .inr rfl
  | _ => cases h

theorem Measured.shown {places : Nat} (point : 0 < places) :
    shown? (x.fixed places) = some (x.rounded places) := by
  obtain ⟨finite, -⟩ | rfl := h.finite_or
  · exact shown?_fixed point finite
  · exact shown?_inf

theorem Measured.lt_rounded (places : Nat) :
    zero.lt (x.rounded places) ↔ (num (1 / (2 * 10 ^ places))).lt x := by
  obtain ⟨finite, above⟩ | rfl := h.finite_or
  · rw [rounded_of_isFinite finite, lt_zero_num, num_lt_iff finite, decide_eq_true_eq,
      roundTo_pos_iff above]
  · exact iff_of_true rfl rfl

theorem Measured.rounded_lt (finite : x.isFinite) (places : Nat) {left : Scalar}
    (room : (num (x.seconds + 1 / (2 * 10 ^ places))).lt left) : (x.rounded places).lt left := by
  obtain ⟨-, above⟩ | rfl := h.finite_or
  · have up := (roundTo_bounds above places).2
    rw [rounded_of_isFinite finite]
    cases left with
    | num q => exact decide_eq_true (up.trans_lt (of_decide_eq_true room))
    | negZero => exact decide_eq_true (up.trans_lt (of_decide_eq_true room))
    | posInf => rfl
    | _ => cases room
  · cases finite

end Scalar

/-! ## What is written of cuts and silences -/

/-- **Cuts as they are written.** A cut that is accepted is written as one of some length just when
it lasts more than half a millisecond, and as one that begins in what remains if more than half a
millisecond remains behind its start. -/
theorem Graph.shown_cuts {streams : List Stream} {frame : Geometry} {g : Graph}
    (h : compile streams frame = .ok g)
    (accepted : ∀ s ∈ streams, ∀ e ∈ s.edits, e.Accepted) :
    (∃ cs, clausesOf? g.text = some cs ∧
      cs.flatMap Clause.pictureCuts = (streams.flatMap Stream.windows).map Window.shown ∧
      cs.flatMap Clause.soundCuts =
        ((streams.filter fun s => s.Heard).flatMap Stream.windows).map Window.shown) ∧
    ∀ s ∈ streams, ∀ before start duration after, s.edits = before ++ .trim start duration :: after →
      shown? (start.fixed 3) = some (start.rounded 3) ∧
        shown? (duration.fixed 3) = some (duration.rounded 3) ∧
        (Scalar.zero.lt (duration.rounded 3) ↔ (Scalar.num (1 / 2000)).lt duration) ∧
        ((Scalar.num (start.seconds + 1 / 2000)).lt ((s.withEdits before).remaining .double) →
          (start.rounded 3).lt ((s.withEdits before).remaining .double)) := by
  have half : (1 / (2 * 10 ^ 3) : Rat) = 1 / 2000 := by norm_num
  refine ⟨?_, ?_⟩
  · obtain ⟨cs, read, shows⟩ := shows_of_ok h
    exact ⟨cs, read, shows.pictures, shows.sounds⟩
  · intro s hs before start duration after split
    have cut : Edit.trim start duration ∈ s.edits := by simp [split]
    obtain ⟨finite, begins, lasts⟩ := Edit.accepted_trim (accepted s hs _ cut)
    have lasting := Scalar.measured_of_pos lasts
    refine ⟨begins.shown (by decide), lasting.shown (by decide), ?_, ?_⟩
    · rw [lasting.lt_rounded, half]
    · rw [← half]
      exact begins.rounded_lt finite 3

theorem Graph.shown_cuts_cutStreams :
    (∀ s ∈ cutStreams, ∀ e ∈ s.edits, e.Accepted) ∧
      ∃ g cs, compile cutStreams ⟨1080, 1920⟩ = .ok g ∧ clausesOf? g.text = some cs ∧
        cs.flatMap Clause.pictureCuts =
          [[("start", "1.000"), ("duration", "8.000")], [("start", "3.000"), ("duration", "20.000")],
            [("start", "-0.000"), ("duration", "4.000")]] ∧
        cs.flatMap Clause.soundCuts =
          [[("start", "1.000"), ("duration", "8.000")],
            [("start", "3.000"), ("duration", "20.000")]] := by
  have accepted : ∀ s ∈ cutStreams, ∀ e ∈ s.edits, e.Accepted := by decide +kernel
  obtain ⟨g, ok⟩ := exists_of_isOk (x := compile cutStreams ⟨1080, 1920⟩) (by decide +kernel)
  obtain ⟨⟨cs, read, pictures, sounds⟩, -⟩ := shown_cuts ok accepted
  refine ⟨accepted, g, cs, ok, read, pictures.trans ?_, sounds.trans ?_⟩
  · decide +kernel
  · decide +kernel

/-- A clip that is cut to less than half a millisecond, and one that is cut from less than half a
millisecond before its end on. -/
def briefStreams : List Stream :=
  [⟨"a.mp4", [.trim (.num 0) (.num (1 / 16384))], true, .num 10⟩,
    ⟨"b.mp4", [.trim (.num (10 - 1 / 16384)) (.num 5)], true, .num 10⟩]

/-- Cuts that are accepted are written without any length, or from the end of their clip on. -/
theorem Graph.empty_cuts_briefStreams :
    (∀ s ∈ briefStreams, ∀ e ∈ s.edits, e.Accepted) ∧ (∀ s ∈ briefStreams, s.duration = .num 10) ∧
      ∃ g cs, compile briefStreams ⟨1080, 1920⟩ = .ok g ∧ clausesOf? g.text = some cs ∧
        cs.flatMap Clause.pictureCuts =
          [[("start", "0.000"), ("duration", "0.000")], [("start", "10.000"), ("duration", "5.000")]] ∧
        cs.flatMap Clause.soundCuts = cs.flatMap Clause.pictureCuts ∧
        shown? "0.000" = some (.num 0) ∧ shown? "10.000" = some (.num 10) := by
  have accepted : ∀ s ∈ briefStreams, ∀ e ∈ s.edits, e.Accepted := by decide +kernel
  obtain ⟨g, ok⟩ := exists_of_isOk (x := compile briefStreams ⟨1080, 1920⟩) (by decide +kernel)
  obtain ⟨cs, read, shows⟩ := shows_of_ok ok
  have cuts : (briefStreams.flatMap Stream.windows).map Window.shown =
      [[("start", "0.000"), ("duration", "0.000")], [("start", "10.000"), ("duration", "5.000")]] := by
    decide +kernel
  refine ⟨accepted, by decide, g, cs, ok, read, shows.pictures.trans cuts, ?_, ?_, ?_⟩
  · rw [shows.sounds, shows.pictures]
    rfl
  · decide +kernel
  · decide +kernel

/-- **Silences as they are written.** A silence is written as one of some length just when more than
half a millisecond remains of its stream. -/
theorem Graph.shown_silences {streams : List Stream} {frame : Geometry} {g : Graph}
    (h : compile streams frame = .ok g)
    (accepted : ∀ s ∈ streams, ∀ e ∈ s.edits, e.Accepted) :
    (∃ cs, clausesOf? g.text = some cs ∧
      cs.filterMap Clause.silence? =
        (streams.filter fun s => s.Silenced streams.length).map fun s =>
          [[("duration", (s.remaining .double).fixed 3)]]) ∧
    ∀ s ∈ streams, shown? ((s.remaining .double).fixed 3) = some ((s.remaining .double).rounded 3) ∧
      (Scalar.zero.lt ((s.remaining .double).rounded 3) ↔
        (Scalar.num (1 / 2000)).lt (s.remaining .double)) := by
  have half : (1 / (2 * 10 ^ 3) : Rat) = 1 / 2000 := by norm_num
  refine ⟨?_, ?_⟩
  · obtain ⟨cs, read, shows⟩ := shows_of_ok h
    exact ⟨cs, read, shows.silences⟩
  · intro s hs
    have remains : (s.remaining .double).Measured := by
      apply s.measured_remaining
      intro w hw
      obtain ⟨e, he, some⟩ := List.mem_filterMap.mp hw
      cases e with
      | trim start duration =>
        obtain rfl := Option.some.inj some
        exact Scalar.measured_of_pos (Edit.accepted_trim (accepted s hs _ he)).2.2
      | _ => cases some
    refine ⟨remains.shown (by decide), ?_⟩
    rw [remains.lt_rounded, half]

def quietStreams : List Stream :=
  [⟨"a.mp4", [.silentAudio], true, .num 4⟩,
    ⟨"b.mp4", [.trim (.num 1) (.num 2), .rotate 1], false, .num 10⟩, ⟨"c.mp4", [], true, .num 3⟩]

theorem Graph.shown_silences_quietStreams :
    (∀ s ∈ quietStreams, ∀ e ∈ s.edits, e.Accepted) ∧
      ∃ g cs, compile quietStreams ⟨1080, 1920⟩ = .ok g ∧ clausesOf? g.text = some cs ∧
        cs.filterMap Clause.silence? = [[[("duration", "4.000")]], [[("duration", "2.000")]]] := by
  have accepted : ∀ s ∈ quietStreams, ∀ e ∈ s.edits, e.Accepted := by decide +kernel
  obtain ⟨g, ok⟩ := exists_of_isOk (x := compile quietStreams ⟨1080, 1920⟩) (by decide +kernel)
  obtain ⟨⟨cs, read, silences⟩, -⟩ := shown_silences ok accepted
  exact ⟨accepted, g, cs, ok, read, silences.trans (by decide +kernel)⟩

def lengthlessStreams : List Stream :=
  [⟨"a.mp4", [.silentAudio], true, .num 0⟩, ⟨"b.mp4", [], false, .num 0⟩]

/-- Where no length is known, silence is written without any length. -/
theorem Graph.empty_silences_lengthlessStreams :
    (∀ s ∈ lengthlessStreams, ∀ e ∈ s.edits, e.Accepted) ∧
      ∃ g cs, compile lengthlessStreams ⟨1080, 1920⟩ = .ok g ∧ clausesOf? g.text = some cs ∧
        cs.filterMap Clause.silence? = [[[("duration", "0.000")]], [[("duration", "0.000")]]] ∧
        shown? "0.000" = some (.num 0) := by
  have accepted : ∀ s ∈ lengthlessStreams, ∀ e ∈ s.edits, e.Accepted := by decide +kernel
  obtain ⟨g, ok⟩ := exists_of_isOk (x := compile lengthlessStreams ⟨1080, 1920⟩) (by decide +kernel)
  obtain ⟨cs, read, shows⟩ := shows_of_ok ok
  refine ⟨accepted, g, cs, ok, read, shows.silences.trans ?_, ?_⟩
  · decide +kernel
  · decide +kernel

end Montage
