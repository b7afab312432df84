import Mathlib.Algebra.BigOperators.Group.List.Basic
import Mathlib.Algebra.Order.Field.Rat
import Mathlib.Algebra.Order.Ring.WithTop
import Mathlib.Tactic.Linarith
import Mathlib.Tactic.Ring
import Montage.Proofs.Graph.Sound

/-!
# What survives the cuts

Read as exact numbers, the seconds that a chain counts are the length of what its cuts leave of the
source: a span of time, which has no stop while the length of the source is unknown and no cut has
given it one. A stream is refused just when a cut leaves nothing of its span, and a graph is as long
as the spans of its streams together.
-/

namespace Montage

/-! ## Spans -/

/-- A stretch of a source in seconds, from `start` up to `stop`, which may be far away. -/
structure Span where
  start : Rat
  stop : WithTop Rat

namespace Span

/-- A source as a whole, without an end when its length is not above zero and so unknown. -/
def whole (length : Rat) : Span := ⟨0, if 0 < length then (length : Rat) else ⊤⟩

def cut (x : Span) (skip lasting : Rat) : Span :=
  ⟨x.start + skip, min x.stop ↑(x.start + skip + lasting)⟩

def IsEmpty (x : Span) : Prop := x.stop ≤ x.start

/-- Seconds from start to stop, which count for nothing when there is no stop. -/
def length (x : Span) : Rat := x.stop.untopD x.start - x.start

end Span

def Scalar.seconds (x : Scalar) : Rat := x.value?.getD 0

def Edit.leave (x : Span) : Edit → Span
  | trim start duration => x.cut start.seconds duration.seconds
  | _ => x

def CutAway (x : Span) (es : List Edit) : Prop :=
  ∃ before start duration after, es = before ++ .trim start duration :: after ∧
    ((before ++ [.trim start duration]).foldl Edit.leave x).IsEmpty

def Edit.Timed : Edit → Prop
  | trim start duration => start.isFinite ∧ duration.isFinite ∧ 0 < duration.seconds
  | _ => True

namespace Stream

def span (s : Stream) : Span := s.edits.foldl Edit.leave (.whole s.duration.seconds)

structure Timed (s : Stream) : Prop where
  duration : s.duration.isFinite
  edits : ∀ e ∈ s.edits, e.Timed

end Stream

/-! ## Counting what is left -/

namespace Scalar

theorem exists_num_of_pos {x : Scalar} (h : 0 < x.seconds) : ∃ q, 0 < q ∧ x = num q := by
  cases x with
  | num q => exact ⟨q, h, rfl⟩
  | _ => exact absurd h (lt_irrefl 0)

theorem lt_zero_num (q : Rat) : zero.lt (num q) = decide (0 < q) := rfl

theorem num_lt_iff {x : Scalar} (finite : x.isFinite) (q : Rat) : (num q).lt x ↔ q < x.seconds := by
  cases x with
  | num a => simp [lt, seconds, value?]
  | negZero => simp [lt, seconds, value?]
  | _ => cases finite

theorem lt_zero_iff {x : Scalar} (finite : x.isFinite) : zero.lt x ↔ 0 < x.seconds :=
  num_lt_iff finite 0

theorem ge_num {x : Scalar} (finite : x.isFinite) (q : Rat) : x.ge (num q) ↔ q ≤ x.seconds := by
  cases x with
  | num a => simp [ge, le, isNaN, lt, seconds, value?]
  | negZero => simp [ge, le, isNaN, lt, seconds, value?]
  | _ => cases finite

theorem sub_exact {x : Scalar} (finite : x.isFinite) (q : Rat) :
    sub .exact (num q) x = num (q - x.seconds) := by
  cases x with
  | num a =>
    by_cases none : a = 0
    · simp [sub, neg, add, none, seconds, value?]
    · simp [sub, neg, add, none, seconds, value?, Precision.round, sub_eq_add_neg]
  | negZero => simp [sub, neg, add, seconds, value?, Precision.round]
  | _ => cases finite

theorem nonneg_num {q : Rat} (h : 0 < q) : (num q).nonneg = num q := by
  simp [nonneg, lt_zero_num, h]

theorem min_num (a b : Rat) : (num a).min (num b) = num (Min.min a b) := by
  rcases lt_or_ge b a with below | above
  · simp [Scalar.min, lt, below, min_eq_right below.le]
  · simp [Scalar.min, lt, isNaN, not_lt.mpr above, min_eq_left above]

end Scalar

/-- How many seconds of a span are left, counted as a chain counts them: a span without a stop counts
as zero, and any other one as a number above zero. -/
inductive Span.Counts (x : Span) : Scalar → Prop
  | endless (stop : x.stop = ⊤) : x.Counts .zero
  | left (seconds : Rat) (pos : 0 < seconds) (stop : x.stop = ↑(x.start + seconds)) :
    x.Counts (.num seconds)

namespace Span

theorem isEmpty_cut_iff {x : Span} {skip lasting : Rat} (lasts : 0 < lasting) :
    (x.cut skip lasting).IsEmpty ↔ x.stop ≤ ↑(x.start + skip) := by
  have behind : ¬ ((x.start + skip + lasting : Rat) : WithTop Rat) ≤ ↑(x.start + skip) := by
    rw [WithTop.coe_le_coe]
    linarith
  exact min_le_iff.trans (or_iff_left behind)

variable {x : Span} {remaining : Scalar} {start duration : Scalar}

theorem Counts.eq_length (h : x.Counts remaining) : remaining = .num x.length := by
  cases h with
  | endless stop => rw [length, stop, WithTop.untopD_top, sub_self, Scalar.zero]
  | left seconds _ stop => rw [length, stop, WithTop.untopD_coe, add_sub_cancel_left]

theorem Counts.length_pos (h : x.Counts remaining) (known : x.stop ≠ ⊤) : 0 < x.length := by
  cases h with
  | endless stop => exact absurd stop known
  | left seconds pos stop => rwa [length, stop, WithTop.untopD_coe, add_sub_cancel_left]

theorem counts_whole {d : Scalar} (finite : d.isFinite) : (whole d.seconds).Counts d.nonneg := by
  by_cases known : 0 < d.seconds
  · obtain ⟨q, pos, rfl⟩ := Scalar.exists_num_of_pos known
    rw [Scalar.nonneg_num pos]
    exact .left q pos (by simp [whole, Scalar.seconds, Scalar.value?, pos])
  · rw [show d.nonneg = .zero from if_neg (by rwa [Scalar.lt_zero_iff finite])]
    exact .endless (by simp [whole, known])

section
variable (startFinite : start.isFinite) (lasts : 0 < duration.seconds)
include startFinite lasts

theorem Counts.beginsIn_iff (h : x.Counts remaining) :
    (Window.mk start duration).beginsIn remaining ↔
      ¬ (x.cut start.seconds duration.seconds).IsEmpty := by
  rw [isEmpty_cut_iff lasts]
  cases h with
  | endless stop =>
    rw [stop]
    exact iff_of_true rfl (WithTop.not_top_le_coe _)
  | left seconds pos stop =>
    rw [stop, WithTop.coe_le_coe, add_le_add_iff_left, ← Scalar.ge_num startFinite]
    simp [Window.beginsIn, Scalar.lt_zero_num, pos]

theorem Counts.cut (h : x.Counts remaining)
    (inTime : (Window.mk start duration).beginsIn remaining) :
    (x.cut start.seconds duration.seconds).Counts
      (Chain.cutRemaining .exact remaining ⟨start, duration⟩) := by
  have keeps := (h.beginsIn_iff startFinite lasts).mp inTime
  rw [isEmpty_cut_iff lasts] at keeps
  obtain ⟨q, pos, rfl⟩ := Scalar.exists_num_of_pos lasts
  cases h with
  | endless stop => exact .left q pos (by simp [Span.cut, stop, Scalar.seconds, Scalar.value?])
  | left seconds known stop =>
    have rest : 0 < seconds - start.seconds := by
      rw [stop, WithTop.coe_le_coe, add_le_add_iff_left] at keeps
      linarith
    have count : Chain.cutRemaining .exact (.num seconds) ⟨start, .num q⟩ =
        .num (min (seconds - start.seconds) q) := by
      simp only [Chain.cutRemaining, Scalar.lt_zero_num, known, decide_true, if_true,
        Scalar.sub_exact startFinite, Scalar.nonneg_num rest, Scalar.min_num]
    rw [count]
    refine .left _ (lt_min rest pos) ?_
    change min x.stop ↑(x.start + start.seconds + q) =
      ↑(x.start + start.seconds + min (seconds - start.seconds) q)
    have back : x.start + start.seconds + (seconds - start.seconds) = x.start + seconds := by ring
    rw [stop, ← WithTop.coe_min, ← min_add_add_left, back]

end

end Span

/-! ## Streams -/

theorem filterMap_window?_trim (start duration : Scalar) (es : List Edit) :
    (Edit.trim start duration :: es).filterMap Edit.window? =
      ⟨start, duration⟩ :: es.filterMap Edit.window? := rfl

theorem cutAway_nil (x : Span) : ¬ CutAway x [] := by
  rintro ⟨before, start, duration, after, none, -⟩
  simp at none

theorem cutAway_cons {x : Span} {e : Edit} {es : List Edit} :
    CutAway x (e :: es) ↔ e.window?.isSome ∧ (e.leave x).IsEmpty ∨ CutAway (e.leave x) es := by
  constructor
  · rintro ⟨before, start, duration, after, cut, empty⟩
    cases before with
    | nil =>
      obtain ⟨rfl, rfl⟩ := List.cons.inj cut
      exact .inl ⟨rfl, empty⟩
    | cons b before =>
      obtain ⟨rfl, rfl⟩ := List.cons.inj cut
      exact .inr ⟨before, start, duration, after, rfl, empty⟩
  · rintro (⟨isCut, empty⟩ | ⟨before, start, duration, after, rfl, empty⟩)
    · cases e with
      | trim start duration => exact ⟨[], start, duration, es, rfl, empty⟩
      | _ => cases isCut
    · exact ⟨e :: before, start, duration, after, rfl, empty⟩

namespace Span.Counts

variable {x : Span} {remaining : Scalar} {es : List Edit}

theorem fits_iff (h : x.Counts remaining) (timed : ∀ e ∈ es, e.Timed) :
    Fits .exact remaining (es.filterMap Edit.window?) ↔ ¬ CutAway x es := by
  induction es generalizing x remaining with
  | nil => exact iff_of_true trivial (cutAway_nil x)
  | cons e es ih =>
    rw [List.forall_mem_cons] at timed
    rw [cutAway_cons, not_or]
    cases e with
    | trim start duration =>
      obtain ⟨startFinite, -, lasts⟩ := timed.1
      have first := h.beginsIn_iff startFinite lasts
      rw [filterMap_window?_trim, Fits, first]
      simp only [Edit.window?, Option.isSome_some, true_and]
      exact and_congr_right fun keeps => ih (h.cut startFinite lasts (first.mpr keeps)) timed.2
    | _ =>
      rw [List.filterMap_cons_none rfl, ih h timed.2]
      simp [Edit.window?, Edit.leave]

theorem edits (h : x.Counts remaining) (timed : ∀ e ∈ es, e.Timed)
    (fits : Fits .exact remaining (es.filterMap Edit.window?)) :
    (es.foldl Edit.leave x).Counts
      ((es.filterMap Edit.window?).foldl (Chain.cutRemaining .exact) remaining) := by
  induction es generalizing x remaining with
  | nil => exact h
  | cons e es ih =>
    rw [List.forall_mem_cons] at timed
    cases e with
    | trim start duration =>
      obtain ⟨startFinite, -, lasts⟩ := timed.1
      rw [filterMap_window?_trim] at fits ⊢
      exact ih (h.cut startFinite lasts fits.1) timed.2 fits.2
    | _ =>
      rw [List.filterMap_cons_none rfl] at fits ⊢
      exact ih h timed.2 fits

end Span.Counts

theorem stop_foldl_leave {x : Span} {es : List Edit}
    (h : x.stop ≠ ⊤ ∨ es.filterMap Edit.window? ≠ []) : (es.foldl Edit.leave x).stop ≠ ⊤ := by
  induction es generalizing x with
  | nil => simpa using h
  | cons e es ih =>
    cases e with
    | trim start duration => exact ih (.inl (ne_top_of_le_ne_top WithTop.coe_ne_top (min_le_right _ _)))
    | _ => exact ih h

namespace Stream

variable {s : Stream} (timed : s.Timed)
include timed

theorem Timed.fits_iff :
    Fits .exact s.duration.nonneg s.windows ↔ ¬ CutAway (.whole s.duration.seconds) s.edits :=
  (Span.counts_whole timed.duration).fits_iff timed.edits

theorem Timed.counts (fits : Fits .exact s.duration.nonneg s.windows) :
    s.span.Counts (s.remaining .exact) :=
  (Span.counts_whole timed.duration).edits timed.edits fits

end Stream

theorem Scalar.sum_exact {xs : List Rat} (ne : xs ≠ []) : sum .exact (xs.map num) = num xs.sum := by
  have rest : ∀ (xs : List Rat) (a : Rat), (xs.map num).foldl (add .exact) (num a) = num (a + xs.sum) := by
    intro xs
    induction xs with
    | nil => simp
    | cons x xs ih =>
      intro a
      rw [List.map_cons, List.foldl_cons, List.sum_cons, ← add_assoc]
      exact ih (a + x)
  obtain ⟨x, xs, rfl⟩ := List.exists_cons_of_ne_nil ne
  exact (rest xs x).trans (by rw [List.sum_cons])

namespace Graph

section
variable {p : Precision} {streams streams' : List Stream} {frame : Geometry}

theorem duration_congr
    (same : streams'.map (fun s => (s.duration, s.windows)) =
      streams.map fun s => (s.duration, s.windows)) :
    (compileIn p streams' frame).toOption.map duration =
      (compileIn p streams frame).toOption.map duration := by
  have fits : ∀ l : List Stream, (∀ s ∈ l, Fits p s.duration.nonneg s.windows) ↔
      ∀ t ∈ l.map (fun s => (s.duration, s.windows)), Fits p t.1.nonneg t.2 := fun l => by
    rw [List.forall_mem_map]
  have lengths : ∀ l : List Stream, l.map (·.remaining p) =
      (l.map fun s => (s.duration, s.windows)).map fun t =>
        t.2.foldl (Chain.cutRemaining p) t.1.nonneg := fun l => by
    rw [List.map_map]
    rfl
  have some : streams' ≠ [] ↔ streams ≠ [] := by
    rw [← not_iff_not, not_not, not_not, ← List.map_eq_nil_iff, same, List.map_eq_nil_iff]
  have ok : (compileIn p streams' frame).isOk ↔ (compileIn p streams frame).isOk := by
    rw [compileIn_isOk, compileIn_isOk, some, fits, fits, same]
  cases h : compileIn p streams frame with
  | error e =>
    cases h' : compileIn p streams' frame with
    | error e' => rfl
    | ok g' => simp [h, h'] at ok
  | ok g =>
    cases h' : compileIn p streams' frame with
    | error e' => simp [h, h'] at ok
    | ok g' =>
      obtain ⟨-, rfl⟩ := eq_ofCompiled_of_ok h
      obtain ⟨-, rfl⟩ := eq_ofCompiled_of_ok h'
      simp only [Except.toOption, Option.map_some, duration_ofCompiled, lengths, same]

end

/-- **Cuts keep what survives them.** -/
theorem survivors {streams : List Stream} {frame : Geometry} (ne : streams ≠ [])
    (area : frame.hasArea) (timed : ∀ s ∈ streams, s.Timed) :
    ((∃ reason, compileIn .exact streams frame = .error (.invalidArgument reason)) ↔
        ∃ s ∈ streams, CutAway (.whole s.duration.seconds) s.edits) ∧
      ((¬ ∃ s ∈ streams, CutAway (.whole s.duration.seconds) s.edits) →
        ∃ g, compileIn .exact streams frame = .ok g ∧
          g.duration = .num (streams.map fun s => s.span.length).sum ∧
          ∀ s ∈ streams, 0 < s.duration.seconds ∨ s.windows ≠ [] → 0 < s.span.length) ∧
      ∀ streams' : List Stream,
        streams'.map (fun s => (s.duration, s.windows)) =
            streams.map (fun s => (s.duration, s.windows)) →
          (compileIn .exact streams' frame).toOption.map duration =
            (compileIn .exact streams frame).toOption.map duration := by
  have ok : (compileIn .exact streams frame).isOk ↔
      ¬ ∃ s ∈ streams, CutAway (.whole s.duration.seconds) s.edits := by
    rw [compileIn_isOk, and_iff_right ne, and_iff_right area,
      forall₂_congr fun s hs => (timed s hs).fits_iff]
    simp only [not_exists, not_and]
  refine ⟨⟨?_, ?_⟩, ?_, fun streams' => duration_congr⟩
  · rintro ⟨reason, h⟩
    by_contra whole
    rw [← ok, h] at whole
    cases whole
  · intro cutAway
    cases h : compileIn .exact streams frame with
    | error e =>
      obtain ⟨reason, rfl⟩ := isArgument_of_compileIn ne h
      exact ⟨reason, rfl⟩
    | ok g =>
      rw [h] at ok
      exact absurd cutAway (ok.mp rfl)
  · intro whole
    cases h : compileIn .exact streams frame with
    | error e =>
      rw [h] at ok
      cases ok.mpr whole
    | ok g =>
      rw [← ok, compileIn_isOk] at whole
      have counts : ∀ s ∈ streams, s.span.Counts (s.remaining .exact) := fun s hs =>
        (timed s hs).counts (whole.2.2 s hs)
      refine ⟨g, rfl, ?_, fun s hs known => ?_⟩
      · obtain ⟨-, rfl⟩ := eq_ofCompiled_of_ok h
        have lengths : streams.map (·.remaining .exact) =
            (streams.map fun s => s.span.length).map .num := by
          rw [List.map_map]
          exact List.map_congr_left fun s hs => (counts s hs).eq_length
        rw [duration_ofCompiled, lengths, Scalar.sum_exact (by simpa using ne)]
      · apply (counts s hs).length_pos
        apply stop_foldl_leave
        exact known.imp_left fun known => by simp [Span.whole, known]

end Graph

/-- Two cuts of a clip of ten seconds, and one of a clip of unknown length, with other edits between
them; a third clip of unknown length is not cut. -/
def cutStreams : List Stream :=
  [⟨"a.mp4", [.trim (.num 1) (.num 8), .rotate 1, .trim (.num 3) (.num 20)], true, .num 10⟩,
    ⟨"b.mp4", [.silentAudio, .trim .negZero (.num 4)], false, .negZero⟩, ⟨"c.mp4", [], false, .num (-1)⟩]

theorem timed_cutStreams : ∀ s ∈ cutStreams, s.Timed := by
  have cut : ∀ q : Rat, 0 < q → ∀ start : Scalar, start.isFinite → (Edit.trim start (.num q)).Timed :=
    fun q lasts start finite => ⟨finite, rfl, lasts⟩
  simp only [cutStreams, List.forall_mem_cons]
  refine ⟨⟨rfl, ?_⟩, ⟨rfl, ?_⟩, ⟨rfl, ?_⟩, by simp⟩
  · simp only [List.forall_mem_cons]
    exact ⟨cut _ (by norm_num) _ rfl, trivial, cut _ (by norm_num) _ rfl, by simp⟩
  · simp only [List.forall_mem_cons]
    exact ⟨trivial, cut _ (by norm_num) _ rfl, by simp⟩
  · simp

theorem Graph.survivors_cutStreams :
    cutStreams ≠ [] ∧ (Geometry.mk 1080 1920).hasArea ∧ (∀ s ∈ cutStreams, s.Timed) ∧
      ∃ g, compileIn .exact cutStreams ⟨1080, 1920⟩ = .ok g ∧ g.duration = .num 9 := by
  have ne : cutStreams ≠ [] := by simp [cutStreams]
  have area : (Geometry.mk 1080 1920).hasArea := rfl
  obtain ⟨refused, kept, -⟩ := survivors ne area timed_cutStreams
  have whole : ¬ ∃ s ∈ cutStreams, CutAway (.whole s.duration.seconds) s.edits := by
    intro h
    obtain ⟨reason, e⟩ := refused.mpr h
    have ok : (compileIn .exact cutStreams ⟨1080, 1920⟩).isOk := by decide +kernel
    rw [e] at ok
    cases ok
  obtain ⟨g, ok, duration, -⟩ := kept whole
  refine ⟨ne, area, timed_cutStreams, g, ok, duration.trans (congrArg Scalar.num ?_)⟩
  decide +kernel

end Montage
