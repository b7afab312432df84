import Montage.Proofs.Graph.Layout

/-!
# Cuts

The cuts among the edits of a stream, one after the other, leave less and less of
it. A stream is refused only for a cut that begins where nothing is left, so streams
compile when the frame has an area and every cut begins in time.
-/

namespace Montage

def Edit.window? : Edit → Option Window
  | trim start duration => some ⟨start, duration⟩
  | _ => none

def Stream.windows (s : Stream) : List Window := s.edits.filterMap Edit.window?

/-- The seconds that remain after all cuts, zero when unknown. -/
def Stream.remaining (p : Precision) (s : Stream) : Scalar :=
  s.windows.foldl (Chain.cutRemaining p) s.duration.nonneg

def Window.beginsIn (w : Window) (remaining : Scalar) : Bool :=
  !(Scalar.zero.lt remaining && w.start.ge remaining)

theorem Window.beginsIn_zero (duration remaining : Scalar) :
    (Window.mk .zero duration).beginsIn remaining := by
  unfold beginsIn Scalar.ge Scalar.le
  cases Scalar.zero.lt remaining <;> simp

theorem Window.beginsIn_nonneg (w : Window) (d : Scalar) :
    w.beginsIn d.nonneg ↔ ¬ (Scalar.zero.lt d ∧ w.start.ge d) := by
  unfold beginsIn Scalar.nonneg
  cases known : Scalar.zero.lt d with
  | false => simp [show Scalar.zero.lt .zero = false by decide]
  | true => simp [known]

def Fits (p : Precision) : Scalar → List Window → Prop
  | _, [] => True
  | remaining, w :: ws => w.beginsIn remaining ∧ Fits p (Chain.cutRemaining p remaining w) ws

/-! ## In the books -/

namespace Books

variable (p : Precision) (b : Books) (e : Edit) (es : List Edit)

theorem cuts_note : (b.note p e).cuts = b.cuts ++ e.window?.toList := by
  cases e <;> simp [note, Edit.window?]

theorem silent_note : (b.note p e).silent = (b.silent || e == .silentAudio) := by
  cases e <;> simp [note]

theorem remaining_note :
    (b.note p e).remaining = e.window?.elim b.remaining (Chain.cutRemaining p b.remaining) := by
  cases e <;> simp [note, Edit.window?]

theorem cuts_foldl_note : (es.foldl (note p) b).cuts = b.cuts ++ es.filterMap Edit.window? := by
  induction es generalizing b with
  | nil => exact (List.append_nil _).symm
  | cons e es ih =>
    rw [List.foldl_cons, ih, cuts_note, List.append_assoc, List.filterMap_cons]
    cases e.window? <;> rfl

theorem silent_foldl_note : (es.foldl (note p) b).silent = (b.silent || es.contains .silentAudio) := by
  induction es generalizing b with
  | nil => exact (Bool.or_false _).symm
  | cons e es ih =>
    rw [List.foldl_cons, ih, silent_note, Bool.or_assoc, List.contains_cons, BEq.comm]

theorem remaining_foldl_note :
    (es.foldl (note p) b).remaining =
      (es.filterMap Edit.window?).foldl (Chain.cutRemaining p) b.remaining := by
  induction es generalizing b with
  | nil => rfl
  | cons e es ih =>
    rw [List.foldl_cons, ih, remaining_note, List.filterMap_cons]
    cases e.window? <;> rfl

end Books

namespace Stream

variable (p : Precision) (s : Stream) (frame : Geometry)

theorem cuts_books : (s.books p frame).cuts = s.windows := by
  rw [books, Books.cuts_flush, Books.cuts_foldl_note]
  rfl

theorem silent_books : (s.books p frame).silent = s.edits.contains .silentAudio := by
  rw [books, Books.silent_flush, Books.silent_foldl_note]
  rfl

theorem remaining_books : (s.books p frame).remaining = s.remaining p := by
  rw [books, Books.remaining_flush, Books.remaining_foldl_note]
  rfl

end Stream

/-! ## When streams compile -/

@[simp] theorem isOk_ok {ε α : Type} (a : α) : (.ok a : Except ε α).isOk = true := rfl

@[simp] theorem isOk_error {ε α : Type} (e : ε) : (.error e : Except ε α).isOk = false := rfl

@[simp] theorem isOk_map {ε α β : Type} (f : α → β) (x : Except ε α) : (x.map f).isOk = x.isOk := by
  cases x <;> rfl

theorem exists_of_isOk {ε α : Type} {x : Except ε α} (h : x.isOk) : ∃ a, x = .ok a := by
  cases x with
  | error e => cases h
  | ok a => exact ⟨a, rfl⟩

theorem bind_isOk {ε α β : Type} {x : Except ε α} {f : α → Except ε β} {P : Prop}
    (rest : ∀ a, x = .ok a → ((f a).isOk ↔ P)) : (x >>= f).isOk ↔ x.isOk ∧ P := by
  cases x with
  | error e => simp [bind, Except.bind]
  | ok a => simpa [bind, Except.bind] using rest a rfl

namespace Chain

variable {p : Precision} {input : String} {c c' : Chain} {e : Edit}

theorem remaining_flush (c : Chain) : c.flush.remaining = c.remaining :=
  (congrArg Books.remaining c.books_flush).trans (Books.remaining_flush _)

theorem apply_isOk :
    (c.apply p input e).isOk ↔ ∀ w, e.window? = some w → w.beginsIn c.remaining := by
  cases e with
  | trim start duration =>
    simp only [apply, cut, remaining_flush, Edit.window?, Option.some.injEq, forall_eq',
      Window.beginsIn]
    cases Scalar.zero.lt c.remaining && start.ge c.remaining <;> simp
  | _ => simp [apply, Edit.window?]

theorem remaining_of_apply (h : c.apply p input e = .ok c') :
    c'.remaining = e.window?.elim c.remaining (cutRemaining p c.remaining) := by
  rw [apply_ok h]
  exact c.books.remaining_note p e

theorem foldlM_apply_isOk {es : List Edit} :
    (es.foldlM (apply p input) c).isOk ↔ Fits p c.remaining (es.filterMap Edit.window?) := by
  induction es generalizing c with
  | nil => exact iff_of_true rfl trivial
  | cons e es ih =>
    rw [List.foldlM_cons, List.filterMap_cons]
    cases hw : e.window? with
    | none =>
      rw [bind_isOk fun c' h => by rw [ih, remaining_of_apply h, hw, Option.elim_none], apply_isOk]
      simp [hw]
    | some w =>
      rw [bind_isOk fun c' h => by rw [ih, remaining_of_apply h, hw, Option.elim_some], apply_isOk]
      simp [hw, Fits]

end Chain

theorem Stream.compile_isOk {p : Precision} {s : Stream} {index input : Nat} {frame : Geometry} :
    (s.compile p index input frame).isOk ↔ Fits p s.duration.nonneg s.windows := by
  have edits : (s.chain p index input frame).isOk ↔ Fits p s.duration.nonneg s.windows :=
    Chain.foldlM_apply_isOk
  rw [compile, bind_isOk fun _ _ => iff_of_true rfl trivial, edits, and_true]

theorem Graph.compileStreams_isOk {p : Precision} {frame : Geometry} {streams : List Stream} :
    ∀ {index input : Nat}, (compileStreams p frame index input streams).isOk ↔
      ∀ s ∈ streams, Fits p s.duration.nonneg s.windows := by
  induction streams with
  | nil => simp [compileStreams]
  | cons s rest ih =>
    intro index input
    rw [compileStreams, bind_isOk fun c _ => ?_, Stream.compile_isOk, List.forall_mem_cons]
    rw [bind_isOk fun _ _ => iff_of_true rfl trivial, ih, and_true]

theorem Geometry.validate_isOk {g : Geometry} : g.validate.isOk ↔ g.hasArea := by
  unfold validate
  split <;> simp_all

theorem Graph.compileIn_of_ne {p : Precision} {streams : List Stream} (ne : streams ≠ [])
    (frame : Geometry) :
    compileIn p streams frame = frame.validate >>= fun frame =>
      (compileStreams p frame 0 0 streams).map (ofCompiled p) := by
  have some : ¬ streams.isEmpty := by simpa using ne
  rw [compileIn, if_neg some]
  refine bind_congr fun frame => ?_
  cases compileStreams p frame 0 0 streams with
  | error e => rfl
  | ok cs => rcases cs with _ | ⟨c, _ | ⟨d, cs⟩⟩ <;> rfl

/-- **Streams compile** when there are any, the frame has an area, and every cut of theirs begins
in what is left of its stream. -/
theorem Graph.compileIn_isOk {p : Precision} {streams : List Stream} {frame : Geometry} :
    (compileIn p streams frame).isOk ↔ streams ≠ [] ∧ frame.hasArea ∧
      ∀ s ∈ streams, Fits p s.duration.nonneg s.windows := by
  by_cases ne : streams = []
  · rw [ne]
    exact iff_of_false Bool.false_ne_true fun h => h.1 rfl
  · rw [compileIn_of_ne ne, bind_isOk fun _ _ => by rw [isOk_map, compileStreams_isOk],
      Geometry.validate_isOk, and_iff_right ne]

/-! ## How streams are refused -/

theorem bind_eq_error {ε α β : Type} {x : Except ε α} {f : α → Except ε β} {e : ε}
    (h : (x >>= f) = .error e) : x = .error e ∨ ∃ a, f a = .error e := by
  cases x with
  | error e' =>
    obtain rfl := Except.error.inj h
    exact .inl rfl
  | ok a => exact .inr ⟨a, h⟩

def RenderError.IsArgument (e : RenderError) : Prop := ∃ reason, e = .invalidArgument reason

theorem Chain.isArgument_of_apply {p : Precision} {input : String} {c : Chain} {e : Edit}
    {err : RenderError} (h : c.apply p input e = .error err) : err.IsArgument := by
  cases e with
  | trim start duration =>
    simp only [apply, cut] at h
    split at h
    · exact ⟨_, (Except.error.inj h).symm⟩
    · cases h
  | _ => cases h

theorem Stream.isArgument_of_compile {p : Precision} {s : Stream} {index input : Nat}
    {frame : Geometry} {err : RenderError} (h : s.compile p index input frame = .error err) :
    err.IsArgument := by
  have edits : ∀ {es : List Edit} {c : Chain}, es.foldlM (Chain.apply p s.input) c = .error err →
      err.IsArgument := by
    intro es
    induction es with
    | nil =>
      intro c h
      cases h
    | cons e es ih =>
      intro c h
      rw [List.foldlM_cons] at h
      rcases bind_eq_error h with h | ⟨c', h⟩
      · exact Chain.isArgument_of_apply h
      · exact ih h
  rcases bind_eq_error h with h | ⟨c, h⟩
  · exact edits h
  · cases h

theorem Graph.isArgument_of_compileStreams {p : Precision} {frame : Geometry} {err : RenderError}
    {streams : List Stream} {index input : Nat}
    (h : compileStreams p frame index input streams = .error err) : err.IsArgument := by
  induction streams generalizing index input with
  | nil => cases h
  | cons s rest ih =>
    rcases bind_eq_error h with h | ⟨c, h⟩
    · exact Stream.isArgument_of_compile h
    · rcases bind_eq_error h with h | ⟨cs, h⟩
      · exact ih h
      · cases h

/-- **Streams are refused** for an argument of theirs, if there are any. -/
theorem Graph.isArgument_of_compileIn {p : Precision} {streams : List Stream} (ne : streams ≠ [])
    {frame : Geometry} {err : RenderError} (h : compileIn p streams frame = .error err) :
    err.IsArgument := by
  rw [compileIn_of_ne ne] at h
  rcases bind_eq_error h with h | ⟨frame', h⟩
  · unfold Geometry.validate at h
    split at h
    · cases h
    · exact ⟨_, (Except.error.inj h).symm⟩
  · cases hcs : compileStreams p frame' 0 0 streams with
    | error e =>
      rw [hcs] at h
      obtain rfl := Except.error.inj h
      exact isArgument_of_compileStreams hcs
    | ok cs =>
      rw [hcs] at h
      cases h

end Montage
