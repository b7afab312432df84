import Mathlib.Data.List.Chain
import Montage.Graph.Compile

/-!
# What a chain writes

An edit asks for steps in a picture chain: a filter, or an image on top. Adjacent
rotations ask together for one step at most. Compiling a stream writes the steps
of its edits in order, between the filter that brings the source to the common
frame and the one that brings it back there. What is kept beside the text, the
books of the chain, does not depend on the text.
-/

namespace Montage

theorem bind_eq_ok {ε α β : Type} {x : Except ε α} {f : α → Except ε β} {b : β}
    (h : (x >>= f) = .ok b) : ∃ a, x = .ok a ∧ f a = .ok b := by
  cases x with
  | error e => cases h
  | ok a => exact ⟨a, rfl, h⟩

inductive Step (ι : Type)
  | filter (f : Filter)
  | overlay (image : ι) (region : Region)
  deriving DecidableEq

namespace Step

variable {ι : Type}

def filter? : Step ι → Option Filter
  | filter f => some f
  | overlay _ _ => none

def image? : Step ι → Option ι
  | filter _ => none
  | overlay image _ => some image

end Step

/-! ## Steps of edits -/

def turnSteps {ι : Type} (quarters : Int) : List (Step ι) :=
  (Turn.ofQuarters? quarters).toList.map fun t => .filter (.turn t)

namespace Edit

def steps : Edit → List (Step String)
  | colorAdjust b => [.filter (.balance b)]
  | rotate q => turnSteps q
  | overlay image region => [.overlay image region]
  | trim start duration => [.filter (.cut ⟨start, duration⟩)]
  | silentAudio => []
  | targetGeometry g => [.filter (.normalize g)]

def image? : Edit → Option String
  | overlay image _ => some image
  | _ => none

/-- Rotations that stand side by side, or another edit. -/
inductive Run
  | turns (quarters : List Int)
  | single (e : Edit)
  deriving DecidableEq

namespace Run

def edits : Run → List Edit
  | turns qs => qs.map rotate
  | single e => [e]

def steps : Run → List (Step String)
  | turns qs => turnSteps (qs.foldr (· + ·) 0)
  | single e => e.steps

end Run

def runs : List Edit → List Run
  | [] => []
  | rotate q :: es =>
    match runs es with
    | .turns qs :: rs => .turns (q :: qs) :: rs
    | rs => .turns [q] :: rs
  | e :: es => .single e :: runs es

def allSteps (es : List Edit) : List (Step String) := (runs es).flatMap Run.steps

structure IsCut (es : List Edit) (rs : List Run) : Prop where
  edits : rs.flatMap Run.edits = es
  proper : ∀ r ∈ rs, r ≠ .turns [] ∧ ∀ q, r ≠ .single (rotate q)
  apart : rs.IsChain fun r r' => ∀ qs qs', ¬(r = .turns qs ∧ r' = .turns qs')

theorem isCut_nil : IsCut [] [] := ⟨rfl, by simp, .nil⟩

theorem IsCut.rotate_turns {es : List Edit} {qs : List Int} {rs : List Run}
    (h : IsCut es (.turns qs :: rs)) (q : Int) : IsCut (rotate q :: es) (.turns (q :: qs) :: rs) where
  edits := by
    rw [← h.edits]
    rfl
  proper := by simpa using fun r hr => h.proper r (List.mem_cons_of_mem _ hr)
  apart := by
    have apart := h.apart
    cases rs with
    | nil => exact List.isChain_singleton _
    | cons r rs =>
      rw [List.isChain_cons_cons] at apart ⊢
      exact ⟨fun _ qs' hr => apart.1 qs qs' ⟨rfl, hr.2⟩, apart.2⟩

theorem IsCut.cons {es : List Edit} {rs : List Run} (h : IsCut es rs) {r : Run}
    (proper : r ≠ .turns [] ∧ ∀ q, r ≠ .single (rotate q))
    (apart : ∀ qs qs' rest, rs = .turns qs' :: rest → r ≠ .turns qs) :
    IsCut (r.edits ++ es) (r :: rs) where
  edits := by rw [List.flatMap_cons, h.edits]
  proper := by simpa using ⟨proper, h.proper⟩
  apart := by
    have chain := h.apart
    cases rs with
    | nil => exact List.isChain_singleton _
    | cons r' rs =>
      rw [List.isChain_cons_cons]
      exact ⟨fun qs qs' hr => apart qs qs' rs (by rw [hr.2]) hr.1, chain⟩

theorem isCut_runs (es : List Edit) : IsCut es (runs es) := by
  induction es with
  | nil => exact isCut_nil
  | cons e es ih =>
    cases e with
    | rotate q =>
      rw [runs]
      split
      · rename_i qs rs h
        exact (h ▸ ih).rotate_turns q
      · rename_i alone
        exact ih.cons (r := .turns [q]) (by simp) fun _ qs' rest h => absurd h (alone qs' rest)
    | colorAdjust | overlay | trim | silentAudio | targetGeometry =>
      exact ih.cons (r := .single _) (by simp) (by simp)

/-! ## Rotations that wait -/

/-- The steps of edits behind `waiting` quarter turns, as they come when rotations wait. -/
def spell (waiting : Int) : List Edit → List (Step String)
  | [] => turnSteps waiting
  | rotate q :: es => spell (waiting + q) es
  | e :: es => turnSteps waiting ++ e.steps ++ spell 0 es

end Edit

/-- What an edit writes when `waiting` quarter turns are not yet written. -/
def Edit.written (waiting : Int) : Edit → List (Step String)
  | rotate _ => []
  | e => turnSteps waiting ++ e.steps

theorem Turn.ofQuarters?_congr {m n : Int} (h : m % 4 = n % 4) :
    Turn.ofQuarters? m = Turn.ofQuarters? n := by
  unfold Turn.ofQuarters?
  rw [h]

theorem turnSteps_congr {ι : Type} {m n : Int} (h : m % 4 = n % 4) :
    turnSteps (ι := ι) m = turnSteps n := by
  rw [turnSteps, Turn.ofQuarters?_congr h, turnSteps]

theorem Chain.wrap_emod (n : Int) : Chain.wrap n % 4 = n % 4 := by
  have h : Chain.wrap n % (4294967296 : Nat) = n % (4294967296 : Nat) := Int.bmod_emod ..
  omega

namespace Edit

theorem spell_congr {m n : Int} (h : m % 4 = n % 4) (es : List Edit) : spell m es = spell n es := by
  induction es generalizing m n with
  | nil => exact turnSteps_congr h
  | cons e es ih =>
    cases e with
    | rotate q => exact ih (by omega)
    | _ => simp only [spell, turnSteps_congr h]

def Run.stepsBehind (waiting : Int) : List Run → List (Step String)
  | .turns qs :: rs => turnSteps (waiting + qs.foldr (· + ·) 0) ++ rs.flatMap Run.steps
  | rs => turnSteps waiting ++ rs.flatMap Run.steps

theorem Run.stepsBehind_zero (rs : List Run) : Run.stepsBehind 0 rs = rs.flatMap Run.steps := by
  unfold Run.stepsBehind
  split
  · rw [Int.zero_add]
    rfl
  · rfl

theorem spell_eq_stepsBehind (waiting : Int) (es : List Edit) :
    spell waiting es = Run.stepsBehind waiting (runs es) := by
  induction es generalizing waiting with
  | nil => simp [spell, runs, Run.stepsBehind]
  | cons e es ih =>
    cases e with
    | rotate q =>
      rw [spell, ih, runs]
      split
      · rename_i h
        rw [h]
        simp only [Run.stepsBehind, List.foldr_cons, Int.add_assoc]
      · rename_i h
        rw [Run.stepsBehind.eq_def]
        split
        · rename_i heq
          exact absurd heq (h _ _)
        · simp only [Run.stepsBehind, List.foldr_cons, List.foldr_nil, Int.add_zero]
    | _ =>
      simp only [spell, runs, ih, Run.stepsBehind_zero]
      rw [List.append_assoc]
      rfl

/-- Rotations may wait for the next edit without a step changing its place. -/
theorem spell_zero (es : List Edit) : spell 0 es = allSteps es := by
  rw [spell_eq_stepsBehind, Run.stepsBehind_zero, allSteps]

theorem filterMap_image?_spell (waiting : Int) (es : List Edit) :
    (spell waiting es).filterMap Step.image? = es.filterMap image? := by
  have turns : ∀ n, (turnSteps n).filterMap (Step.image? (ι := String)) = [] := by
    intro n
    rw [turnSteps]
    cases Turn.ofQuarters? n <;> rfl
  induction es generalizing waiting with
  | nil => exact turns waiting
  | cons e es ih =>
    cases e with
    | rotate q => exact ih _
    | _ =>
      rw [spell, List.filterMap_append, List.filterMap_append, ih, turns]
      · rfl
      all_goals simp

end Edit

/-! ## Chains -/

structure Books where
  frame : Geometry
  turns : Int
  cuts : List Window
  silent : Bool
  remaining : Scalar
  deriving DecidableEq

namespace Books

def opened (frame : Geometry) (duration : Scalar) : Books := ⟨frame, 0, [], false, duration.nonneg⟩

def flush (b : Books) : Books :=
  match Turn.ofQuarters? b.turns with
  | none => { b with turns := 0 }
  | some t => { b with turns := 0, frame := if t.transposes then b.frame.transposed else b.frame }

def note (p : Precision) (b : Books) : Edit → Books
  | .rotate q => { b with turns := Chain.wrap (b.turns + q) }
  | .colorAdjust _ | .overlay _ _ => b.flush
  | .trim start duration =>
    { b.flush with
      cuts := b.flush.cuts ++ [⟨start, duration⟩]
      remaining := Chain.cutRemaining p b.flush.remaining ⟨start, duration⟩ }
  | .silentAudio => { b.flush with silent := true }
  | .targetGeometry g => { b.flush with frame := g }

@[simp] theorem turns_flush (b : Books) : b.flush.turns = 0 := by
  unfold flush
  split <;> rfl

@[simp] theorem cuts_flush (b : Books) : b.flush.cuts = b.cuts := by
  unfold flush
  split <;> rfl

@[simp] theorem silent_flush (b : Books) : b.flush.silent = b.silent := by
  unfold flush
  split <;> rfl

@[simp] theorem remaining_flush (b : Books) : b.flush.remaining = b.remaining := by
  unfold flush
  split <;> rfl

theorem written_append_spell (p : Precision) (b : Books) (e : Edit) (es : List Edit) :
    e.written b.turns ++ Edit.spell (b.note p e).turns es = Edit.spell b.turns (e :: es) := by
  cases e with
  | rotate q => exact Edit.spell_congr (Chain.wrap_emod _) es
  | _ => simp only [note, turns_flush, Edit.written, Edit.spell]

end Books

namespace Chain

def books (c : Chain) : Books := ⟨c.frame, c.turns, c.cuts, c.silent, c.remaining⟩

def withBooks (c : Chain) (b : Books) : Chain :=
  { c with
    frame := b.frame
    turns := b.turns
    cuts := b.cuts
    silent := b.silent
    remaining := b.remaining }

def write (c : Chain) : Step String → Chain
  | .filter f => c.push f
  | .overlay image region => c.overlay image region

def writeAll (c : Chain) (steps : List (Step String)) : Chain := steps.foldl write c

theorem writeAll_append (c : Chain) (a b : List (Step String)) :
    c.writeAll (a ++ b) = (c.writeAll a).writeAll b := List.foldl_append

theorem closeSegment_withBooks (c : Chain) (b : Books) :
    (c.withBooks b).closeSegment = c.closeSegment.withBooks b := by
  by_cases h : c.pending.isEmpty
  · rw [closeSegment, if_pos (show (c.withBooks b).pending.isEmpty from h), closeSegment, if_pos h]
  · rw [closeSegment, if_neg (show ¬(c.withBooks b).pending.isEmpty from h), closeSegment, if_neg h]
    rfl

theorem books_closeSegment (c : Chain) : c.closeSegment.books = c.books := by
  unfold closeSegment
  split <;> rfl

theorem write_withBooks (c : Chain) (b : Books) (s : Step String) :
    (c.withBooks b).write s = (c.write s).withBooks b := by
  cases s with
  | filter f => rfl
  | overlay image region =>
    simp only [write, overlay, closeSegment_withBooks]
    rfl

theorem books_write (c : Chain) (s : Step String) : (c.write s).books = c.books := by
  cases s with
  | filter f => rfl
  | overlay image region => exact c.books_closeSegment

@[simp] theorem writeAll_withBooks (c : Chain) (b : Books) (steps : List (Step String)) :
    (c.withBooks b).writeAll steps = (c.writeAll steps).withBooks b := by
  induction steps generalizing c with
  | nil => rfl
  | cons s steps ih =>
    rw [writeAll, List.foldl_cons, write_withBooks]
    exact ih (c.write s)

theorem images_closeSegment (c : Chain) : c.closeSegment.images = c.images := by
  unfold closeSegment
  split <;> rfl

theorem images_writeAll (c : Chain) (steps : List (Step String)) :
    (c.writeAll steps).images = c.images ++ steps.filterMap Step.image? := by
  induction steps generalizing c with
  | nil => simp [writeAll]
  | cons s steps ih =>
    refine (ih (c.write s)).trans ?_
    cases s with
    | filter f => rfl
    | overlay image region =>
      simp [write, overlay, images_closeSegment, Step.image?]

@[simp] theorem withBooks_withBooks (c : Chain) (a b : Books) :
    (c.withBooks a).withBooks b = c.withBooks b := rfl

@[simp] theorem books_withBooks (c : Chain) (b : Books) : (c.withBooks b).books = b := rfl

theorem flush_eq (c : Chain) : c.flush = (c.writeAll (turnSteps c.turns)).withBooks c.books.flush := by
  unfold flush turnSteps Books.flush
  cases h : Turn.ofQuarters? c.turns with
  | none => simp [h, writeAll, books, withBooks]
  | some t => simp [h, writeAll, write, books, withBooks, push]

theorem images_flush (c : Chain) : c.flush.images = c.images := by
  unfold flush
  split <;> rfl

theorem books_flush (c : Chain) : c.flush.books = c.books.flush := by
  rw [flush_eq, books_withBooks]

/-- **One edit.** It writes its steps and is noted in the books. -/
theorem apply_ok {p : Precision} {input : String} {c c' : Chain} {e : Edit}
    (h : c.apply p input e = .ok c') :
    c' = (c.writeAll (e.written c.turns)).withBooks (c.books.note p e) := by
  have behind : ∀ steps b, (c.writeAll (turnSteps c.turns ++ steps)).withBooks b =
      (c.flush.writeAll steps).withBooks b := by
    intro steps b
    rw [writeAll_append, flush_eq, writeAll_withBooks, withBooks_withBooks]
  cases e with
  | rotate q => exact (Except.ok.inj h).symm
  | trim start duration =>
    simp only [apply, cut] at h
    split at h
    · cases h
    · refine (Except.ok.inj h).symm.trans (Eq.trans ?_ (behind _ _).symm)
      simp only [Books.note, ← books_flush]
      rfl
  | overlay image region =>
    refine (Except.ok.inj h).symm.trans (Eq.trans ?_ (behind _ _).symm)
    simp only [Books.note, ← books_flush]
    rw [← books_write c.flush (.overlay image region)]
    rfl
  | _ =>
    refine (Except.ok.inj h).symm.trans (Eq.trans ?_ (behind _ _).symm)
    simp only [Books.note, ← books_flush]
    rfl

theorem foldlM_apply_ok {p : Precision} {input : String} {es : List Edit} {c c' : Chain}
    (h : es.foldlM (Chain.apply p input) c = .ok c') :
    c'.flush = (c.writeAll (Edit.spell c.turns es)).withBooks (es.foldl (Books.note p) c.books).flush ∧
      c'.books = es.foldl (Books.note p) c.books := by
  induction es generalizing c with
  | nil =>
    obtain rfl := Except.ok.inj h
    exact ⟨c.flush_eq, rfl⟩
  | cons e es ih =>
    rw [List.foldlM_cons] at h
    obtain ⟨c1, h1, h⟩ := bind_eq_ok h
    obtain ⟨hf, hb⟩ := ih h
    have hc1 := apply_ok h1
    have hb1 : c1.books = c.books.note p e := by rw [hc1, books_withBooks]
    rw [hb1] at hf hb
    refine ⟨?_, hb⟩
    -- what this edit leaves waiting is written by the edits behind it
    have ht : c1.turns = (c.books.note p e).turns := congrArg Books.turns hb1
    rw [hf, List.foldl_cons, ht, hc1, writeAll_withBooks, withBooks_withBooks, ← writeAll_append,
      show c.turns = c.books.turns from rfl, Books.written_append_spell]

def blank (stream input : Nat) (frame : Geometry) (duration : Scalar) : Chain :=
  { start stream input frame duration with pending := [] }

end Chain

/-- The filters that bring a frame to the common size: none, padding, or scaling. -/
def sizeFix (before frame : Geometry) : List Filter :=
  if before = frame then []
  else if before.fitsIn frame then [.letterbox frame]
  else [.normalize frame]

theorem Chain.fixFrame_eq (c : Chain) (frame : Geometry) :
    c.fixFrame frame =
      (c.writeAll ((sizeFix c.frame frame).map .filter)).withBooks { c.books with frame := frame } := by
  unfold fixFrame sizeFix
  split
  · rename_i h
    rw [← h]
    rfl
  · split <;> rfl

/-! ## Streams -/

namespace Stream

def books (p : Precision) (s : Stream) (frame : Geometry) : Books :=
  (s.edits.foldl (Books.note p) (.opened frame s.duration)).flush

def stepsBeforeFix (s : Stream) (frame : Geometry) : List (Step String) :=
  .filter (.normalize frame) :: Edit.allSteps s.edits

def steps (p : Precision) (s : Stream) (frame : Geometry) : List (Step String) :=
  s.stepsBeforeFix frame ++ (sizeFix (s.books p frame).frame frame).map .filter

def written (p : Precision) (s : Stream) (index input : Nat) (frame : Geometry) : Chain :=
  (Chain.blank index input frame s.duration).writeAll (s.steps p frame)

def sound (p : Precision) (s : Stream) (input : Nat) (frame : Geometry) : Sound :=
  if (s.books p frame).silent then .silence
  else if s.hasAudio then .source input (s.books p frame).cuts
  else .absent

def images (s : Stream) : List String := s.edits.filterMap Edit.image?

def files (s : Stream) : List String := s.input :: s.images

theorem images_written (p : Precision) (s : Stream) (index input : Nat) (frame : Geometry) :
    (s.written p index input frame).images = s.images := by
  have fix : ∀ fs : List Filter, (fs.map Step.filter).filterMap (Step.image? (ι := String)) = [] := by
    intro fs
    induction fs with
    | nil => rfl
    | cons f fs ih => exact ih
  rw [written, Chain.images_writeAll, steps, List.filterMap_append, fix, List.append_nil,
    stepsBeforeFix, ← Edit.spell_zero]
  exact Edit.filterMap_image?_spell 0 s.edits

/-- The stream compiled, were nothing refused. -/
def compiled (p : Precision) (s : Stream) (index input : Nat) (frame : Geometry) :
    CompiledStream where
  inputs := s.files
  statements := (s.written p index input frame).finish.2
  video := (s.written p index input frame).finish.1
  sound := s.sound p input frame
  duration := (s.books p frame).remaining

/-- **A stream that compiles** has the statements of its steps; the rest is in the books. -/
theorem eq_compiled_of_ok {p : Precision} {s : Stream} {index input : Nat} {frame : Geometry}
    {out : CompiledStream} (h : s.compile p index input frame = .ok out) :
    out = s.compiled p index input frame := by
  unfold compile chain at h
  obtain ⟨c, hc, h⟩ := bind_eq_ok h
  obtain ⟨hf, hb⟩ := Chain.foldlM_apply_ok hc
  rw [show (Chain.start index input frame s.duration).turns = 0 from rfl, Edit.spell_zero] at hf
  have books : c.flush.books = s.books p frame := by
    rw [Chain.books_flush, hb]
    rfl
  have images : c.images = s.images := by
    rw [← c.images_flush, hf, images, ← Edit.filterMap_image?_spell 0, Edit.spell_zero]
    exact Chain.images_writeAll _ _
  have start : Chain.start index input frame s.duration =
      (Chain.blank index input frame s.duration).writeAll [.filter (.normalize frame)] := rfl
  have finish : (c.flush.fixFrame frame).finish = (s.written p index input frame).finish := by
    rw [Chain.fixFrame_eq, show c.flush.frame = _ from congrArg Books.frame books, hf, start,
      Chain.writeAll_withBooks, Chain.withBooks_withBooks, ← Chain.writeAll_append,
      ← Chain.writeAll_append, written, steps, stepsBeforeFix]
    rfl
  have silent : c.silent = (s.books p frame).silent := by
    rw [← books, Chain.books_flush, Books.silent_flush]
    rfl
  have cuts : c.cuts = (s.books p frame).cuts := by
    rw [← books, Chain.books_flush, Books.cuts_flush]
    rfl
  have remaining : c.remaining = (s.books p frame).remaining := by
    rw [← books, Chain.books_flush, Books.remaining_flush]
    rfl
  have out_eq : CompiledStream.mk (s.input :: c.images) (c.flush.fixFrame frame).finish.2
      (c.flush.fixFrame frame).finish.1
      (if c.silent then .silence else if s.hasAudio then .source input c.cuts else .absent)
      c.remaining = out := Except.ok.inj h
  rw [← out_eq, finish, silent, cuts, remaining, images]
  rfl

end Stream

end Montage
