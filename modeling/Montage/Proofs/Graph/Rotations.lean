import Montage.Proofs.Graph.Trail

/-!
# Rotations

Of the quarter turns that wait only what is left of whole turns matters, to the text and
to the books of a chain. A run of rotations can therefore give way to any other one of
the same remainder, and what is written turns the picture by that remainder.
-/

namespace Montage

/-! ## Turns that wait -/

/-- The sum of quarter turns, which no word bounds. -/
def total (quarters : List Int) : Int := quarters.foldr (· + ·) 0

namespace Chain

def settled (c : Chain) : Chain := { c with turns := c.turns % 4 }

theorem flush_settled (c : Chain) : c.settled.flush = c.flush := by
  have same : Turn.ofQuarters? c.settled.turns = Turn.ofQuarters? c.turns :=
    Turn.ofQuarters?_congr (Int.emod_emod_of_dvd c.turns (Int.dvd_refl 4))
  unfold flush
  rw [same]
  cases Turn.ofQuarters? c.turns <;> rfl

section
variable (p : Precision) (input : String)

theorem apply_settled (c : Chain) (e : Edit) :
    (c.settled.apply p input e).map settled = (c.apply p input e).map settled := by
  cases e with
  | rotate q =>
    have same : wrap (c.turns % 4 + q) % 4 = wrap (c.turns + q) % 4 := by
      rw [wrap_emod, wrap_emod]
      omega
    simp only [apply, Except.map, settled, same]
  | _ => simp only [apply, flush_settled]

/-- Chains that differ in whole turns only stay so, or are refused alike. -/
theorem foldlM_apply_congr {c c' : Chain} (h : c.settled = c'.settled) (es : List Edit) :
    (es.foldlM (apply p input) c).map settled = (es.foldlM (apply p input) c').map settled := by
  induction es generalizing c c' with
  | nil => exact congrArg Except.ok h
  | cons e es ih =>
    have one : (c.apply p input e).map settled = (c'.apply p input e).map settled := by
      rw [← apply_settled, h, apply_settled]
    rw [List.foldlM_cons, List.foldlM_cons]
    cases hc : c.apply p input e with
    | error err =>
      cases hc' : c'.apply p input e with
      | error err' =>
        rw [hc, hc'] at one
        exact one
      | ok d' => simp [hc, hc', Except.map] at one
    | ok d =>
      cases hc' : c'.apply p input e with
      | error err' => simp [hc, hc', Except.map] at one
      | ok d' =>
        rw [hc, hc'] at one
        exact ih (Except.ok.inj one)

theorem foldlM_rotate (c : Chain) (qs : List Int) :
    ((qs.map Edit.rotate).foldlM (apply p input) c).map settled =
      .ok { c with turns := (c.turns + total qs) % 4 } := by
  induction qs generalizing c with
  | nil =>
    rw [total, List.foldr_nil, Int.add_zero]
    rfl
  | cons q qs ih =>
    have rest : (wrap (c.turns + q) + total qs) % 4 = (c.turns + total (q :: qs)) % 4 := by
      rw [Int.add_emod, wrap_emod, ← Int.add_emod, Int.add_assoc]
      rfl
    rw [List.map_cons, List.foldlM_cons, ← rest]
    exact ih { c with turns := wrap (c.turns + q) }

end

end Chain

namespace Edit

/-- Edits that do the same to every chain, whole turns that wait apart. -/
def Alike (es es' : List Edit) : Prop :=
  ∀ p input c, (es.foldlM (Chain.apply p input) c).map Chain.settled =
    (es'.foldlM (Chain.apply p input) c).map Chain.settled

/-- **Runs of rotations** are alike when their remainders are. -/
theorem alike_rotates {qs rs : List Int} (h : total qs % 4 = total rs % 4) :
    Alike (qs.map rotate) (rs.map rotate) := by
  intro p input c
  rw [Chain.foldlM_rotate, Chain.foldlM_rotate, Int.add_emod, h, ← Int.add_emod]

theorem Alike.between {es es' : List Edit} (h : Alike es es') (pre post : List Edit) :
    Alike (pre ++ es ++ post) (pre ++ es' ++ post) := by
  intro p input c
  rw [List.append_assoc, List.append_assoc, List.foldlM_append, List.foldlM_append]
  cases pre.foldlM (Chain.apply p input) c with
  | error err => rfl
  | ok d =>
    have same := h p input d
    change ((es ++ post).foldlM (Chain.apply p input) d).map Chain.settled =
      ((es' ++ post).foldlM (Chain.apply p input) d).map Chain.settled
    rw [List.foldlM_append, List.foldlM_append]
    cases hd : es.foldlM (Chain.apply p input) d with
    | error err =>
      cases hd' : es'.foldlM (Chain.apply p input) d with
      | error err' =>
        rw [hd, hd'] at same
        exact same
      | ok d' => simp [hd, hd', Except.map] at same
    | ok d₁ =>
      cases hd' : es'.foldlM (Chain.apply p input) d with
      | error err' => simp [hd, hd', Except.map] at same
      | ok d₂ =>
        rw [hd, hd'] at same
        exact Chain.foldlM_apply_congr p input (Except.ok.inj same) post

end Edit

/-! ## Streams and graphs -/

namespace Stream

def closed (s : Stream) (input : Nat) (frame : Geometry) (c : Chain) : CompiledStream where
  inputs := s.input :: c.images
  statements := (c.flush.fixFrame frame).finish.2
  video := (c.flush.fixFrame frame).finish.1
  sound := if c.silent then .silence else if s.hasAudio then .source input c.cuts else .absent
  duration := c.remaining

theorem closed_settled (s : Stream) (input : Nat) (frame : Geometry) (c : Chain) :
    s.closed input frame c.settled = s.closed input frame c := by
  unfold closed
  rw [Chain.flush_settled]
  rfl

theorem compile_eq_map (p : Precision) (s : Stream) (index input : Nat) (frame : Geometry) :
    s.compile p index input frame =
      ((s.chain p index input frame).map Chain.settled).map (s.closed input frame) := by
  unfold compile
  cases s.chain p index input frame with
  | error err => rfl
  | ok c => exact congrArg Except.ok (s.closed_settled input frame c).symm

def withEdits (s : Stream) (es : List Edit) : Stream := { s with edits := es }

def Alike (p : Precision) (s s' : Stream) : Prop :=
  ∀ index input frame, s.compile p index input frame = s'.compile p index input frame

theorem alike_withEdits {es : List Edit} {s : Stream} (h : Edit.Alike s.edits es) (p : Precision) :
    s.Alike p (s.withEdits es) := by
  intro index input frame
  have chains := h p s.input (.start index input frame s.duration)
  rw [compile_eq_map, compile_eq_map]
  exact congrArg (Except.map _) chains

end Stream

namespace Graph

variable {p : Precision} {streams streams' : List Stream}

theorem compileStreams_congr (h : List.Forall₂ (Stream.Alike p) streams streams') :
    ∀ index input frame, compileStreams p frame index input streams =
      compileStreams p frame index input streams' := by
  induction h with
  | nil =>
    intro index input frame
    rfl
  | cons same _ ih =>
    intro index input frame
    simp only [compileStreams, same index input frame, ih]

/-- **Streams that compile alike** give the same graph, or are refused for the same reason. -/
theorem compileIn_congr (h : List.Forall₂ (Stream.Alike p) streams streams') (frame : Geometry) :
    compileIn p streams frame = compileIn p streams' frame := by
  have empty : streams.isEmpty = streams'.isEmpty := by
    cases h <;> rfl
  unfold compileIn
  simp only [empty, compileStreams_congr h]

theorem compileIn_replace {s s' : Stream} (h : s.Alike p s') (before after : List Stream)
    (frame : Geometry) :
    compileIn p (before ++ s :: after) frame = compileIn p (before ++ s' :: after) frame := by
  have same : ∀ rest : List Stream, List.Forall₂ (Stream.Alike p) rest rest := fun rest =>
    List.forall₂_same.mpr fun _ _ _ _ _ => rfl
  exact compileIn_congr (List.rel_append (same before) (.cons h (same after))) frame

end Graph

/-! ## Turns that are written -/

def quartersOf (text : String) : Nat :=
  if text = "transpose=1" then 1
  else if text = "hflip,vflip" then 2
  else if text = "transpose=2" then 3
  else 0

/-- The quarter turns of all filters along the way of a picture. -/
def turned {ι : Type} : List (Step ι) → Nat
  | [] => 0
  | .filter f :: rest => quartersOf f.text + turned rest
  | .overlay _ _ :: rest => turned rest

def Edit.quarters? : Edit → Option Int
  | rotate q => some q
  | _ => none

theorem quartersOf_of_colon {s : String} (h : ':' ∈ s.toList) : quartersOf s = 0 := by
  have ne : ∀ t : String, ':' ∉ t.toList → s ≠ t := by
    intro t ht same
    exact ht (same ▸ h)
  unfold quartersOf
  rw [if_neg (ne _ (by decide)), if_neg (ne _ (by decide)), if_neg (ne _ (by decide))]

theorem Filter.quartersOf_text (f : Filter) :
    quartersOf f.text = match f with
      | .turn t => t.quarters
      | _ => 0 := by
  have before : ∀ a b : String, ':' ∈ a.toList → ':' ∈ (a ++ b).toList := by
    intro a b h
    rw [String.toList_append]
    exact List.mem_append_left _ h
  have behind : ∀ a b : String, ':' ∈ b.toList → ':' ∈ (a ++ b).toList := by
    intro a b h
    rw [String.toList_append]
    exact List.mem_append_right _ h
  have padded : ∀ g, ':' ∈ (padText g).toList := fun g => behind _ _ (by decide)
  cases f with
  | turn t => cases t <;> rfl
  | normalize g => exact quartersOf_of_colon (behind _ _ (padded g))
  | letterbox g => exact quartersOf_of_colon (padded g)
  | balance b => exact quartersOf_of_colon (before _ _ (behind _ _ (by decide)))
  | cut w => exact quartersOf_of_colon (before _ _ (behind _ _ (before _ _ (behind _ _ (by decide)))))

section
variable {ι : Type}

theorem turned_append (a b : List (Step ι)) : turned (a ++ b) = turned a + turned b := by
  induction a with
  | nil => simp [turned]
  | cons s a ih =>
    cases s with
    | filter f => simp only [List.cons_append, turned, ih, Nat.add_assoc]
    | overlay image region => exact ih

theorem turned_map_filter {fs : List Filter} (still : ∀ f ∈ fs, quartersOf f.text = 0) :
    turned (fs.map (Step.filter (ι := ι))) = 0 := by
  induction fs with
  | nil => rfl
  | cons f fs ih =>
    rw [List.forall_mem_cons] at still
    rw [List.map_cons, turned, still.1, ih still.2]

theorem turned_numbered (next : Nat) (steps : List (Step String)) :
    turned (numbered next steps) = turned steps := by
  induction steps generalizing next with
  | nil => rfl
  | cons s steps ih =>
    cases s with
    | filter f => simp only [numbered, turned, ih]
    | overlay image region => simp only [numbered, turned, ih]

theorem turned_turnSteps (n : Int) : (turned (turnSteps (ι := ι) n) : Int) % 4 = n % 4 := by
  unfold turnSteps Turn.ofQuarters?
  have small : (n % 4).toNat < 4 := by omega
  have same : ((n % 4).toNat : Int) = n % 4 := by omega
  rw [← same]
  generalize (n % 4).toNat = k at small
  match k, small with
  | 0, _ => rfl
  | 1, _ => rfl
  | 2, _ => rfl
  | 3, _ => rfl

end

theorem turned_spell (waiting : Int) (es : List Edit) :
    (turned (Edit.spell waiting es) : Int) % 4 =
      (waiting + total (es.filterMap Edit.quarters?)) % 4 := by
  induction es generalizing waiting with
  | nil =>
    rw [Edit.spell, turned_turnSteps]
    simp [total]
  | cons e es ih =>
    cases e with
    | rotate q =>
      rw [Edit.spell, ih, Int.add_assoc]
      rfl
    | _ =>
      have turns := turned_turnSteps (ι := String) waiting
      have rest := ih 0
      simp only [Edit.spell, Edit.steps, turned_append, turned, Filter.quartersOf_text]
      rw [List.filterMap_cons_none rfl]
      omega

theorem turned_sizeFix (before frame : Geometry) :
    turned ((sizeFix before frame).map (Step.filter (ι := String))) = 0 := by
  apply turned_map_filter
  intro f hf
  rcases (sizeFix_cases before frame).2 f hf with rfl | rfl
  · exact Filter.quartersOf_text (.letterbox frame)
  · exact Filter.quartersOf_text (.normalize frame)

/-- **All that is written for a stream** turns its picture by what its rotations ask for. -/
theorem Graph.turned_trail {streams : List Stream} {frame : Geometry} {g : Graph}
    (h : compile streams frame = .ok g) (i : Nat) (hi : i < streams.length) :
    (turned (g.trail (.inputVideo (firstInput streams i))).1 : Int) % 4 =
      total (streams[i].edits.filterMap Edit.quarters?) % 4 := by
  have spelt := turned_spell 0 streams[i].edits
  rw [trail_of_ok h i hi, turned_numbered, Stream.steps, turned_append, turned_sizeFix, Stream.stepsBeforeFix,
    ← Edit.spell_zero, turned, Filter.quartersOf_text, Nat.zero_add, Nat.add_zero, spelt, Int.zero_add]

end Montage
