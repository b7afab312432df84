import Mathlib.Data.List.Count
import Mathlib.Data.List.Nodup
import Mathlib.Data.List.Range
import Montage.Proofs.Graph.Clause
import Montage.Proofs.Graph.Layout

/-!
# Pads are used up

Statements take up the pads of input files and leave pads open. Along the way each
pad is written once and taken up once: what is read and what is left open together
are what came in and what was written. One step of a chain keeps this, so a stream
takes up its inputs and leaves one picture open.
-/

namespace Montage

def readsOf (sts : List Statement) : List Pad := sts.flatMap Statement.reads

def writesOf (sts : List Statement) : List Pad := sts.flatMap Statement.writes

@[simp] theorem readsOf_append (a b : List Statement) : readsOf (a ++ b) = readsOf a ++ readsOf b :=
  List.flatMap_append

@[simp] theorem writesOf_append (a b : List Statement) :
    writesOf (a ++ b) = writesOf a ++ writesOf b := List.flatMap_append

@[simp] theorem readsOf_singleton (s : Statement) : readsOf [s] = s.reads := by simp [readsOf]

@[simp] theorem writesOf_singleton (s : Statement) : writesOf [s] = s.writes := by simp [writesOf]

def Ordered (known : List Pad) : List Statement → Prop
  | [] => True
  | s :: rest => (∀ p ∈ s.reads, p ∈ known) ∧ Ordered (known ++ s.writes) rest

theorem Ordered.mono {known more : List Pad} {sts : List Statement} (h : Ordered known sts)
    (hk : ∀ p ∈ known, p ∈ more) : Ordered more sts := by
  induction sts generalizing known more with
  | nil => trivial
  | cons s rest ih =>
    refine ⟨fun p hp => hk p (h.1 p hp), ih h.2 fun p hp => ?_⟩
    rcases List.mem_append.mp hp with hp | hp
    · exact List.mem_append_left _ (hk p hp)
    · exact List.mem_append_right _ hp

theorem ordered_append {known : List Pad} {a b : List Statement} :
    Ordered known (a ++ b) ↔ Ordered known a ∧ Ordered (known ++ writesOf a) b := by
  induction a generalizing known with
  | nil => simp [Ordered, writesOf]
  | cons s a ih =>
    simp only [List.cons_append, Ordered, ih, and_assoc, writesOf, List.flatMap_cons,
      List.append_assoc]

/-- Statements that take up the pads `ins` and leave `outs` open. -/
structure Wiring (sts : List Statement) (ins outs : List Pad) : Prop where
  balance : ∀ p, (readsOf sts).count p + outs.count p = ins.count p + (writesOf sts).count p
  once : (writesOf sts).Nodup
  ordered : Ordered ins sts

namespace Wiring

variable {sts a b : List Statement} {s : Statement} {ins outs ia ib oa ob more : List Pad}

theorem nil (ins : List Pad) : Wiring [] ins ins where
  balance p := by simp [readsOf, writesOf]
  once := List.nodup_nil
  ordered := trivial

theorem ofSources (once : (writesOf sts).Nodup) : Wiring sts (readsOf sts) (writesOf sts) where
  balance _ := rfl
  once := once
  ordered := by
    suffices ∀ known, (∀ p ∈ readsOf sts, p ∈ known) → Ordered known sts from this _ fun _ => id
    clear once
    induction sts with
    | nil => exact fun _ _ => trivial
    | cons s rest ih =>
      intro known h
      rw [readsOf, List.flatMap_cons] at h
      exact ⟨fun p hp => h p (List.mem_append_left _ hp), ih _ fun p hp =>
        List.mem_append_left _ (h p (List.mem_append_right _ hp))⟩

theorem mem_of_use (h : Wiring sts ins outs) {p : Pad} (hp : p ∈ readsOf sts ++ outs) :
    p ∈ ins ∨ p ∈ writesOf sts := by
  have hb := h.balance p
  have hu : 0 < (readsOf sts ++ outs).count p := List.count_pos_iff.mpr hp
  rw [List.count_append] at hu
  by_cases hi : p ∈ ins
  · exact .inl hi
  · rw [List.count_eq_zero_of_not_mem hi] at hb
    exact .inr (List.count_pos_iff.mp (by omega))

theorem append (ha : Wiring a ia oa) (hb : Wiring b ib ob)
    (apart : ∀ p ∈ writesOf a, p ∉ writesOf b) : Wiring (a ++ b) (ia ++ ib) (oa ++ ob) where
  balance p := by
    have := ha.balance p
    have := hb.balance p
    simp only [readsOf_append, writesOf_append, List.count_append]
    omega
  once := by
    rw [writesOf_append]
    exact List.nodup_append'.mpr ⟨ha.once, hb.once, fun p hp hq => apart p hp hq⟩
  ordered := ordered_append.mpr ⟨ha.ordered.mono fun p hp => List.mem_append_left _ hp,
    hb.ordered.mono fun p hp => by simp [hp]⟩

theorem snoc (h : Wiring sts ins outs) (once : s.writes.Nodup)
    (fresh : ∀ p ∈ s.writes, p ∉ writesOf sts) (known : ∀ p ∈ s.reads, p ∈ more ∨ p ∈ outs)
    (balance : ∀ p, s.reads.count p + ob.count p = more.count p + outs.count p + s.writes.count p) :
    Wiring (sts ++ [s]) (ins ++ more) ob where
  balance p := by
    have := h.balance p
    have := balance p
    simp only [readsOf_append, writesOf_append, readsOf_singleton, writesOf_singleton,
      List.count_append]
    omega
  once := by
    rw [writesOf_append, writesOf_singleton]
    exact List.nodup_append'.mpr ⟨h.once, once, fun p hp hs => fresh p hs hp⟩
  ordered := by
    refine ordered_append.mpr ⟨h.ordered.mono fun p hp => List.mem_append_left _ hp, ?_, trivial⟩
    intro p hp
    simp only [List.mem_append]
    rcases known p hp with hp | hp
    · exact .inl (.inr hp)
    · exact (h.mem_of_use (List.mem_append_right _ hp)).imp_left .inl

end Wiring

/-! ## Chains -/

/-- A pad that a picture chain writes on its way, numbered below `bound`. -/
def Pad.IsPiece (stream bound : Nat) : Pad → Prop
  | segment s i | image s i => s = stream ∧ i < bound
  | _ => False

theorem Pad.IsPiece.mono {stream m n : Nat} (h : m ≤ n) {p : Pad} (hp : p.IsPiece stream m) :
    p.IsPiece stream n := by
  cases p with
  | segment s i | image s i => exact ⟨hp.1, Nat.lt_of_lt_of_le hp.2 h⟩
  | _ => exact hp.elim

def inputVideos (first count : Nat) : List Pad := (List.range' first count).map .inputVideo

theorem mem_inputVideos {first count k : Nat} :
    Pad.inputVideo k ∈ inputVideos first count ↔ first ≤ k ∧ k < first + count := by
  simp [inputVideos]

namespace Chain

/-- A chain of stream `stream` that began at input `first`: the source of what is pending is the
one open pad. -/
structure Wired (stream first : Nat) (c : Chain) : Prop where
  stream_eq : c.stream = stream
  nextInput_eq : c.nextInput = first + (c.images.length + 1)
  wiring : Wiring c.statements (inputVideos first (c.images.length + 1)) [c.source]
  pieces : ∀ p ∈ writesOf c.statements, p.IsPiece stream c.segment
  bodies : ∀ s ∈ c.statements, s.HasBody
  written : c.pending = [] → c.source ∈ writesOf c.statements

variable {stream first : Nat} {c : Chain}

theorem wired_start (frame : Geometry) (duration : Scalar) :
    Wired stream first (start stream first frame duration) where
  stream_eq := rfl
  nextInput_eq := rfl
  wiring := Wiring.nil _
  pieces := by simp [start, writesOf]
  bodies := by simp [start]
  written h := by simp [start] at h

theorem Wired.push (h : Wired stream first c) (f : Filter) : Wired stream first (c.push f) :=
  { h with written := fun e => by simp [Chain.push] at e }

theorem Wired.segment_fresh (h : Wired stream first c) :
    Pad.segment c.stream c.segment ∉ writesOf c.statements :=
  fun hm => Nat.lt_irrefl _ (h.pieces _ hm).2

theorem Wired.image_fresh (h : Wired stream first c) :
    Pad.image c.stream c.segment ∉ writesOf c.statements :=
  fun hm => Nat.lt_irrefl _ (h.pieces _ hm).2

theorem Wired.pieces_append (h : Wired stream first c) {sts : List Statement}
    (hs : ∀ p ∈ writesOf sts, p = .segment c.stream c.segment ∨ p = .image c.stream c.segment) :
    ∀ p ∈ writesOf (c.statements ++ sts), p.IsPiece c.stream (c.segment + 1) := by
  intro p hp
  rw [writesOf_append] at hp
  rcases List.mem_append.mp hp with hp | hp
  · exact (h.stream_eq ▸ h.pieces p hp).mono (Nat.le_succ _)
  · rcases hs p hp with rfl | rfl <;> exact ⟨rfl, Nat.lt_succ_self _⟩

theorem Wired.closeSegment (h : Wired stream first c) :
    Wired stream first c.closeSegment ∧
      c.closeSegment.source ∈ writesOf c.closeSegment.statements := by
  by_cases hp : c.pending.isEmpty
  · rw [Chain.closeSegment, if_pos hp]
    exact ⟨h, h.written (by simpa using hp)⟩
  · rw [Chain.closeSegment, if_neg hp]
    obtain rfl := h.stream_eq
    have written : Pad.segment c.stream c.segment ∈
        writesOf (c.statements ++ [.chain c.source c.pending (.segment c.stream c.segment)]) := by
      simp [Statement.writes]
    refine ⟨⟨rfl, h.nextInput_eq, ?_, ?_, ?_, fun _ => written⟩, written⟩
    · rw [← List.append_nil (inputVideos _ _)]
      refine h.wiring.snoc (List.nodup_singleton _) ?_ (by simp [Statement.reads]) fun p => ?_
      · simpa [Statement.writes] using h.segment_fresh
      · simp only [Statement.reads, Statement.writes, List.count_nil, Nat.zero_add]
    · exact h.pieces_append (by simp [Statement.writes])
    · intro s hs
      rcases List.mem_append.mp hs with hs | hs
      · exact h.bodies s hs
      · rw [List.mem_singleton.mp hs]
        simpa [Statement.HasBody] using hp

theorem Wired.overlay (h : Wired stream first c) (image : String) (r : Region) :
    Wired stream first (c.overlay image r) := by
  obtain ⟨h, -⟩ := h.closeSegment
  unfold Chain.overlay
  generalize c.closeSegment = c at h
  obtain rfl := h.stream_eq
  have next := h.nextInput_eq
  -- the image is one more input, and its scaled form is open beside the picture
  have fit : Wiring (c.statements ++ [.fit c.nextInput r.width r.height (.image c.stream c.segment)])
      (inputVideos first (c.images.length + 1) ++ [.inputVideo c.nextInput])
      [c.source, .image c.stream c.segment] := by
    refine h.wiring.snoc (List.nodup_singleton _) ?_ (by simp [Statement.reads]) fun p => ?_
    · simpa [Statement.writes] using h.image_fresh
    · simp only [Statement.reads, Statement.writes, List.count_cons, List.count_nil]
      omega
  have laid : Wiring (c.statements ++ [.fit c.nextInput r.width r.height (.image c.stream c.segment)]
      ++ [.overlay c.source (.image c.stream c.segment) r.left r.top (.segment c.stream c.segment)])
      (inputVideos first (c.images.length + 1) ++ [.inputVideo c.nextInput] ++ [])
      [.segment c.stream c.segment] := by
    refine fit.snoc (List.nodup_singleton _) ?_ (by simp [Statement.reads]) fun p => ?_
    · simpa [Statement.writes] using h.segment_fresh
    · simp only [Statement.reads, Statement.writes, List.count_cons, List.count_nil]
      omega
  refine ⟨rfl, ?_, ?_, h.pieces_append (by simp [writesOf, Statement.writes]), ?_, ?_⟩
  · simp only [List.length_append, List.length_singleton]
    omega
  · have ins : inputVideos first (c.images.length + 1) ++ [.inputVideo c.nextInput] =
        inputVideos first ((c.images ++ [image]).length + 1) := by
      rw [next, inputVideos, inputVideos, List.length_append, List.length_singleton,
        List.range'_concat (n := c.images.length + 1), List.map_append]
      simp
    rw [List.append_nil, List.append_assoc, ins] at laid
    exact laid
  · intro s hs
    rcases List.mem_append.mp hs with hs | hs
    · exact h.bodies s hs
    · simp only [List.mem_cons, List.not_mem_nil, or_false] at hs
      rcases hs with rfl | rfl <;> trivial
  · simp [writesOf, Statement.writes]

theorem Wired.writeAll (h : Wired stream first c) (steps : List (Step String)) :
    Wired stream first (c.writeAll steps) := by
  induction steps generalizing c with
  | nil => exact h
  | cons s steps ih =>
    cases s with
    | filter f => exact ih (h.push f)
    | overlay image region => exact ih (h.overlay image region)

end Chain

/-! ## Streams -/

def Pad.OfStream (stream : Nat) : Pad → Prop
  | segment s _ | image s _ | picture s => s = stream
  | _ => False

structure StreamWiring (stream first count : Nat) (sts : List Statement) (video : Pad) : Prop where
  wiring : Wiring sts (inputVideos first count) [video]
  own : ∀ p ∈ writesOf sts, p.OfStream stream
  bodies : ∀ s ∈ sts, s.HasBody
  written : video ∈ writesOf sts

theorem Chain.Wired.finish {stream first : Nat} {c : Chain} (h : Chain.Wired stream first c) :
    StreamWiring stream first (c.images.length + 1) c.finish.2 c.finish.1 := by
  obtain rfl := h.stream_eq
  have own : ∀ p ∈ writesOf c.statements, p.OfStream c.stream := by
    intro p hp
    have := h.pieces p hp
    cases p with
    | segment s i | image s i => exact this.1
    | _ => exact this.elim
  by_cases hp : c.pending.isEmpty
  · rw [Chain.finish, if_pos hp]
    exact ⟨h.wiring, own, h.bodies, h.written (by simpa using hp)⟩
  · rw [Chain.finish, if_neg hp]
    have fresh : Pad.picture c.stream ∉ writesOf c.statements := fun hm => h.pieces _ hm
    refine ⟨?_, ?_, ?_, by simp [Statement.writes]⟩
    · rw [← List.append_nil (inputVideos _ _)]
      refine h.wiring.snoc (List.nodup_singleton _) ?_ (by simp [Statement.reads]) fun p => ?_
      · simpa [Statement.writes] using fresh
      · simp only [Statement.reads, Statement.writes, List.count_nil, Nat.zero_add]
    · intro p hq
      rw [writesOf_append] at hq
      rcases List.mem_append.mp hq with hq | hq
      · exact own p hq
      · obtain rfl : p = .picture c.stream := by simpa [Statement.writes] using hq
        exact rfl
    · intro s hs
      rcases List.mem_append.mp hs with hs | hs
      · exact h.bodies s hs
      · rw [List.mem_singleton.mp hs]
        simpa [Statement.HasBody] using hp

end Montage
