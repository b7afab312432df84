import Mathlib.Data.List.Chain
import Mathlib.Data.List.Range
import Mathlib.Logic.Relation
import Montage.Pipeline.Board

/-!
# Links between pipelines

Whatever is called on the pipelines of a board, and in whatever order, no pipeline
comes to lie below itself. A search along the attachments then never goes deeper
than the board has places, so it finds what there is to find, and the order of
streams can be laid out.
-/

namespace Montage

open Relation

namespace Board

/-- A pipeline has another one attached. Its own source once more does not count. -/
def Attaches (b : Board) (id o : PipelineId) : Prop := .other o ∈ (b.get id).attachments

inductive Act
  | new (frame : Geometry) (isMaster : Bool)
  | call (id : PipelineId) (c : Call)
  deriving DecidableEq

/-- The board after an act. A call that is refused leaves it as it was. -/
def after (b : Board) : Act → Board
  | .new frame isMaster => (b.add frame isMaster).2
  | .call id c =>
    match b.perform id c with
    | .ok b' => b'
    | .error _ => b

def afterAll (acts : List Act) : Board := acts.foldl after {}

/-! ## Places -/

theorem get_set (b : Board) (id j : PipelineId) (p : Pipeline) :
    (b.set id p).get j = if id = j ∧ j < b.pipelines.length then p else b.get j := by
  simp only [get, set, List.getD_eq_getElem?_getD, List.getElem?_set]
  by_cases e : id = j
  · by_cases hj : j < b.pipelines.length
    · simp [e, hj]
    · simp [e, hj]
  · simp [e]

theorem get_add (b : Board) (frame : Geometry) (isMaster : Bool) (j : PipelineId) :
    (b.add frame isMaster).2.get j =
      if j = b.pipelines.length then .unbound frame isMaster else b.get j := by
  simp only [get, add, List.getD_eq_getElem?_getD]
  rcases Nat.lt_trichotomy j b.pipelines.length with hj | hj | hj
  · rw [List.getElem?_append_left hj, if_neg (Nat.ne_of_lt hj)]
  · simp [hj]
  · rw [if_neg (Nat.ne_of_gt hj), List.getElem?_eq_none (by simp; omega),
      List.getElem?_eq_none (by omega)]

theorem get_of_le {b : Board} {id : PipelineId} (h : b.pipelines.length ≤ id) :
    b.get id = .unbound ⟨0, 0⟩ false := by
  rw [get, List.getD_eq_getElem?_getD, List.getElem?_eq_none h, Option.getD_none]

theorem Attaches.lt {b : Board} {id o : PipelineId} (h : b.Attaches id o) :
    id < b.pipelines.length := by
  by_contra hn
  rw [Attaches, get_of_le (Nat.le_of_not_lt hn)] at h
  cases h

def attach (b : Board) (id : PipelineId) (a : Attachment) : Board :=
  b.set id { b.get id with attachments := (b.get id).attachments ++ [a] }

@[simp] theorem isBound_attach (b : Board) (id : PipelineId) (a : Attachment) (j : PipelineId) :
    (b.attach id a).isBound j = b.isBound j := by
  rw [isBound, attach, get_set]
  split
  · rename_i e
    rw [← e.1]
    rfl
  · rfl

@[simp] theorem isMaster_attach (b : Board) (id : PipelineId) (a : Attachment) (j : PipelineId) :
    ((b.attach id a).get j).isMaster = (b.get j).isMaster := by
  rw [attach, get_set]
  split
  · rename_i e
    rw [← e.1]
  · rfl

theorem mem_attachments_attach {b : Board} {id j : PipelineId} {a c : Attachment}
    (h : c ∈ ((b.attach id a).get j).attachments) :
    c ∈ (b.get j).attachments ∨ j = id ∧ c = a := by
  rw [attach, get_set] at h
  split at h
  · rename_i e
    rcases List.mem_append.mp h with h | h
    · exact .inl (e.1 ▸ h)
    · exact .inr ⟨e.1.symm, List.mem_singleton.mp h⟩
  · exact .inl h

/-! ## Links stay tidy -/

/-- Attachments make no cycle, only masters have them, and what is attached is bound. -/
structure Tidy (b : Board) : Prop where
  acyclic : ∀ id, ¬ TransGen b.Attaches id id
  bound : ∀ id o, b.Attaches id o → b.isBound o
  masters : ∀ id, (b.get id).attachments ≠ [] → (b.get id).isMaster

theorem tidy_empty : Tidy {} := by
  have none : ∀ id, ((({} : Board).get id).attachments) = [] := fun _ => rfl
  refine ⟨fun id h => ?_, fun id o h => ?_, fun id h => absurd (none id) h⟩
  · obtain ⟨o, ho, -⟩ := TransGen.head'_iff.mp h
    cases ho
  · cases h

theorem Tidy.of_same {b b' : Board} (h : b.Tidy)
    (same : ∀ id, (b'.get id).attachments = (b.get id).attachments)
    (bound : ∀ id, b.isBound id → b'.isBound id)
    (masters : ∀ id, (b.get id).attachments ≠ [] → (b'.get id).isMaster = (b.get id).isMaster) :
    b'.Tidy := by
  have attaches : b'.Attaches = b.Attaches := by
    funext id o
    rw [Attaches, same, Attaches]
  refine ⟨attaches ▸ h.acyclic, fun id o ho => ?_, fun id ha => ?_⟩
  · exact bound o (h.bound id o (attaches ▸ ho))
  · rw [same] at ha
    rw [masters id ha]
    exact h.masters id ha

theorem Tidy.add {b : Board} (h : b.Tidy) (frame : Geometry) (isMaster : Bool) :
    (b.add frame isMaster).2.Tidy := by
  have off : b.get b.pipelines.length = .unbound ⟨0, 0⟩ false :=
    get_of_le (Nat.le_refl _)
  refine h.of_same (fun id => ?_) (fun id hb => ?_) (fun id ha => ?_)
  · rw [get_add]
    split
    · rename_i e
      rw [e, off]
      rfl
    · rfl
  · rw [isBound, get_add]
    split
    · rename_i e
      rw [e, isBound, off] at hb
      cases hb
    · exact hb
  · rw [get_add]
    split
    · rename_i e
      rw [e, off] at ha
      exact absurd rfl ha
    · rfl

theorem Tidy.set_bound {b : Board} (h : b.Tidy) (id : PipelineId) (s : BoundSource) :
    (b.set id { b.get id with bound := some s }).Tidy := by
  refine h.of_same (fun j => ?_) (fun j hb => ?_) (fun j _ => ?_)
  · rw [get_set]
    split
    · rename_i e
      rw [← e.1]
    · rfl
  · rw [isBound, get_set]
    split
    · rfl
    · exact hb
  · rw [get_set]
    split
    · rename_i e
      rw [← e.1]
    · rfl

theorem transGen_insert {α : Type} {r : α → α → Prop} {a c x y : α}
    (h : TransGen (fun x y => r x y ∨ x = a ∧ y = c) x y) :
    TransGen r x y ∨ ReflTransGen r x a ∧ ReflTransGen r c y := by
  induction h with
  | single h =>
    rcases h with h | ⟨rfl, rfl⟩
    · exact .inl (.single h)
    · exact .inr ⟨.refl, .refl⟩
  | tail _ h ih =>
    rcases h with h | ⟨rfl, rfl⟩
    · rcases ih with ih | ⟨hx, hc⟩
      · exact .inl (ih.tail h)
      · exact .inr ⟨hx, hc.tail h⟩
    · rcases ih with ih | ⟨hx, -⟩
      · exact .inr ⟨ih.to_reflTransGen, .refl⟩
      · exact .inr ⟨hx, .refl⟩

theorem Tidy.attach {b : Board} (h : b.Tidy) {id : PipelineId} {a : Attachment}
    (master : (b.get id).isMaster)
    (ok : ∀ o, a = .other o → o ≠ id ∧ b.isBound o ∧ ¬ TransGen b.Attaches o id) :
    (b.attach id a).Tidy := by
  refine ⟨fun j hj => ?_, fun j o hj => ?_, fun j hj => ?_⟩
  · cases a with
    | itself =>
      refine h.acyclic j (TransGen.mono (fun x y hxy => ?_) j j hj)
      rcases mem_attachments_attach hxy with hxy | ⟨-, e⟩
      · exact hxy
      · cases e
    | other o =>
      obtain ⟨ne, -, below⟩ := ok o rfl
      have inserted : TransGen (fun x y => b.Attaches x y ∨ x = id ∧ y = o) j j := by
        refine TransGen.mono (fun x y hxy => ?_) j j hj
        rcases mem_attachments_attach hxy with hxy | ⟨rfl, e⟩
        · exact .inl hxy
        · exact .inr ⟨rfl, Attachment.other.inj e⟩
      -- a cycle would take the new link, and come back to its beginning from its end
      rcases transGen_insert inserted with hj | ⟨hx, hc⟩
      · exact h.acyclic j hj
      · rcases reflTransGen_iff_eq_or_transGen.mp (hc.trans hx) with e | back
        · exact ne e.symm
        · exact below back
  · rw [isBound_attach]
    rcases mem_attachments_attach hj with hj | ⟨-, e⟩
    · exact h.bound j o hj
    · exact (ok o e.symm).2.1
  · rw [isMaster_attach]
    obtain ⟨c, hc⟩ := List.exists_mem_of_ne_nil _ hj
    rcases mem_attachments_attach hc with hc | ⟨rfl, -⟩
    · exact h.masters j (List.ne_nil_of_mem hc)
    · exact master

/-! ## Ways along attachments -/

theorem transGen_iff_isChain {α : Type} {r : α → α → Prop} {x y : α} :
    TransGen r x y ↔ ∃ l, List.IsChain r (x :: l) ∧ l.getLast? = some y := by
  constructor
  · intro h
    induction h using TransGen.head_induction_on with
    | single h => exact ⟨[y], List.isChain_pair.mpr h, rfl⟩
    | @head a c h _ ih =>
      obtain ⟨l, hl, hy⟩ := ih
      refine ⟨c :: l, List.isChain_cons_cons.mpr ⟨h, hl⟩, ?_⟩
      rw [List.getLast?_cons, hy]
      rfl
  · rintro ⟨l, hl, hy⟩
    induction l generalizing x with
    | nil => cases hy
    | cons z l ih =>
      obtain ⟨hz, hl⟩ := List.isChain_cons_cons.mp hl
      cases l with
      | nil =>
        obtain rfl := Option.some.inj hy
        exact .single hz
      | cons w l => exact .head hz (ih hl (by rwa [List.getLast?_cons_cons] at hy))

theorem lt_of_mem_dropLast {b : Board} {l : List PipelineId} (h : List.IsChain b.Attaches l) :
    ∀ x ∈ l.dropLast, x < b.pipelines.length := by
  induction l with
  | nil => simp
  | cons x l ih =>
    cases l with
    | nil => simp
    | cons y l =>
      obtain ⟨hx, hl⟩ := List.isChain_cons_cons.mp h
      intro z hz
      rcases List.mem_cons.mp hz with rfl | hz
      · exact hx.lt
      · exact ih hl z hz

/-- No place is passed twice, so a way is not longer than the board. -/
theorem Tidy.length_le {b : Board} (h : b.Tidy) {id : PipelineId} {l : List PipelineId}
    (way : List.IsChain b.Attaches (id :: l)) : l.length ≤ b.pipelines.length := by
  -- of two places on a way the later one lies below the first, so they differ
  have below : (id :: l).Pairwise (TransGen b.Attaches) :=
    List.isChain_iff_pairwise.mp (way.imp fun _ _ => TransGen.single)
  have once : (id :: l).Nodup := by
    refine below.imp ?_
    rintro x _ hx rfl
    exact h.acyclic x hx
  have places : (id :: l).dropLast ⊆ List.range b.pipelines.length := fun x hx =>
    List.mem_range.mpr (lt_of_mem_dropLast way x hx)
  simpa using (once.sublist (List.dropLast_sublist _)).length_le_of_subset places

theorem reachesWithin_iff {b : Board} {target : PipelineId} {depth : Nat} {id : PipelineId} :
    b.reachesWithin target depth id ↔
      ∃ l, List.IsChain b.Attaches (id :: l) ∧ l.getLast? = some target ∧ l.length ≤ depth := by
  induction depth generalizing id with
  | zero =>
    refine ⟨fun h => (by cases h), ?_⟩
    rintro ⟨l, -, hl, short⟩
    rw [List.length_eq_zero_iff.mp (Nat.le_zero.mp short)] at hl
    cases hl
  | succ depth ih =>
    rw [reachesWithin, List.any_eq_true]
    constructor
    · rintro ⟨a, ha, h⟩
      cases a with
      | itself => cases h
      | other o =>
        simp only [Bool.or_eq_true, decide_eq_true_eq, ih] at h
        rcases h with rfl | ⟨l, way, hl, short⟩
        · exact ⟨[o], List.isChain_pair.mpr ha, rfl, by simp⟩
        · refine ⟨o :: l, List.isChain_cons_cons.mpr ⟨ha, way⟩, ?_, Nat.succ_le_succ short⟩
          rw [List.getLast?_cons, hl]
          rfl
    · rintro ⟨l, way, hl, short⟩
      cases l with
      | nil => cases hl
      | cons o l =>
        obtain ⟨ha, way⟩ := List.isChain_cons_cons.mp way
        refine ⟨.other o, ha, ?_⟩
        simp only [Bool.or_eq_true, decide_eq_true_eq, ih]
        cases l with
        | nil => exact .inl (Option.some.inj hl)
        | cons z l =>
          exact .inr ⟨z :: l, way, by rwa [List.getLast?_cons_cons] at hl, Nat.le_of_succ_le_succ short⟩

theorem Tidy.reachesWithin_iff {b : Board} (h : b.Tidy) {depth : Nat}
    (deep : b.pipelines.length ≤ depth) {id target : PipelineId} :
    b.reachesWithin target depth id ↔ TransGen b.Attaches id target := by
  rw [Board.reachesWithin_iff, transGen_iff_isChain]
  constructor
  · rintro ⟨l, way, hl, -⟩
    exact ⟨l, way, hl⟩
  · rintro ⟨l, way, hl⟩
    exact ⟨l, way, hl, (h.length_le way).trans deep⟩

theorem Tidy.reaches_iff {b : Board} (h : b.Tidy) {id target : PipelineId} :
    b.reaches id target ↔ TransGen b.Attaches id target := h.reachesWithin_iff (Nat.le_refl _)

/-! ## Calls -/

def MayAttach (b : Board) (id other : PipelineId) : Prop :=
  (b.get id).isMaster ∧ b.isBound id ∧
    (other = id ∨ b.isBound other ∧ ¬ TransGen b.Attaches other id)

def attachment (id other : PipelineId) : Attachment := if other = id then .itself else .other other

theorem concat_eq (b : Board) (id other : PipelineId) :
    b.concat id other =
      if !(b.get id).isMaster then .error (.masterOnly "concat")
      else if !b.isBound id then .error (.beforeInit "concat")
      else if other = id then .ok (b.attach id .itself)
      else if !b.isBound other then .error (.beforeInit "concat")
      else if b.reaches other id then
        .error (.invalidState "attaching would create a cycle of pipelines")
      else .ok (b.attach id (.other other)) := by
  have bound : (!b.isBound id) = (b.get id).bound.isNone := by
    rw [isBound]
    cases (b.get id).bound <;> rfl
  rw [bound]
  rfl

/-- **Attaching** succeeds when it may, and only then. -/
theorem Tidy.concat_iff {b : Board} (h : b.Tidy) {id other : PipelineId} {b' : Board} :
    b.concat id other = .ok b' ↔ b.MayAttach id other ∧ b' = b.attach id (attachment id other) := by
  rw [concat_eq, MayAttach, attachment]
  by_cases master : (b.get id).isMaster
  · by_cases hb : b.isBound id
    · by_cases same : other = id
      · simp [master, hb, same, eq_comm]
      · by_cases ho : b.isBound other
        · by_cases hr : b.reaches other id
          · simp [master, hb, same, ho, hr, h.reaches_iff.mp hr]
          · have below : ¬ TransGen b.Attaches other id := fun hl => hr (h.reaches_iff.mpr hl)
            simp [master, hb, same, ho, hr, below, eq_comm]
        · simp [master, hb, same, ho]
    · simp [master, hb]
  · simp [master]

theorem Tidy.concat {b b' : Board} (h : b.Tidy) {id other : PipelineId}
    (hc : b.concat id other = .ok b') : b'.Tidy := by
  obtain ⟨⟨master, -, may⟩, rfl⟩ := h.concat_iff.mp hc
  refine h.attach master fun o ho => ?_
  unfold attachment at ho
  split at ho
  · cases ho
  · rename_i ne
    obtain rfl := Attachment.other.inj ho
    rcases may with e | ⟨hb, below⟩
    · exact absurd e ne
    · exact ⟨ne, hb, below⟩

theorem Tidy.append {b b' : Board} (h : b.Tidy) {id : PipelineId} {name : String}
    {edit : Except RenderError Edit} (ha : b.append id name edit = .ok b') : b'.Tidy := by
  simp only [Board.append] at ha
  split at ha
  · cases ha
  · cases edit with
    | error e => cases ha
    | ok e => exact Except.ok.inj ha ▸ h.set_bound id _

theorem Tidy.init {b b' : Board} (h : b.Tidy) {id : PipelineId} {input : String}
    (hi : b.init id input = .ok b') : b'.Tidy := by
  simp only [Board.init] at hi
  split at hi
  · cases hi
  · exact Except.ok.inj hi ▸ h.set_bound id _

/-- **One call** keeps the links tidy. -/
theorem Tidy.perform {b b' : Board} (h : b.Tidy) {id : PipelineId} {c : Call}
    (hp : b.perform id c = .ok b') : b'.Tidy := by
  cases c with
  | init input => exact h.init hp
  | concat other => exact h.concat hp
  | _ => exact h.append hp

theorem Tidy.after {b : Board} (h : b.Tidy) (a : Act) : (b.after a).Tidy := by
  cases a with
  | new frame isMaster => exact h.add frame isMaster
  | call id c =>
    rw [Board.after]
    cases hp : b.perform id c with
    | ok b' => exact h.perform hp
    | error e => exact h

/-- **Any acts in any order** keep the links tidy. -/
theorem tidy_afterAll (acts : List Act) : (afterAll acts).Tidy := by
  suffices ∀ b : Board, b.Tidy → (acts.foldl Board.after b).Tidy from this _ tidy_empty
  induction acts with
  | nil => exact fun _ h => h
  | cons a acts ih => exact fun b h => ih _ (h.after a)

end Board

end Montage
