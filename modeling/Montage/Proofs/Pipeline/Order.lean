import Montage.Proofs.Pipeline.Links

/-!
# The order of streams

On a tidy board all ways end, so what lies below a pipeline can be laid out: first
its own source, then what is attached, each with all that lies below it. How deep
one looks plays no part, if only one looks deep enough.
-/

namespace Montage

open Relation

namespace Board

def Shallow (b : Board) (depth : Nat) (id : PipelineId) : Prop :=
  ∀ l, List.IsChain b.Attaches (id :: l) → l.length < depth

theorem Tidy.shallow {b : Board} (h : b.Tidy) {depth : Nat} (deep : b.pipelines.length < depth)
    (id : PipelineId) : b.Shallow depth id := fun _ way => (h.length_le way).trans_lt deep

theorem Shallow.pos {b : Board} {depth : Nat} {id : PipelineId} (h : b.Shallow depth id) :
    0 < depth := h [] (List.isChain_singleton id)

theorem Shallow.attached {b : Board} {depth : Nat} {id o : PipelineId}
    (h : b.Shallow (depth + 1) id) (ho : b.Attaches id o) : b.Shallow depth o :=
  fun l way => Nat.lt_of_succ_lt_succ (h (o :: l) (List.isChain_cons_cons.mpr ⟨ho, way⟩))

theorem Shallow.acc {b : Board} {depth : Nat} {id : PipelineId} (h : b.Shallow depth id) :
    Acc (fun o id => b.Attaches id o) id := by
  induction depth generalizing id with
  | zero => exact absurd h.pos (Nat.lt_irrefl 0)
  | succ depth ih => exact ⟨id, fun o ho => ih (h.attached ho)⟩

section
variable {below below' : PipelineId → Except RenderError (List PipelineId)}

theorem flattenAttachments_congr {id : PipelineId} {as : List Attachment}
    (h : ∀ o, .other o ∈ as → below o = below' o) :
    flattenAttachments below id as = flattenAttachments below' id as := by
  induction as with
  | nil => simp only [flattenAttachments]
  | cons a as ih =>
    have rest := ih fun o ho => h o (List.mem_cons_of_mem _ ho)
    cases a with
    | itself => simp only [flattenAttachments, rest]
    | other o => simp only [flattenAttachments, rest, h o List.mem_cons_self]

theorem flattenAttachments_ok (id : PipelineId) {as : List Attachment}
    (h : ∀ o, .other o ∈ as → ∃ ids, below o = .ok ids) :
    ∃ ids, flattenAttachments below id as = .ok ids := by
  induction as with
  | nil => exact ⟨[], by rw [flattenAttachments]⟩
  | cons a as ih =>
    obtain ⟨rest, hrest⟩ := ih fun o ho => h o (List.mem_cons_of_mem _ ho)
    cases a with
    | itself => exact ⟨id :: rest, by rw [flattenAttachments, hrest]; rfl⟩
    | other o =>
      obtain ⟨first, hfirst⟩ := h o List.mem_cons_self
      exact ⟨first ++ rest, by rw [flattenAttachments, hfirst, hrest]; rfl⟩

def streamsOf (id : PipelineId) (below : PipelineId → Except RenderError (List PipelineId)) :
    Attachment → Except RenderError (List PipelineId)
  | .itself => .ok [id]
  | .other o => below o

theorem flattenAttachments_eq_mapM (id : PipelineId) (as : List Attachment) :
    flattenAttachments below id as = (as.mapM (streamsOf id below)).map List.flatten := by
  induction as with
  | nil => rw [flattenAttachments]; rfl
  | cons a as ih =>
    rw [List.mapM_cons]
    generalize List.mapM (streamsOf id below) as = rest at ih
    cases a with
    | itself =>
      rw [flattenAttachments, ih]
      cases rest <;> rfl
    | other o =>
      rw [flattenAttachments, ih, show streamsOf id below (.other o) = below o from rfl]
      cases below o with
      | error e => rfl
      | ok first => cases rest <;> rfl

end

theorem Shallow.flattenWithin_eq {b : Board} {m n : Nat} {id : PipelineId} (hm : b.Shallow m id)
    (hn : b.Shallow n id) : b.flattenWithin m id = b.flattenWithin n id := by
  induction m generalizing n id with
  | zero => exact absurd hm.pos (Nat.lt_irrefl 0)
  | succ m ih =>
    cases n with
    | zero => exact absurd hn.pos (Nat.lt_irrefl 0)
    | succ n =>
      have attachments : flattenAttachments (b.flattenWithin m) id (b.get id).attachments =
          flattenAttachments (b.flattenWithin n) id (b.get id).attachments :=
        flattenAttachments_congr fun o ho => ih (hm.attached ho) (hn.attached ho)
      simp only [flattenWithin, attachments]

theorem Tidy.flattenWithin_ok {b : Board} (h : b.Tidy) {depth : Nat} {id : PipelineId}
    (shallow : b.Shallow depth id) (bound : b.isBound id) :
    ∃ ids, b.flattenWithin depth id = .ok ids := by
  induction depth generalizing id with
  | zero => exact absurd shallow.pos (Nat.lt_irrefl 0)
  | succ depth ih =>
    have below : ∀ o, .other o ∈ (b.get id).attachments → ∃ ids, b.flattenWithin depth o = .ok ids :=
      fun o ho => ih (shallow.attached ho) (h.bound id o ho)
    obtain ⟨ids, hids⟩ := flattenAttachments_ok id below
    have some : (b.get id).bound.isNone = false := by
      rw [isBound] at bound
      cases hb : (b.get id).bound with
      | none => rw [hb] at bound; cases bound
      | some s => rfl
    exact ⟨id :: ids, by simp only [flattenWithin, some, hids]; rfl⟩

theorem Tidy.reaches_step {b : Board} (h : b.Tidy) (id target : PipelineId) :
    b.reaches id target = (b.get id).attachments.any fun
      | .itself => false
      | .other o => o = target || b.reaches o target := by
  have deeper : b.reaches id target = b.reachesWithin target (b.pipelines.length + 1) id := by
    rw [Bool.eq_iff_iff, h.reaches_iff, h.reachesWithin_iff (Nat.le_succ _)]
  rw [deeper, reachesWithin]
  rfl

theorem Tidy.flatten_step {b : Board} (h : b.Tidy) (id : PipelineId) :
    b.flatten id =
      if b.isBound id then
        ((b.get id).attachments.mapM (streamsOf id b.flatten)).map fun parts => id :: parts.flatten
      else .error neverInitialised := by
  have deeper : b.flatten id = b.flattenWithin (b.pipelines.length + 2) id :=
    (h.shallow (Nat.lt_succ_self _) id).flattenWithin_eq (h.shallow (by omega) id)
  rw [deeper, flattenWithin, flattenAttachments_eq_mapM, isBound]
  cases (b.get id).bound with
  | none => rfl
  | some s =>
    simp only [Option.isNone_some, Option.isSome_some, Bool.false_eq_true, if_false, if_true]
    rw [show b.flattenWithin (b.pipelines.length + 1) = b.flatten from rfl]
    generalize List.mapM (streamsOf id b.flatten) (b.get id).attachments = parts
    cases parts <;> rfl

/-! ## What holds of every board -/

structure Linked (b : Board) : Prop where
  tidy : b.Tidy
  ends : WellFounded fun o id => b.Attaches id o
  reaches_step : ∀ id target, b.reaches id target = (b.get id).attachments.any fun
    | .itself => false
    | .other o => o = target || b.reaches o target
  /-- The search finds exactly what lies below, at whatever depth it gives up. -/
  reaches_iff : ∀ depth, b.pipelines.length ≤ depth → ∀ id target,
    b.reachesWithin target depth id ↔ TransGen b.Attaches id target
  flatten_step : ∀ id, b.flatten id =
    if b.isBound id then
      ((b.get id).attachments.mapM (streamsOf id b.flatten)).map fun parts => id :: parts.flatten
    else .error neverInitialised
  flatten_eq : ∀ depth, b.pipelines.length < depth → ∀ id, b.flattenWithin depth id = b.flatten id
  flatten_ok : ∀ id, b.isBound id → ∃ ids, b.flatten id = .ok ids
  concat_ok : ∀ id other, (∃ b', b.perform id (.concat other) = .ok b') ↔ b.MayAttach id other

theorem Tidy.linked {b : Board} (h : b.Tidy) : b.Linked where
  tidy := h
  ends := ⟨fun id => (h.shallow (Nat.lt_succ_self _) id).acc⟩
  reaches_step := h.reaches_step
  reaches_iff _ deep _ _ := h.reachesWithin_iff deep
  flatten_step := h.flatten_step
  flatten_eq _ deep id :=
    (h.shallow deep id).flattenWithin_eq (h.shallow (Nat.lt_succ_self _) id)
  flatten_ok id bound := h.flattenWithin_ok (h.shallow (Nat.lt_succ_self _) id) bound
  concat_ok id other := by
    constructor
    · rintro ⟨b', hb⟩
      exact (h.concat_iff.mp hb).1
    · exact fun may => ⟨_, h.concat_iff.mpr ⟨may, rfl⟩⟩

/-- **Whatever is called, and in whatever order**, pipelines are linked without a cycle. -/
theorem linked_afterAll (acts : List Act) : (afterAll acts).Linked := (tidy_afterAll acts).linked

/-- Of two masters, one attached to the other, the second attachment is refused. -/
example :
    let b := afterAll [.new ⟨2, 2⟩ true, .new ⟨2, 2⟩ true, .call 0 (.init "a"), .call 1 (.init "b"),
      .call 0 (.concat 1), .call 1 (.concat 0), .call 1 (.concat 1)]
    (b.get 0).attachments = [.other 1] ∧ (b.get 1).attachments = [.itself] := by
  decide

end Board

end Montage
