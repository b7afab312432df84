import Montage.Pipeline.Run
import Montage.Proofs.Acts
import Montage.Proofs.Pipeline.Order

/-!
# Facts about sources

A board keeps what was found out about its sources. Without these facts a board is
bare, and calls, links and layout look at nothing more than that. Compiling a
pipeline adds facts where there are none, and touches neither the bare board nor
the disk.
-/

namespace Montage

open Relation

def BoundSource.bare (s : BoundSource) : BoundSource := { s with facts := none }

def Pipeline.bare (p : Pipeline) : Pipeline := { p with bound := p.bound.map BoundSource.bare }

namespace Board

def bare (b : Board) : Board := ⟨b.pipelines.map Pipeline.bare⟩

section
variable (b : Board) (id : PipelineId)

theorem get_bare : b.bare.get id = (b.get id).bare := by
  simp only [get, bare, List.getD_eq_getElem?_getD, List.getElem?_map]
  cases b.pipelines[id]? <;> rfl

theorem bare_set (p : Pipeline) : (b.set id p).bare = b.bare.set id p.bare := by
  simp only [bare, set, List.map_set]

@[simp] theorem length_bare : b.bare.pipelines.length = b.pipelines.length := by simp [bare]

@[simp] theorem attachments_bare : (b.bare.get id).attachments = (b.get id).attachments := by
  rw [get_bare]; rfl

@[simp] theorem isMaster_bare : (b.bare.get id).isMaster = (b.get id).isMaster := by
  rw [get_bare]; rfl

@[simp] theorem frame_bare : (b.bare.get id).frame = (b.get id).frame := by rw [get_bare]; rfl

@[simp] theorem isBound_bare : b.bare.isBound id = b.isBound id := by
  simp only [isBound, get_bare, Pipeline.bare, Option.isSome_map]

@[simp] theorem input?_bare : b.bare.input? id = b.input? id := by
  simp only [input?, get_bare, Pipeline.bare, Option.map_map]
  rfl

@[simp] theorem edits_bare : b.bare.edits id = b.edits id := by
  simp only [edits, get_bare, Pipeline.bare]
  cases (b.get id).bound <;> rfl

theorem isNone_bound_bare : (b.bare.get id).bound.isNone = (b.get id).bound.isNone := by
  simp only [get_bare, Pipeline.bare, Option.isNone_map]

end

theorem tidy_bare {b : Board} : b.bare.Tidy ↔ b.Tidy := by
  constructor
  · intro h
    exact h.of_same (by simp) (by simp) (by simp)
  · intro h
    exact h.of_same (by simp) (by simp) (by simp)

theorem reachesWithin_bare (b : Board) (target : PipelineId) :
    ∀ depth, b.bare.reachesWithin target depth = b.reachesWithin target depth
  | 0 => rfl
  | depth + 1 => by
    funext id
    simp only [reachesWithin, attachments_bare, reachesWithin_bare b target depth]

theorem reaches_bare (b : Board) (id target : PipelineId) :
    b.bare.reaches id target = b.reaches id target := by
  rw [reaches, reachesWithin_bare, length_bare, reaches]

theorem flattenWithin_bare (b : Board) : ∀ depth, b.bare.flattenWithin depth = b.flattenWithin depth
  | 0 => by funext id; rw [flattenWithin, flattenWithin]
  | depth + 1 => by
    funext id
    simp only [flattenWithin, isNone_bound_bare, flattenAttachments_eq_mapM, attachments_bare,
      flattenWithin_bare b depth]

theorem flatten_bare (b : Board) (id : PipelineId) : b.bare.flatten id = b.flatten id := by
  rw [flatten, flattenWithin_bare, length_bare, flatten]

theorem isBound_of_mem_flattenAttachments {b : Board} {id : PipelineId} (bound : b.isBound id)
    {below : PipelineId → Except RenderError (List PipelineId)}
    (within : ∀ {o : PipelineId} {ids : List PipelineId}, below o = .ok ids → ∀ j ∈ ids, b.isBound j)
    {as : List Attachment} {ids : List PipelineId} (h : flattenAttachments below id as = .ok ids) : ∀ j ∈ ids, b.isBound j := by
  induction as generalizing ids with
  | nil =>
    rw [flattenAttachments] at h
    cases h
    simp
  | cons a as ih =>
    cases a with
    | itself =>
      rw [flattenAttachments] at h
      cases hrest : flattenAttachments below id as with
      | error err =>
        rw [hrest] at h
        cases h
      | ok rest =>
        rw [hrest] at h
        cases h
        simpa [bound] using ih hrest
    | other o =>
      rw [flattenAttachments] at h
      cases hfirst : below o with
      | error err =>
        rw [hfirst] at h
        cases h
      | ok first =>
        cases hrest : flattenAttachments below id as with
        | error err =>
          rw [hfirst, hrest] at h
          cases h
        | ok rest =>
          rw [hfirst, hrest] at h
          cases h
          intro j hj
          exact (List.mem_append.mp hj).elim (within hfirst j) (ih hrest j)

theorem isBound_of_mem_flattenWithin {b : Board} {depth : Nat} {id : PipelineId}
    {ids : List PipelineId} (h : b.flattenWithin depth id = .ok ids) :
    ∀ j ∈ ids, b.isBound j := by
  induction depth generalizing id ids with
  | zero =>
    rw [flattenWithin] at h
    cases h
  | succ depth ih =>
    simp only [flattenWithin] at h
    split at h
    · cases h
    · rename_i some
      have bound : b.isBound id := by
        rw [isBound]
        simpa [Option.isSome_iff_ne_none] using some
      cases hrest : flattenAttachments (b.flattenWithin depth) id (b.get id).attachments with
      | error err =>
        rw [hrest] at h
        cases h
      | ok rest =>
        rw [hrest] at h
        cases h
        simpa [bound] using isBound_of_mem_flattenAttachments bound ih hrest

theorem isBound_of_mem_flatten {b : Board} {id : PipelineId} {ids : List PipelineId}
    (h : b.flatten id = .ok ids) : ∀ j ∈ ids, b.isBound j := isBound_of_mem_flattenWithin h

/-! ## Calls on bare boards -/

theorem attach_bare (b : Board) (id : PipelineId) (a : Attachment) :
    (b.attach id a).bare = b.bare.attach id a := by
  rw [attach, bare_set, attach, get_bare]
  rfl

theorem concat_bare (b : Board) (id other : PipelineId) :
    b.bare.concat id other = (b.concat id other).map bare := by
  simp only [concat_eq, isMaster_bare, isBound_bare, reaches_bare, ← attach_bare]
  repeat (split; · rfl)
  rfl

theorem init_bare (b : Board) (id : PipelineId) (input : String) :
    b.bare.init id input = (b.init id input).map bare := by
  simp only [init, get_bare, Pipeline.bare]
  cases (b.get id).bound with
  | some s => rfl
  | none =>
    refine congrArg Except.ok (Eq.trans ?_ (bare_set ..).symm)
    rfl

theorem append_bare (b : Board) (id : PipelineId) (name : String)
    (edit : Except RenderError Edit) :
    b.bare.append id name edit = (b.append id name edit).map bare := by
  simp only [append, get_bare, Pipeline.bare]
  cases (b.get id).bound with
  | none => rfl
  | some s =>
    cases edit with
    | error e => rfl
    | ok e =>
      refine congrArg Except.ok (Eq.trans ?_ (bare_set ..).symm)
      rfl

theorem perform_bare (b : Board) (id : PipelineId) (c : Call) :
    b.bare.perform id c = (b.perform id c).map bare := by
  cases c with
  | init input => exact b.init_bare id input
  | concat other => exact b.concat_bare id other
  | _ => exact b.append_bare id _ _

theorem after_bare (b : Board) (a : Act) : b.bare.after a = (b.after a).bare := by
  cases a with
  | new frame isMaster => simp [after, add, bare, Pipeline.unbound, Pipeline.bare]
  | call id c =>
    simp only [after, perform_bare]
    cases b.perform id c <;> rfl

/-! ## Learning -/

def facts? (b : Board) (id : PipelineId) : Option Facts := (b.get id).bound.bind (·.facts)

def stream (b : Board) (id : PipelineId) (f : Facts) : Stream :=
  ⟨(b.input? id).getD "", b.edits id, f.hasAudio, f.duration⟩

structure Informs (b b' : Board) : Prop where
  bare : b'.bare = b.bare
  facts : ∀ {id f}, b.facts? id = some f → b'.facts? id = some f

namespace Informs

theorem refl (b : Board) : b.Informs b := ⟨rfl, fun h => h⟩

theorem trans {a b c : Board} (h : a.Informs b) (k : b.Informs c) : a.Informs c :=
  ⟨k.bare.trans h.bare, fun hf => k.facts (h.facts hf)⟩

section
variable {b b' : Board} (h : b.Informs b') (id : PipelineId)
include h

theorem isBound : b'.isBound id = b.isBound id := by rw [← isBound_bare, h.bare, isBound_bare]

theorem isMaster : (b'.get id).isMaster = (b.get id).isMaster := by
  rw [← isMaster_bare, h.bare, isMaster_bare]

theorem frame : (b'.get id).frame = (b.get id).frame := by rw [← frame_bare, h.bare, frame_bare]

theorem input? : b'.input? id = b.input? id := by rw [← input?_bare, h.bare, input?_bare]

theorem edits : b'.edits id = b.edits id := by rw [← edits_bare, h.bare, edits_bare]

theorem flatten : b'.flatten id = b.flatten id := by rw [← flatten_bare, h.bare, flatten_bare]

theorem stream (f : Facts) : b'.stream id f = b.stream id f := by
  rw [Board.stream, h.input?, h.edits, Board.stream]

end

end Informs

theorem lt_of_isBound {b : Board} {id : PipelineId} (h : b.isBound id) :
    id < b.pipelines.length := by
  by_contra hn
  rw [isBound, get_of_le (Nat.le_of_not_lt hn)] at h
  cases h

theorem stream_of_bound {b : Board} {id : PipelineId} {s : BoundSource}
    (h : (b.get id).bound = some s) (f : Facts) :
    b.stream id f = ⟨s.input, s.edits, f.hasAudio, f.duration⟩ := by
  simp [stream, Board.input?, Board.edits, h]

theorem facts?_of_bound {b : Board} {id : PipelineId} {s : BoundSource}
    (h : (b.get id).bound = some s) : b.facts? id = s.facts := by
  simp [facts?, h]

def keep (b : Board) (id : PipelineId) (s : BoundSource) (f : Facts) : Board :=
  b.set id { b.get id with bound := some { s with facts := some f } }

theorem facts?_keep {b : Board} {id : PipelineId} {s : BoundSource}
    (h : (b.get id).bound = some s) (f : Facts) (j : PipelineId) :
    (b.keep id s f).facts? j = if id = j then some f else b.facts? j := by
  have hid : id < b.pipelines.length := lt_of_isBound (by simp [isBound, h])
  rw [facts?, keep, get_set]
  by_cases e : id = j
  · subst e
    simp [hid]
  · simp [e, facts?]

theorem bare_keep {b : Board} {id : PipelineId} {s : BoundSource}
    (h : (b.get id).bound = some s) (f : Facts) : (b.keep id s f).bare = b.bare := by
  have hid : id < b.pipelines.length := lt_of_isBound (by simp [isBound, h])
  have hget : b.get id = b.pipelines[id] := by
    rw [get, List.getD_eq_getElem?_getD, List.getElem?_eq_getElem hid, Option.getD_some]
  have same : ({ b.get id with bound := some { s with facts := some f } } : Pipeline).bare =
      b.pipelines[id].bare := by
    rw [← hget]
    simp only [Pipeline.bare, h]
    rfl
  rw [keep, bare_set, same, bare, set]
  exact congrArg Board.mk (by rw [← List.map_set, List.set_getElem_self])

end Board

/-! ## Acts in a session -/

namespace RenderAct

open ExceptT (exec_bind exec_get exec_set)

variable {σ α : Type} (s : Session σ)

@[simp] theorem exec_note (e : Event) :
    (note e).exec s = (.ok (), { s with world := s.world.note e }) := rfl

@[simp] theorem exec_lift (r : Except RenderError α) : (lift r).exec s = (r, s) := by
  cases r <;> rfl

@[simp] theorem exec_ask (f : σ → Disk → Except RenderError α × σ) :
    (ask f).exec s = ((f s.world.own s.world.disk).1,
      { s with world := { s.world with own := (f s.world.own s.world.disk).2 } }) := by
  simp only [ask, exec_bind, exec_get, exec_set, exec_lift]

end RenderAct

/-! ## Probing -/

def Probe.Shows {σ : Type} (p : Probe σ) (path : String) (f : Facts) : Prop :=
  (∃ own disk, (p.duration path own disk).1 = .ok f.duration) ∧
    ∃ own disk, (p.hasAudio path own disk).1 = .ok f.hasAudio

def Probe.ShowsOn {σ : Type} (p : Probe σ) (disk : Disk) (path : String) (f : Facts) : Prop :=
  ∃ own, (p.duration path own disk).1 = .ok f.duration ∧
    (p.hasAudio path (p.duration path own disk).2 disk).1 = .ok f.hasAudio

theorem Probe.ShowsOn.shows {σ : Type} {p : Probe σ} {disk : Disk} {path : String} {f : Facts}
    (h : p.ShowsOn disk path f) : p.Shows path f := by
  obtain ⟨own, length, sound⟩ := h
  exact ⟨⟨own, disk, length⟩, _, disk, sound⟩

def Probe.Refuses {σ : Type} (p : Probe σ) (path : String) (e : RenderError) : Prop :=
  ∃ own disk, (p.duration path own disk).1 = .error e ∨ (p.hasAudio path own disk).1 = .error e

namespace Board

/-- Between two boards something may have been found out about sources, as `S` allows. -/
structure Gains (S : String → Facts → Prop) (b b' : Board) : Prop where
  informs : b.Informs b'
  shown : ∀ {id f}, b'.facts? id = some f →
    b.facts? id = some f ∨ ∃ path, b.input? id = some path ∧ S path f

namespace Gains

variable {S S' : String → Facts → Prop} {a b c : Board}

theorem refl (b : Board) : b.Gains S b := ⟨.refl b, .inl⟩

theorem trans (h : a.Gains S b) (k : b.Gains S c) : a.Gains S c where
  informs := h.informs.trans k.informs
  shown := by
    intro id f hf
    rcases k.shown hf with hf | ⟨path, hp, hf⟩
    · exact h.shown hf
    · exact .inr ⟨path, by rwa [← h.informs.input?], hf⟩

theorem mono (h : a.Gains S b) (weaker : ∀ path f, S path f → S' path f) : a.Gains S' b where
  informs := h.informs
  shown := by
    intro id f hf
    rcases h.shown hf with known | ⟨path, input, shown⟩
    · exact .inl known
    · exact .inr ⟨path, input, weaker path f shown⟩

theorem keep {s : BoundSource} {id : PipelineId} {f : Facts} (hs : (b.get id).bound = some s)
    (new : s.facts = none) (shows : S s.input f) : b.Gains S (b.keep id s f) where
  informs := by
    refine ⟨Board.bare_keep hs f, fun {j g} hj => ?_⟩
    have ne : id ≠ j := by
      rintro rfl
      rw [Board.facts?_of_bound hs, new] at hj
      cases hj
    rw [Board.facts?_keep hs, if_neg ne, hj]
  shown := by
    intro j g hj
    rw [Board.facts?_keep hs] at hj
    split at hj
    · rename_i same
      obtain rfl := Option.some.inj hj
      exact .inr ⟨s.input, by simp [← same, Board.input?, hs], shows⟩
    · exact .inl hj

end Gains

end Board

def Session.asked {σ : Type} (s : Session σ) (path : String) (own : σ) : Session σ :=
  { s with world := { s.world.note (.probed path) with own } }

namespace Engine

open ExceptT (exec_bind exec_get exec_modify exec_pure)

variable {σ : Type} (e : Engine σ)

abbrev Learns (b b' : Board) : Prop := b.Gains e.probe.Shows b'

/-- Between two sessions files were probed and what was found is kept, and nothing else happened. -/
structure Looks (s t : Session σ) : Prop where
  sees : s.board.Gains (e.probe.ShowsOn s.world.disk) t.board
  disk : t.world.disk = s.world.disk
  clock : t.world.clock = s.world.clock
  mailbox : t.mailbox = s.mailbox
  journal : ∃ paths : List String, t.world.journal = s.world.journal ++ paths.map .probed

namespace Looks

variable {e} {s t u : Session σ}

theorem board (h : e.Looks s t) : e.Learns s.board t.board :=
  h.sees.mono fun _ _ shows => shows.shows

theorem refl (s : Session σ) : e.Looks s s :=
  ⟨.refl _, rfl, rfl, rfl, [], by simp⟩

theorem trans (h : e.Looks s t) (k : e.Looks t u) : e.Looks s u where
  sees := by
    have later := k.sees
    rw [h.disk] at later
    exact h.sees.trans later
  disk := k.disk.trans h.disk
  clock := k.clock.trans h.clock
  mailbox := k.mailbox.trans h.mailbox
  journal := by
    obtain ⟨ps, hps⟩ := h.journal
    obtain ⟨qs, hqs⟩ := k.journal
    exact ⟨ps ++ qs, by rw [hqs, hps, List.map_append, List.append_assoc]⟩

theorem asked (s : Session σ) (path : String) (own : σ) : e.Looks s (s.asked path own) :=
  ⟨.refl _, rfl, rfl, rfl, [path], rfl⟩

theorem keep {b : BoundSource} {id : PipelineId} {f : Facts}
    (hb : (s.board.get id).bound = some b) (new : b.facts = none)
    (shows : e.probe.ShowsOn s.world.disk b.input f) :
    e.Looks s { s with board := s.board.keep id b f } :=
  ⟨.keep hb new shows, rfl, rfl, rfl, [], by simp⟩

end Looks

theorem exec_factsOf (id : PipelineId) {b : BoundSource} (h : b.facts = none) (s : Session σ) :
    (e.factsOf id b).exec s =
      match e.probe.duration b.input s.world.own s.world.disk with
      | (.error err, own) => (.error err, s.asked b.input own)
      | (.ok duration, own) =>
        match e.probe.hasAudio b.input own s.world.disk with
        | (.error err, own') => (.error err, (s.asked b.input own).asked b.input own')
        | (.ok hasAudio, own') =>
          let t := (s.asked b.input own).asked b.input own'
          (.ok ⟨duration, hasAudio⟩, { t with board := t.board.keep id b ⟨duration, hasAudio⟩ }) := by
  simp only [factsOf, h, exec_bind, RenderAct.exec_note, RenderAct.exec_ask,
    exec_modify, exec_pure]
  rw [show (s.world.note (.probed b.input)).own = s.world.own from rfl,
    show (s.world.note (.probed b.input)).disk = s.world.disk from rfl]
  rcases e.probe.duration b.input s.world.own s.world.disk with ⟨_ | duration, own⟩
  · rfl
  · dsimp only [World.note, Session.asked]
    rcases e.probe.hasAudio b.input own s.world.disk with ⟨_ | hasAudio, own'⟩ <;> rfl

theorem exec_streamOf_of_facts {s : Session σ} {id : PipelineId} {f : Facts}
    (h : s.board.facts? id = some f) :
    (e.streamOf id).exec s = (.ok (s.board.stream id f), s) := by
  obtain ⟨b, hb, hf⟩ := Option.bind_eq_some_iff.mp h
  simp only [streamOf, exec_bind, exec_get, hb, factsOf, hf,
    exec_pure, Board.stream_of_bound hb]

/-- **One stream.** Its source is as the probe shows it now, or as it did before. -/
theorem streamOf_spec {s t : Session σ} {id : PipelineId} {r : Except RenderError Stream}
    (bound : s.board.isBound id) (h : (e.streamOf id).exec s = (r, t)) :
    e.Looks s t ∧
      ((∃ f, r = .ok (s.board.stream id f) ∧ t.board.facts? id = some f) ∨
        ∃ path err, r = .error err ∧ s.board.input? id = some path ∧ e.probe.Refuses path err) := by
  cases known : s.board.facts? id with
  | some f =>
    rw [e.exec_streamOf_of_facts known] at h
    obtain ⟨rfl, rfl⟩ := Prod.mk.inj h
    exact ⟨.refl _, .inl ⟨f, rfl, known⟩⟩
  | none =>
    obtain ⟨b, hb⟩ := Option.isSome_iff_exists.mp bound
    have new : b.facts = none := (Board.facts?_of_bound hb).symm.trans known
    have input : s.board.input? id = some b.input := by simp [Board.input?, hb]
    simp only [streamOf, exec_bind, exec_get, hb, e.exec_factsOf id new] at h
    rcases hd : e.probe.duration b.input s.world.own s.world.disk with ⟨err | d, own⟩
    · rw [hd] at h
      obtain ⟨rfl, rfl⟩ := Prod.mk.inj h
      exact ⟨.asked .., .inr ⟨_, _, rfl, input, _, _, .inl (congrArg Prod.fst hd)⟩⟩
    · rcases ha : e.probe.hasAudio b.input own s.world.disk with ⟨err | a, own'⟩
      · simp only [hd, ha] at h
        obtain ⟨rfl, rfl⟩ := Prod.mk.inj h
        exact ⟨(Looks.asked ..).trans (.asked ..),
          .inr ⟨_, _, rfl, input, _, _, .inr (congrArg Prod.fst ha)⟩⟩
      · simp only [hd, ha, exec_pure] at h
        obtain ⟨rfl, rfl⟩ := Prod.mk.inj h
        have shows : e.probe.ShowsOn s.world.disk b.input ⟨d, a⟩ := by
          refine ⟨s.world.own, congrArg Prod.fst hd, ?_⟩
          rw [hd]
          exact congrArg Prod.fst ha
        refine ⟨((Looks.asked ..).trans (.asked ..)).trans (.keep hb new shows), .inl ⟨⟨d, a⟩, ?_, ?_⟩⟩
        · rw [Board.stream_of_bound hb]
        · exact (Board.facts?_keep hb ⟨d, a⟩ id).trans (if_pos rfl)

theorem exec_streams_of_facts {s : Session σ} {found : PipelineId → Facts} :
    ∀ {ids : List PipelineId}, (∀ id ∈ ids, s.board.facts? id = some (found id)) →
      (ids.mapM e.streamOf).exec s = (.ok (ids.map fun id => s.board.stream id (found id)), s)
  | [], _ => rfl
  | id :: ids, h => by
    have first := e.exec_streamOf_of_facts (h id List.mem_cons_self)
    have rest := exec_streams_of_facts fun j hj => h j (List.mem_cons_of_mem _ hj)
    rw [List.mapM_cons, exec_bind, first]
    dsimp only
    rw [exec_bind, rest]
    rfl

/-- **Several streams.** What is found about the first ones is kept for the others. -/
theorem streams_spec {ids : List PipelineId} {s t : Session σ}
    {r : Except RenderError (List Stream)} (bound : ∀ id ∈ ids, s.board.isBound id)
    (h : (ids.mapM e.streamOf).exec s = (r, t)) :
    e.Looks s t ∧
      ((∃ found : PipelineId → Facts, r = .ok (ids.map fun id => s.board.stream id (found id)) ∧
          ∀ id ∈ ids, t.board.facts? id = some (found id)) ∨
        ∃ id ∈ ids, ∃ path err, r = .error err ∧ s.board.input? id = some path ∧
          e.probe.Refuses path err) := by
  induction ids generalizing s t r with
  | nil =>
    obtain ⟨rfl, rfl⟩ := Prod.mk.inj h
    exact ⟨.refl _, .inl ⟨fun _ => ⟨.zero, false⟩, rfl, by simp⟩⟩
  | cons id ids ih =>
    rw [List.mapM_cons, exec_bind] at h
    rcases hx : (e.streamOf id).exec s with ⟨x, u⟩
    obtain ⟨first, ⟨f, rfl, hf⟩ | ⟨path, err, rfl, input, refused⟩⟩ :=
      e.streamOf_spec (bound id List.mem_cons_self) hx
    · rw [hx] at h
      dsimp only at h
      rw [exec_bind] at h
      rcases hy : (ids.mapM e.streamOf).exec u with ⟨y, v⟩
      have bound' : ∀ j ∈ ids, u.board.isBound j := fun j hj => by
        rw [first.board.informs.isBound]
        exact bound j (List.mem_cons_of_mem _ hj)
      obtain ⟨rest, ⟨found, rfl, hfound⟩ | ⟨j, hj, path, err, rfl, input, refused⟩⟩ := ih bound' hy
      · rw [hy] at h
        obtain ⟨rfl, rfl⟩ := Prod.mk.inj h
        -- a source that comes again is known by then
        have same : ∀ j ∈ ids, j = id → found j = f := by
          rintro j hj rfl
          exact Option.some.inj ((hfound j hj).symm.trans (rest.board.informs.facts hf))
        refine ⟨first.trans rest, .inl ⟨fun j => if j = id then f else found j, ?_, ?_⟩⟩
        · simp only [List.map_cons, if_pos]
          refine congrArg (fun l => Except.ok (s.board.stream id f :: l)) ?_
          refine List.map_congr_left fun j hj => ?_
          rw [first.board.informs.stream]
          split
          · rw [same j hj ‹_›]
          · rfl
        · intro j hj
          dsimp only
          rcases List.mem_cons.mp hj with rfl | hj
          · rw [if_pos rfl]
            exact rest.board.informs.facts hf
          · split
            · rw [hfound j hj, same j hj ‹_›]
            · exact hfound j hj
      · rw [hy] at h
        obtain ⟨rfl, rfl⟩ := Prod.mk.inj h
        rw [first.board.informs.input?] at input
        exact ⟨first.trans rest, .inr ⟨j, List.mem_cons_of_mem _ hj, path, err, rfl, input, refused⟩⟩
    · rw [hx] at h
      obtain ⟨rfl, rfl⟩ := Prod.mk.inj h
      exact ⟨first, .inr ⟨id, List.mem_cons_self, path, err, rfl, input, refused⟩⟩

theorem exec_complexFilters (id : PipelineId) (s : Session σ) :
    (e.complexFilters id).exec s =
      if s.board.isBound id then
        match s.board.flatten id with
        | .error err => (.error err, s)
        | .ok ids =>
          match (ids.mapM e.streamOf).exec s with
          | (.error err, t) => (.error err, t)
          | (.ok streams, t) => (Graph.compile streams (s.board.get id).frame, t)
      else (.error (.beforeInit "complex_filters"), s) := by
  simp only [complexFilters, exec_bind, exec_get]
  cases s.board.isBound id with
  | false => rfl
  | true =>
    simp only [Bool.not_true, Bool.false_eq_true, if_false, if_true, exec_bind,
      RenderAct.exec_lift]
    cases s.board.flatten id with
    | error err => rfl
    | ok ids =>
      dsimp only
      rcases (ids.mapM e.streamOf).exec s with ⟨_ | _, t⟩ <;> rfl

end Engine

end Montage
