import Montage.Proofs.Graph.Layout
import Montage.Proofs.Pipeline.Sessions

/-!
# Streams of a pipeline

A pipeline puts its own source first and then whatever is attached, each as it is
when the pipeline is compiled. So it plays no part when something was called on
what is attached, before it was attached or after.
-/

namespace Montage

namespace Board

/-- What an attachment of a pipeline puts in its place, when `below` lists what is attached. -/
def part (id : PipelineId) (below : PipelineId → List PipelineId) : Attachment → List PipelineId
  | .itself => [id]
  | .other o => below o

/-- The pipelines that a pipeline puts one after the other: itself, then for each attachment
itself again or all that the attached one puts one after the other. -/
def Tidy.order {b : Board} (h : b.Tidy) (id : PipelineId) : List PipelineId :=
  id :: (b.get id).attachments.attach.flatMap fun
    | ⟨.itself, _⟩ => [id]
    | ⟨.other o, _⟩ => h.order o
termination_by h.linked.ends.wrap id

theorem Tidy.order_eq {b : Board} (h : b.Tidy) (id : PipelineId) :
    h.order id = id :: (b.get id).attachments.flatMap (part id h.order) := by
  rw [order]
  refine congrArg (id :: ·) ?_
  refine (@List.flatMap_subtype _ _ _ _ _ (part id h.order) fun a _ => ?_).trans ?_
  · cases a <;> rfl
  · rw [List.unattach_attach]

theorem mapM_ok {α β ε : Type} {f : α → Except ε β} {g : α → β} {l : List α}
    (h : ∀ a ∈ l, f a = .ok (g a)) : l.mapM f = .ok (l.map g) := by
  induction l with
  | nil => rfl
  | cons a l ih =>
    rw [List.mapM_cons, h a List.mem_cons_self, ih fun c hc => h c (List.mem_cons_of_mem _ hc)]
    rfl

theorem Tidy.flatten_eq {b : Board} (h : b.Tidy) {id : PipelineId} (bound : b.isBound id) :
    b.flatten id = .ok (h.order id) := by
  induction id using h.linked.ends.induction with
  | _ id ih =>
    have parts : ∀ a ∈ (b.get id).attachments,
        streamsOf id b.flatten a = .ok (part id h.order a) := by
      intro a ha
      cases a with
      | itself => rfl
      | other o => exact ih o ha (h.bound id o ha)
    rw [h.flatten_step, if_pos bound, mapM_ok parts, h.order_eq, List.flatMap_def]
    rfl

/-- A master with itself, a member and another master attached, which has the same member. -/
example :
    let b := afterAll [.new ⟨2, 2⟩ true, .new ⟨4, 4⟩ true, .new ⟨2, 2⟩ false, .call 0 (.init "a"),
      .call 1 (.init "b"), .call 2 (.init "c"), .call 0 (.concat 0), .call 0 (.concat 1),
      .call 1 (.concat 2), .call 0 (.concat 2)]
    b.flatten 0 = .ok [0, 0, 1, 2, 2] := by
  cbv

theorem part_attachment (id o : PipelineId) (below : PipelineId → List PipelineId) :
    part id below (attachment id o) = if o = id then [id] else below o := by
  rw [attachment]
  split <;> rfl

theorem Tidy.order_of_flat {b : Board} (h : b.Tidy) {id : PipelineId} {os : List PipelineId}
    (attached : (b.get id).attachments = os.map (attachment id))
    (flat : ∀ o ∈ os, o = id ∨ (b.get o).attachments = []) : h.order id = id :: os := by
  have parts : ∀ o ∈ os, part id h.order (attachment id o) = [o] := by
    intro o ho
    rw [part_attachment]
    rcases flat o ho with rfl | none
    · rw [if_pos rfl]
    · by_cases same : o = id
      · rw [if_pos same, same]
      · rw [if_neg same, h.order_eq, none]
        rfl
  rw [h.order_eq, attached, List.flatMap_map, List.flatMap_congr parts]
  exact congrArg (id :: ·) (List.flatMap_singleton' os)

/-! ## Streams under answers -/

section
variable (answer : String → Except RenderError MediaInfo)

def streamTold (b : Board) (id : PipelineId) : Except RenderError Stream :=
  match b.input? id with
  | none => .error (.invalidState "pipeline was never initialised")
  | some path => (Facts.told answer path).map (b.stream id)

def graphTold (b : Board) (id : PipelineId) : Except RenderError Graph :=
  if b.isBound id then do
    let ids ← b.flatten id
    let streams ← ids.mapM (b.streamTold answer)
    Graph.compile streams (b.get id).frame
  else .error (.beforeInit "complex_filters")

theorem Informs.streamTold {b b' : Board} (h : b.Informs b') :
    b'.streamTold answer = b.streamTold answer := by
  funext id
  rw [Board.streamTold, Board.streamTold, h.input?]
  cases b.input? id with
  | none => rfl
  | some path => exact congrArg (Except.map · _) (funext (h.stream id))

theorem graphTold_bare (b : Board) (id : PipelineId) :
    b.bare.graphTold answer id = b.graphTold answer id := by
  have streams : b.bare.streamTold answer = b.streamTold answer := by
    funext j
    rw [streamTold, streamTold, input?_bare]
    cases b.input? j with
    | none => rfl
    | some path =>
      refine congrArg (Except.map · _) (funext fun f => ?_)
      rw [stream, stream, input?_bare, edits_bare]
  rw [graphTold, graphTold, isBound_bare, flatten_bare, frame_bare, streams]

end

end Board

namespace Engine

variable {σ : Type} {e : Engine σ} {answer : String → Except RenderError MediaInfo}

theorem streamOf_fixed (fixed : e.probe.Fixed answer) {s : Session σ} (told : s.board.Told answer)
    {id : PipelineId} (bound : s.board.isBound id) :
    ((e.streamOf id).exec s).1 = s.board.streamTold answer id := by
  obtain ⟨path, hp⟩ : ∃ path, s.board.input? id = some path := by
    obtain ⟨b, hb⟩ := Option.isSome_iff_exists.mp bound
    exact ⟨b.input, by simp [Board.input?, hb]⟩
  rcases hx : (e.streamOf id).exec s with ⟨r, t⟩
  obtain ⟨looks, ⟨f, rfl, hf⟩ | ⟨path', err, rfl, hp', refused⟩⟩ := e.streamOf_spec bound hx
  · have known := (looks.board.told fixed told) id f path hf
      (by rw [looks.board.informs.input?, hp])
    rw [Board.streamTold, hp]
    dsimp only
    rw [known]
    rfl
  · obtain rfl := Option.some.inj (hp.symm.trans hp')
    rw [Board.streamTold, hp]
    dsimp only
    rw [fixed.told_of_refuses refused]
    rfl

theorem streams_fixed (fixed : e.probe.Fixed answer) {ids : List PipelineId} {s : Session σ}
    (told : s.board.Told answer) (bound : ∀ id ∈ ids, s.board.isBound id) :
    ((ids.mapM e.streamOf).exec s).1 = ids.mapM (s.board.streamTold answer) := by
  induction ids generalizing s with
  | nil => rfl
  | cons id ids ih =>
    have first := streamOf_fixed fixed told (bound id List.mem_cons_self)
    rw [List.mapM_cons, List.mapM_cons, ExceptT.exec_bind, ← first]
    rcases hx : (e.streamOf id).exec s with ⟨err | a, t⟩
    · rfl
    · have learns := (e.streamOf_spec (bound id List.mem_cons_self) hx).1.board
      have rest := ih (learns.told fixed told) fun j hj => by
        rw [learns.informs.isBound]
        exact bound j (List.mem_cons_of_mem _ hj)
      rw [learns.informs.streamTold] at rest
      dsimp only
      rw [ExceptT.exec_bind, ← rest]
      rcases (ids.mapM e.streamOf).exec t with ⟨err | as, u⟩ <;> rfl

theorem complexFilters_fixed (fixed : e.probe.Fixed answer) {s : Session σ}
    (told : s.board.Told answer) (id : PipelineId) :
    ((e.complexFilters id).exec s).1 = s.board.bare.graphTold answer id := by
  rw [Board.graphTold_bare, exec_complexFilters, Board.graphTold]
  split
  · cases hf : s.board.flatten id with
    | error err => rfl
    | ok ids =>
      change _ = ids.mapM (s.board.streamTold answer) >>= fun streams =>
        Graph.compile streams (s.board.get id).frame
      rw [← streams_fixed fixed told (Board.isBound_of_mem_flatten hf)]
      dsimp only
      rcases (ids.mapM e.streamOf).exec s with ⟨err | streams, t⟩ <;> rfl
  · rfl

end Engine

theorem Graph.streams_eq_of_ok {p : Precision} {streams : List Stream} {frame : Geometry}
    {g : Graph} (h : compileIn p streams frame = .ok g) : g.streams = streams.length := by
  obtain ⟨-, rfl⟩ := eq_ofCompiled_of_ok h
  have count : ∀ cs : List CompiledStream, (ofCompiled p cs).streams = cs.length := by
    intro cs
    unfold ofCompiled
    split <;> rfl
  rw [count, length_layOut]

namespace Engine

variable {σ : Type}

/-! ## What compiling comes to -/

structure Lists (e : Engine σ) (s : Session σ) (id : PipelineId) (ids : List PipelineId) :
    Prop where
  exec : (e.complexFilters id).exec s =
    match (ids.mapM e.streamOf).exec s with
    | (.error err, t) => (.error err, t)
    | (.ok streams, t) => (Graph.compile streams (s.board.get id).frame, t)
  /-- Each stream has the source and the edits that its pipeline has now, and facts that were known
  before or that the probe gave. -/
  streams : ∀ streams t, (ids.mapM e.streamOf).exec s = (.ok streams, t) →
    ∃ found : PipelineId → Facts, streams = ids.map (fun j => s.board.stream j (found j)) ∧
      ∀ j ∈ ids, s.board.facts? j = some (found j) ∨
        ∃ path, s.board.input? j = some path ∧ e.probe.Shows path (found j)
  refused : ∀ err t, (ids.mapM e.streamOf).exec s = (.error err, t) →
    ∃ j ∈ ids, ∃ path, s.board.input? j = some path ∧ e.probe.Refuses path err

theorem lists_order (e : Engine σ) {s : Session σ} (tidy : s.board.Tidy) {id : PipelineId}
    (bound : s.board.isBound id) : e.Lists s id (tidy.order id) := by
  have layout := tidy.flatten_eq bound
  have all := Board.isBound_of_mem_flatten layout
  refine ⟨?_, fun streams t h => ?_, fun err t h => ?_⟩
  · have unfolded := (e.exec_complexFilters id s).trans (if_pos bound)
    rw [layout] at unfolded
    exact unfolded
  · obtain ⟨looks, ⟨found, hr, known⟩ | ⟨_, _, _, _, hr, -⟩⟩ := e.streams_spec all h
    · exact ⟨found, Except.ok.inj hr, fun j hj => looks.board.shown (known j hj)⟩
    · cases hr
  · obtain ⟨-, ⟨_, hr, -⟩ | ⟨j, hj, path, err', hr, input, refused⟩⟩ := e.streams_spec all h
    · cases hr
    · obtain rfl := Except.error.inj hr
      exact ⟨j, hj, path, input, refused⟩

theorem streams_of_ok {e : Engine σ} {s t : Session σ} {id : PipelineId} {ids : List PipelineId}
    {g : Graph} (lists : e.Lists s id ids) (h : (e.complexFilters id).exec s = (.ok g, t)) :
    g.streams = ids.length := by
  rw [lists.exec] at h
  rcases hs : (ids.mapM e.streamOf).exec s with ⟨err | streams, u⟩
  · rw [hs] at h
    cases h
  · rw [hs] at h
    obtain ⟨found, rfl, -⟩ := lists.streams streams u hs
    rw [Graph.streams_eq_of_ok (Prod.mk.inj h).1, List.length_map]

structure Flattening (e : Engine σ) : Prop where
  lists : ∀ (w : World σ) (deeds : List (Deed σ)) (id : PipelineId),
    (e.afterAll w deeds).board.isBound id →
      e.Lists (e.afterAll w deeds) id ((e.tidy_afterAll w deeds).order id)
  /-- If the probe answers the same each time and no call is refused, then how calls on different
  pipelines follow one another plays no part, and neither does what else happens between them. -/
  interleaved : ∀ answer, e.probe.Fixed answer → ∀ (w w' : World σ) (deeds deeds' : List (Deed σ))
    (b b' : Board), Board.Succeeds {} (Deed.acts deeds) b → Board.Succeeds {} (Deed.acts deeds') b' →
      Board.made (Deed.acts deeds) = Board.made (Deed.acts deeds') →
      (∀ id, Board.callsOn id (Deed.acts deeds) = Board.callsOn id (Deed.acts deeds')) →
      ∀ id, ((e.complexFilters id).exec (e.afterAll w deeds)).1 =
        ((e.complexFilters id).exec (e.afterAll w' deeds')).1
  concats : ∀ (w : World σ) (deeds : List (Deed σ)) (b : Board), Board.Succeeds {} (Deed.acts deeds) b →
    ∀ id, (∀ o ∈ Board.attachedTo id (Deed.acts deeds),
        o = id ∨ Board.attachedTo o (Deed.acts deeds) = []) →
      (e.tidy_afterAll w deeds).order id = id :: Board.attachedTo id (Deed.acts deeds) ∧
      ∀ g t, (e.complexFilters id).exec (e.afterAll w deeds) = (.ok g, t) →
        g.streams = (Board.attachedTo id (Deed.acts deeds)).length + 1

/-- **Streams of a pipeline**, with whatever probe and in whatever order things happen. -/
theorem flattening (e : Engine σ) : e.Flattening := by
  refine ⟨fun w deeds id bound => e.lists_order (e.tidy_afterAll w deeds) bound, ?_, ?_⟩
  · intro answer fixed w w' deeds deeds' b b' h h' same calls id
    have board : Board.afterAll (Deed.acts deeds) = Board.afterAll (Deed.acts deeds') := by
      rw [Board.afterAll, h.afterAll, Board.afterAll, h'.afterAll]
      exact h.unique h' same calls
    rw [complexFilters_fixed fixed (told_afterAll fixed w deeds),
      complexFilters_fixed fixed (told_afterAll fixed w' deeds'), e.bare_afterAll, e.bare_afterAll,
      board]
  · intro w deeds b h id flat
    have attached : ∀ o, ((e.afterAll w deeds).board.get o).attachments =
        (Board.attachedTo o (Deed.acts deeds)).map (Board.attachment o) := by
      intro o
      rw [← Board.attachments_bare, e.bare_afterAll, Board.afterAll, h.afterAll, h.attachments]
    have order : (e.tidy_afterAll w deeds).order id = id :: Board.attachedTo id (Deed.acts deeds) := by
      refine Board.Tidy.order_of_flat _ (attached id) fun o ho => ?_
      rcases flat o ho with same | none
      · exact .inl same
      · exact .inr (by rw [attached, none, List.map_nil])
    refine ⟨order, fun g t hg => ?_⟩
    have bound := (complexFilters_ok.mp hg).1
    rw [streams_of_ok (e.lists_order (e.tidy_afterAll w deeds) bound) hg, order, List.length_cons]

end Engine

end Montage
