import Montage.Proofs.Compose.Rendering

/-!
# What a run will do

When a pipeline has been compiled, everything about its sources is known, and stays
known. Until something is called on a pipeline, compiling gives the same graph again, and a
run renders just this graph, without looking at a source.
-/

namespace Montage

structure Board.Settled (b : Board) (id : PipelineId) (g : Graph) : Prop where
  bound : b.isBound id
  streams : ∃ ids, ∃ found : PipelineId → Facts, b.flatten id = .ok ids ∧
    (∀ j ∈ ids, b.facts? j = some (found j)) ∧
    Graph.compile (ids.map fun j => b.stream j (found j)) (b.get id).frame = .ok g

theorem Board.Settled.informs {b b' : Board} {id : PipelineId} {g : Graph} (h : b.Settled id g)
    (k : b.Informs b') : b'.Settled id g := by
  obtain ⟨ids, found, hf, known, hg⟩ := h.streams
  have streams : (ids.map fun j => b'.stream j (found j)) = ids.map fun j => b.stream j (found j) :=
    List.map_congr_left fun j _ => k.stream j (found j)
  refine ⟨by rw [k.isBound, h.bound], ids, found, by rw [k.flatten, hf], fun j hj => ?_, ?_⟩
  · exact k.facts (known j hj)
  · rw [streams, k.frame, hg]

def Disk.prepared (d : Disk) (output : String) : Except DiskError Unit × Disk :=
  if Path.parent output = "" then (.ok (), d) else d.createDirectories (Path.parent output)

namespace Engine

variable {σ : Type} {e : Engine σ} {id : PipelineId} {output : String} {s t : Session σ} {g : Graph}

theorem settled_of_ok (h : (e.complexFilters id).exec s = (.ok g, t)) : t.board.Settled id g := by
  obtain ⟨bound, ids, streams, hf, hs, hg⟩ := complexFilters_ok.mp h
  obtain ⟨looks, ⟨found, hr, known⟩ | ⟨_, _, _, _, hr, -⟩⟩ :=
    e.streams_spec (Board.isBound_of_mem_flatten hf) hs
  · have k := looks.board.informs
    obtain rfl := Except.ok.inj hr
    have same : (ids.map fun j => t.board.stream j (found j)) =
        ids.map fun j => s.board.stream j (found j) :=
      List.map_congr_left fun j _ => k.stream j (found j)
    exact ⟨by rw [k.isBound, bound], ids, found, by rw [k.flatten, hf], known,
      by rw [same, k.frame, hg]⟩
  · cases hr

theorem exec_complexFilters_of_settled (h : s.board.Settled id g) :
    (e.complexFilters id).exec s = (.ok g, s) := by
  obtain ⟨ids, found, hf, known, hg⟩ := h.streams
  exact complexFilters_ok.mpr ⟨h.bound, ids, _, hf, e.exec_streams_of_facts known, hg⟩

theorem exec_ready_of_filters (h : (e.complexFilters id).exec s = (.ok g, t)) :
    (e.ready id output).exec s =
      ((t.world.disk.prepared output).1.mapError .io |>.map fun _ => g,
        { t with world :=
          { t.world.note (.submitted g.streams) with disk := (t.world.disk.prepared output).2 } }) := by
  rw [exec_ready_of_ok h, Disk.prepared]
  by_cases here : Path.parent output = ""
  · simp only [if_pos here]
    rfl
  · simp only [if_neg here]

theorem settled_of_ready (h : (e.ready id output).exec s = (.ok g, t)) : t.board.Settled id g := by
  rcases hc : (e.complexFilters id).exec s with ⟨err | g', u⟩
  · rw [ready, ExceptT.exec_bind, hc] at h
    cases h
  · have settled := settled_of_ok hc
    rw [exec_ready_of_filters hc] at h
    cases hm : (u.world.disk.prepared output).1 with
    | error err =>
      rw [hm] at h
      cases h
    | ok =>
      rw [hm] at h
      cases h
      exact settled

variable (e output g)

/-- What a run comes to whose graph `g` is known. -/
structure Foretold (s t : Session σ) : Prop where
  calls : ∃ evs, t.world.journal = s.world.journal ++ evs ∧ (∀ path, .probed path ∉ evs) ∧
    evs.filter Event.isTranscoding =
      if (s.world.disk.prepared output).1.isOk then [.transcoded (g.arguments output e.settings)]
      else []
  own : t.world.own =
    if (s.world.disk.prepared output).1.isOk then
      (e.transcoder.run (g.arguments output e.settings)
        (s.mailbox.map fun m => ⟨some g.duration, m⟩) s.world.own
        (s.world.disk.prepared output).2).own
    else s.world.own

variable {e output g}

theorem own_endedAt (start : Nat) (r : Except RenderError RenderResult) (s : Session σ) :
    (endedAt output start r s).world.own = s.world.own := by
  simp only [endedAt]
  split <;> rfl

/-- **A run that is foretold.** -/
theorem run_of_settled (master : (s.board.get id).isMaster) (h : s.board.Settled id g) :
    Foretold e output g s ((e.run id output).exec s).2 := by
  have hr := @exec_ready_of_filters _ _ _ output _ _ _ (exec_complexFilters_of_settled (e := e) h)
  cases hm : (s.world.disk.prepared output).1 with
  | error err =>
    rw [hm] at hr
    rw [exec_run_unready master h.bound hr]
    refine ⟨⟨_, (journal_endedAt ..).trans (List.append_assoc ..), ?_, ?_⟩, ?_⟩
    · simp
    · rw [hm]
      rfl
    · simp [hm, Except.isOk, Except.toBool, own_endedAt, World.note]
  | ok =>
    rw [hm] at hr
    rw [exec_run_ready master h.bound hr]
    refine ⟨⟨_, (journal_called ..).trans (List.append_assoc ..), ?_, ?_⟩, ?_⟩
    · simp
    · rw [hm]
      rfl
    · simp [hm, Except.isOk, Except.toBool, own_endedAt, afterRan, ranOn, World.note]

theorem foldl_after_learns {deeds : List (Deed σ)} (h : ∀ d ∈ deeds, d.act? = none) (s : Session σ) :
    e.Learns s.board (deeds.foldl e.after s).board := by
  induction deeds generalizing s with
  | nil => exact .refl _
  | cons d deeds ih =>
    have first := e.after_learns (h d List.mem_cons_self) s
    exact first.trans (ih (fun d' hd => h d' (List.mem_cons_of_mem _ hd)) _)

/-! ## Many runs -/

variable (e output) in
def RendersOnly (g : Graph) (ev : Event) : Prop :=
  ∀ arguments, ev = .transcoded arguments → arguments = g.arguments output e.settings

theorem RendersOnly.of_other {ev : Event} (h : ¬ ev.isTranscoding) : RendersOnly e output g ev := by
  rintro arguments rfl
  exact absurd rfl h

theorem run_notes_of_settled {r : Except RenderError RenderResult} (h : s.board.Settled id g)
    (hx : (e.run id output).exec s = (r, t)) :
    s.world.Notes (RendersOnly e output g) t.world := by
  obtain rfl : ((e.run id output).exec s).2 = t := congrArg Prod.snd hx
  by_cases master : (s.board.get id).isMaster
  · have foretold : Foretold e output g s ((e.run id output).exec s).2 := run_of_settled master h
    obtain ⟨evs, journal, -, calls⟩ := foretold.calls
    refine ⟨evs, journal, ?_⟩
    rintro _ hev arguments rfl
    have mem : Event.transcoded arguments ∈ evs.filter Event.isTranscoding :=
      List.mem_filter.mpr ⟨hev, rfl⟩
    rw [calls] at mem
    split at mem
    · exact Event.transcoded.inj (List.mem_singleton.mp mem)
    · cases mem
  · obtain ⟨reason, hr⟩ := e.exec_run_of_refused id output fun may => master may.1
    rw [hr]
    exact .refl _

/-- Before the transcoder is called for the first time, everything has become known. -/
theorem run_notes {r : Except RenderError RenderResult} (hx : (e.run id output).exec s = (r, t)) :
    s.world.Notes (fun ev => ¬ ev.isTranscoding) t.world ∨
      ∃ g, t.board.Settled id g ∧ s.world.Notes (RendersOnly e output g) t.world := by
  have goes := e.run_goes id output s
  rw [hx] at goes
  have quiet : ∀ {r : Except RenderError Graph} {u : Session σ}, (e.ready id output).exec s = (r, u) →
      s.world.Notes (fun ev => ¬ ev.isTranscoding) u.world := by
    intro r u hr
    have prepared : s.world.Notes (·.isPreparation) u.world := (ready_prepares hr).journal
    apply prepared.mono
    intro ev prep
    cases ev <;> simp_all [Event.isPreparation, Event.isTranscoding]
  cases goes with
  | refused no reason => exact .inl (.refl _)
  | unready _ _ hr =>
    exact .inl ((quiet hr).trans ⟨_, journal_endedAt .., by simp [Event.isTranscoding]⟩)
  | @called u g _ _ hr =>
    have settled := settled_of_ready hr
    refine .inr ⟨g, settled, ?_⟩
    refine ((quiet hr).mono fun _ => .of_other).trans ⟨_, journal_called .., ?_⟩
    simp [RendersOnly]

end Engine

namespace Composer

variable {σ : Type} {c : Composer σ}

structure Alike (c : Composer σ) (p : Prepared) (w : World σ) (p' : Prepared) (w' : World σ) :
    Prop where
  master : p'.master = p.master
  output : p'.output = p.output
  calls : w.Notes (fun ev => ¬ ev.isTranscoding) w' ∨ ∃ g, p'.board.Settled p.master g ∧
    w.Notes (Engine.RendersOnly c.engine p.output g) w'

namespace Alike

variable {p p' p'' : Prepared} {w w' w'' : World σ}

theorem notes (h : c.Alike p w p' w') (quiet : w'.Notes (fun ev => ¬ ev.isTranscoding) w'') :
    c.Alike p w p' w'' := by
  refine ⟨h.master, h.output, ?_⟩
  rcases h.calls with none | ⟨g, settled, only⟩
  · exact .inl (none.trans quiet)
  · exact .inr ⟨g, settled, only.trans (quiet.mono fun _ => .of_other)⟩

theorem once (h : c.Alike p w p' w') {r : Except RenderError RenderResult}
    (hx : (c.renderOnce p').run w' = ((r, p''), w'')) : c.Alike p w p'' w'' := by
  have taken : w'.Notes (fun ev => ¬ ev.isTranscoding) (w'.note .renderBegun) :=
    .note (by simp [Event.isTranscoding]) w'
  obtain ⟨master, output, calls⟩ := h.notes taken
  rw [run_renderOnce] at hx
  rcases hr : (c.engine.run p'.master p'.output).exec ⟨p'.board, w'.note .renderBegun, none⟩ with
    ⟨r', t⟩
  have learns : c.engine.Learns p'.board t.board := by
    have := c.engine.run_learns p'.master p'.output ⟨p'.board, w'.note .renderBegun, none⟩
    rwa [hr] at this
  rw [hr] at hx
  cases hx
  refine ⟨master, output, ?_⟩
  rw [master, output] at hr
  rcases calls with none | ⟨g, settled, before⟩
  · rcases Engine.run_notes hr with quiet | ⟨g, settled, now⟩
    · exact .inl (none.trans quiet)
    · exact .inr ⟨g, settled, (none.mono fun _ => .of_other).trans now⟩
  · exact .inr ⟨g, settled.informs learns.informs,
      before.trans (Engine.run_notes_of_settled settled hr)⟩

end Alike

/-- **All attempts alike.** Whichever attempt is the first to call the transcoder, all later ones
call it for the same graph. -/
theorem renderWithRetry_alike (c : Composer σ) (p : Prepared) (attempt left : Nat) (w : World σ) :
    ∃ arguments, w.Notes (fun ev => ∀ a, ev = .transcoded a → a = arguments)
      ((c.renderWithRetry p attempt left).run w).2 := by
  have freed : ∀ w' : World σ, w'.Notes (fun ev => ¬ ev.isTranscoding) (w'.note .renderEnded) :=
    World.Notes.note (by simp [Event.isTranscoding])
  have paused : ∀ (n : Nat) (w' : World σ),
      w'.Notes (fun ev => ¬ ev.isTranscoding) ((c.pause n).run w').2 := fun n w' =>
    ⟨[.retried .render, .waited (c.settings.retry.delayFor n)],
      by simp [run_pause, World.wait, World.note], by simp [Event.isTranscoding]⟩
  refine renderWithRetry_rule
    (I := c.Alike p w)
    (Q := fun _ w' => ∃ arguments, w.Notes (fun ev => ∀ a, ev = .transcoded a → a = arguments) w')
    (fun h hx => ?_) (fun n h hx => ?_) left attempt ⟨rfl, rfl, .inl (.refl w)⟩
  · rcases ((h.once hx).notes (freed _)).calls with none | ⟨g, -, only⟩
    · refine ⟨[], none.mono ?_⟩
      rintro _ quiet a rfl
      exact absurd rfl quiet
    · exact ⟨_, only⟩
  · exact ((h.once hx).notes (freed _)).notes (paused n _)

structure Prediction (c : Composer σ) : Prop where
  /-- A master that compiled is run without probing, and for the same graph, as long as nothing is
  called on any pipeline, whatever else happens in between. -/
  run : ∀ (s t : Session σ) (id : PipelineId) (g : Graph), (s.board.get id).isMaster →
    (c.engine.complexFilters id).exec s = (.ok g, t) →
    ∀ between : List (Deed σ), (∀ d ∈ between, d.act? = none) → ∀ output,
      Engine.Foretold c.engine output g (between.foldl c.engine.after t)
        ((c.engine.run id output).exec (between.foldl c.engine.after t)).2
  attempts : ∀ (p : Prepared) (attempt left : Nat) (w : World σ), ∃ evs arguments,
    ((c.renderWithRetry p attempt left).run w).2.journal = w.journal ++ evs ∧
      ∀ a, .transcoded a ∈ evs → a = arguments

/-- **Compiling predicts running**, for any probe. -/
theorem prediction (c : Composer σ) : c.Prediction where
  run s t id g master h between quiet output := by
    have learns := (Engine.complexFilters_looks h).board.trans
      (Engine.foldl_after_learns (e := c.engine) quiet t)
    have later := (Engine.settled_of_ok h).informs
      (Engine.foldl_after_learns (e := c.engine) quiet t).informs
    exact Engine.run_of_settled (by rw [learns.informs.isMaster, master]) later
  attempts p attempt left w := by
    obtain ⟨arguments, evs, journal, alike⟩ := c.renderWithRetry_alike p attempt left w
    exact ⟨evs, arguments, journal, fun a ha => alike _ ha a rfl⟩

end Composer

end Montage
