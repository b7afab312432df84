import Montage.Proofs.Disk.Ways
import Montage.Proofs.Pipeline.Facts
import Montage.Report.Tally

/-!
# Running a pipeline

A run gets ready, which can fail in several ways, and only then calls the
transcoder, once. Whatever the probe, the transcoder and the disk do, the result is
counted once, it is good only if the transcoder ended well and left a file, and
otherwise no file is left at the output.
-/

namespace Montage

namespace Engine

open RenderAct Metrics
open ExceptT (exec_bind exec_get exec_set exec_pure exec_tryCatch)

variable {σ : Type} (e : Engine σ) (id : PipelineId) (output : String)

/-- What a run does before the transcoder is called: laying out, probing, compiling, and making
the directory of the output. -/
def ready : RenderAct σ Graph := do
  let graph ← e.complexFilters id
  note (.submitted graph.streams)
  prepareOutput output
  pure graph

def ranOn (g : Graph) (s : Session σ) : Ran σ :=
  e.transcoder.run (g.arguments output e.settings)
    (s.mailbox.map fun m => ⟨some g.duration, m⟩) s.world.own s.world.disk

def afterRan (g : Graph) (s : Session σ) : Session σ where
  board := s.board
  mailbox := (e.ranOn output g s).watch.map Watch.mailbox
  world :=
    { own := (e.ranOn output g s).own
      disk := (e.ranOn output g s).disk
      journal := s.world.journal ++ [.transcoded (g.arguments output e.settings)]
      clock := s.world.clock + (e.ranOn output g s).elapsed }

def verdict (g : Graph) (s : Session σ) : Except RenderError RenderResult :=
  match (e.ranOn output g s).outcome with
  | .error err => .error err
  | .ok _ =>
    match (e.ranOn output g s).disk.size output with
    | .error _ => .error .noOutput
    | .ok size => .ok ⟨output, size, g.streams, g.duration⟩

theorem exec_prepareOutput (s : Session σ) :
    (prepareOutput output).exec s =
      if Path.parent output = "" then (.ok (), s)
      else
        let made := s.world.disk.createDirectories (Path.parent output)
        (made.1.mapError .io, { s with world := { s.world with disk := made.2 } }) := by
  by_cases here : Path.parent output = ""
  · simp only [prepareOutput, here, ne_eq, not_true_eq_false, if_false, if_true]
    rfl
  · simp only [prepareOutput, here, ne_eq, not_false_eq_true, if_true, if_false, exec_bind, exec_get,
      exec_set, exec_lift]

theorem exec_transcode (g : Graph) (s : Session σ) :
    (e.transcode (g.arguments output e.settings) g.duration).exec s =
      ((e.ranOn output g s).outcome, e.afterRan output g s) := by
  simp only [transcode, exec_bind, exec_note, exec_get, exec_set, exec_lift]
  rfl

theorem exec_compileAndExecute (s : Session σ) :
    (e.compileAndExecute id output).exec s =
      match (e.ready id output).exec s with
      | (.error err, t) => (.error err, t)
      | (.ok g, t) => (e.verdict output g t, e.afterRan output g t) := by
  simp only [compileAndExecute, ready, exec_bind, exec_note]
  rcases (e.complexFilters id).exec s with ⟨_ | g, t⟩
  · rfl
  · dsimp only
    rcases (prepareOutput output).exec _ with ⟨_ | _, u⟩
    · rfl
    · simp only [exec_pure, exec_transcode, verdict]
      rcases (e.ranOn output g u).outcome with err | report
      · rfl
      · simp only [exec_get, afterRan]
        cases (e.ranOn output g u).disk.size output <;> rfl

/-- The session after a run that began at `start`: its result is counted, and a file that is no
good is gone. -/
def endedAt (start : Nat) (r : Except RenderError RenderResult) (s : Session σ) : Session σ :=
  let w := s.world.note (.rendered r.isOk (s.world.clock - start))
  { s with world := if r.isOk then w else w.onDisk (·.removeFileIfAny output) }

theorem exec_run_of_refused {s : Session σ}
    (h : ¬ ((s.board.get id).isMaster ∧ s.board.isBound id)) :
    ∃ reason, (e.run id output).exec s = (.error (.invalidState reason), s) := by
  simp only [run, exec_bind, exec_get]
  cases master : (s.board.get id).isMaster with
  | false => exact ⟨_, rfl⟩
  | true =>
    have unbound : (s.board.get id).bound.isNone = true := by
      rw [Board.isBound, master] at h
      simpa using h
    simp only [unbound, Bool.not_true, Bool.false_eq_true, if_false, if_true, exec_bind]
    exact ⟨_, rfl⟩

theorem exec_run {s : Session σ} (master : (s.board.get id).isMaster)
    (bound : s.board.isBound id) :
    (e.run id output).exec s =
      let (r, t) := (e.compileAndExecute id output).exec s
      (r, endedAt output s.world.clock r t) := by
  have some : (s.board.get id).bound.isNone = false := by
    rw [Board.isBound] at bound
    simpa [Option.isSome_iff_ne_none] using bound
  simp only [run, master, some, exec_bind, exec_get, Bool.not_true, Bool.false_eq_true, if_false,
    exec_pure, exec_tryCatch]
  rcases (e.compileAndExecute id output).exec s with ⟨_ | r, t⟩ <;> rfl

/-! ## Getting ready -/

end Engine

def Event.isPreparation : Event → Bool
  | .probed _ | .submitted _ => true
  | _ => false

def Event.isTranscoding : Event → Bool
  | .transcoded _ => true
  | _ => false

namespace Engine

open RenderAct Metrics
open ExceptT (exec_bind exec_get exec_set exec_pure exec_tryCatch)

variable {σ : Type} (e : Engine σ) (id : PipelineId) (output : String)

structure Prepares (s t : Session σ) : Prop where
  sees : s.board.Gains (e.probe.ShowsOn s.world.disk) t.board
  mailbox : t.mailbox = s.mailbox
  clock : t.world.clock = s.world.clock
  disk : t.world.disk = s.world.disk ∨ Path.parent output ≠ "" ∧
    t.world.disk = (s.world.disk.createDirectories (Path.parent output)).2
  journal : ∃ evs, t.world.journal = s.world.journal ++ evs ∧ ∀ ev ∈ evs, ev.isPreparation

variable {e id output}

theorem Prepares.board {s t : Session σ} (h : e.Prepares output s t) : e.Learns s.board t.board :=
  h.sees.mono fun _ _ shows => shows.shows

theorem complexFilters_looks {s t : Session σ} {r : Except RenderError Graph}
    (h : (e.complexFilters id).exec s = (r, t)) : e.Looks s t := by
  rw [exec_complexFilters] at h
  split at h
  · cases hf : s.board.flatten id with
    | error err =>
      rw [hf] at h
      exact (Prod.mk.inj h).2 ▸ .refl s
    | ok ids =>
      rcases hs : (ids.mapM e.streamOf).exec s with ⟨_ | streams, u⟩
      all_goals
        have looks := (e.streams_spec (Board.isBound_of_mem_flatten hf) hs).1
        simp only [hf, hs] at h
        exact (Prod.mk.inj h).2 ▸ looks
  · exact (Prod.mk.inj h).2 ▸ .refl s

theorem complexFilters_ok {s t : Session σ} {g : Graph} :
    (e.complexFilters id).exec s = (.ok g, t) ↔ s.board.isBound id ∧ ∃ ids streams,
      s.board.flatten id = .ok ids ∧ (ids.mapM e.streamOf).exec s = (.ok streams, t) ∧
        Graph.compile streams (s.board.get id).frame = .ok g := by
  rw [exec_complexFilters]
  by_cases bound : s.board.isBound id
  · rw [if_pos bound]
    cases s.board.flatten id with
    | error err => simp
    | ok ids =>
      rcases hs : (ids.mapM e.streamOf).exec s with ⟨_ | streams, u⟩
      · simp [hs]
      · simp [bound, hs, and_comm]
  · simp [bound]

theorem exec_ready_of_ok {s t : Session σ} {g : Graph}
    (h : (e.complexFilters id).exec s = (.ok g, t)) :
    (e.ready id output).exec s =
      let u := { t with world := t.world.note (.submitted g.streams) }
      if Path.parent output = "" then (.ok g, u)
      else
        let made := t.world.disk.createDirectories (Path.parent output)
        ((made.1.mapError .io).map fun _ => g, { u with world := { u.world with disk := made.2 } }) := by
  simp only [ready, exec_bind, h, exec_note, exec_prepareOutput]
  by_cases here : Path.parent output = ""
  · simp only [if_pos here, exec_pure]
  · simp only [if_neg here, World.note]
    cases (t.world.disk.createDirectories (Path.parent output)).1 <;> rfl

theorem ready_prepares {s t : Session σ} {r : Except RenderError Graph}
    (h : (e.ready id output).exec s = (r, t)) : e.Prepares output s t := by
  rcases hc : (e.complexFilters id).exec s with ⟨err | g, u⟩
  all_goals
    have looks := complexFilters_looks hc
    obtain ⟨paths, hp⟩ := looks.journal
    have probes : ∀ ev ∈ paths.map Event.probed, ev.isPreparation := by
      simp [Event.isPreparation]
  · simp only [ready, exec_bind, hc] at h
    obtain ⟨-, rfl⟩ := Prod.mk.inj h
    exact ⟨looks.sees, looks.mailbox, looks.clock, .inl looks.disk, _, hp, probes⟩
  · -- whether or not the directory can be made, nothing more is noted
    have noted : ∀ disk, (disk = u.world.disk ∨ Path.parent output ≠ "" ∧
        disk = (u.world.disk.createDirectories (Path.parent output)).2) →
        e.Prepares output s { u with world := { u.world.note (.submitted g.streams) with disk } } := by
      intro disk hd
      rw [looks.disk] at hd
      refine ⟨looks.sees, looks.mailbox, looks.clock, hd,
        paths.map .probed ++ [.submitted g.streams], ?_, fun ev hev => ?_⟩
      · simp [World.note, hp]
      · rcases List.mem_append.mp hev with hev | hev
        · exact probes ev hev
        · rw [List.mem_singleton.mp hev]
          rfl
    rw [exec_ready_of_ok hc] at h
    by_cases here : Path.parent output = ""
    · rw [if_pos here] at h
      exact (Prod.mk.inj h).2 ▸ noted _ (.inl rfl)
    · rw [if_neg here] at h
      exact (Prod.mk.inj h).2 ▸ noted _ (.inr ⟨here, rfl⟩)

theorem ready_isOk_iff {s : Session σ} (bound : s.board.isBound id) :
    ((e.ready id output).exec s).1.isOk ↔ ∃ ids streams g u,
      s.board.flatten id = .ok ids ∧ (ids.mapM e.streamOf).exec s = (.ok streams, u) ∧
        Graph.compile streams (s.board.get id).frame = .ok g ∧
        (Path.parent output = "" ∨
          (u.world.disk.createDirectories (Path.parent output)).1.isOk) := by
  have filters : ((e.ready id output).exec s).1.isOk ↔ ∃ g u,
      (e.complexFilters id).exec s = (.ok g, u) ∧ (Path.parent output = "" ∨
        (u.world.disk.createDirectories (Path.parent output)).1.isOk) := by
    rcases hc : (e.complexFilters id).exec s with ⟨err | g, u⟩
    · simp [ready, exec_bind, hc, Except.isOk, Except.toBool]
    · rw [exec_ready_of_ok hc]
      by_cases here : Path.parent output = ""
      · simp [here, Except.isOk, Except.toBool]
      · cases hm : (u.world.disk.createDirectories (Path.parent output)).1 <;>
          simp [here, hm, Except.isOk, Except.toBool, Except.map, Except.mapError]
  rw [filters]
  constructor
  · rintro ⟨g, u, hc, made⟩
    obtain ⟨-, ids, streams, hf, hs, hg⟩ := complexFilters_ok.mp hc
    exact ⟨ids, streams, g, u, hf, hs, hg, made⟩
  · rintro ⟨ids, streams, g, u, hf, hs, hg, made⟩
    exact ⟨g, u, complexFilters_ok.mpr ⟨bound, ids, streams, hf, hs, hg⟩, made⟩

/-! ## The contract -/

variable (e id output)

structure Performs (s : Session σ) (r : Except RenderError RenderResult) (t : Session σ) :
    Prop where
  ready_iff : ((e.ready id output).exec s).1.isOk ↔ ∃ ids streams g u,
    s.board.flatten id = .ok ids ∧ (ids.mapM e.streamOf).exec s = (.ok streams, u) ∧
      Graph.compile streams (s.board.get id).frame = .ok g ∧
      (Path.parent output = "" ∨ (u.world.disk.createDirectories (Path.parent output)).1.isOk)
  calls : ∃ evs, t.world.journal = s.world.journal ++ evs ∧
    evs.countP Event.isTranscoding =
      if ((e.ready id output).exec s).1.isOk then 1 else 0
  unready : ∀ err u, (e.ready id output).exec s = (.error err, u) → r = .error err
  /-- It is good just if the transcoder ended well and left something at the output. -/
  isOk_iff : r.isOk ↔ ∃ g u, (e.ready id output).exec s = (.ok g, u) ∧
    (e.ranOn output g u).outcome.isOk ∧
      ((e.ranOn output g u).disk.isFile output ∨ (e.ranOn output g u).disk.isDirectory output)
  left : r.isOk → ∀ g u, (e.ready id output).exec s = (.ok g, u) →
    t.world.disk = (e.ranOn output g u).disk
  noFile : ∀ g u, (e.ready id output).exec s = (.ok g, u) → (e.ranOn output g u).outcome.isOk →
    ¬ (e.ranOn output g u).disk.has output → ∃ text, r = .error (.processFailed (some 0) text)
  counted : ∀ ok, t.world.count (Activity.rendered ok) =
    s.world.count (Activity.rendered ok) + if ok = r.isOk then 1 else 0
  gone : ¬ r.isOk → ¬ t.world.disk.isFile output

structure Contract (s : Session σ) (r : Except RenderError RenderResult) (t : Session σ) :
    Prop where
  refused : ¬ ((s.board.get id).isMaster ∧ s.board.isBound id) →
    (∃ reason, r = .error (.invalidState reason)) ∧ t = s
  performs : (s.board.get id).isMaster → s.board.isBound id → e.Performs id output s r t

variable {e id output}

theorem countP_preparation {evs : List Event} (h : ∀ ev ∈ evs, ev.isPreparation) :
    evs.countP Event.isTranscoding = 0 ∧ ∀ ok, evs.countP (Activity.rendered ok) = 0 := by
  refine ⟨List.countP_eq_zero.mpr fun ev hev => ?_, fun ok => List.countP_eq_zero.mpr fun ev hev => ?_⟩
  all_goals
    have := h ev hev
    cases ev <;> simp_all [Event.isPreparation, Event.isTranscoding, Activity.rendered]

theorem journal_endedAt (start : Nat) (r : Except RenderError RenderResult) (s : Session σ) :
    (endedAt output start r s).world.journal =
      s.world.journal ++ [.rendered r.isOk (s.world.clock - start)] := by
  simp only [endedAt]
  split <;> rfl

theorem disk_endedAt {r : Except RenderError RenderResult} (good : r.isOk) (start : Nat)
    (s : Session σ) : (endedAt output start r s).world.disk = s.world.disk := by
  simp only [endedAt, good, if_true]
  rfl

theorem gone_endedAt {r : Except RenderError RenderResult} (bad : ¬ r.isOk) (start : Nat)
    (s : Session σ) : ¬ (endedAt output start r s).world.disk.isFile output := by
  simp only [endedAt, if_neg bad]
  exact s.world.disk.isFile_removeFileIfAny output

theorem count_endedAt {s t : Session σ} {evs : List Event}
    (journal : t.world.journal = s.world.journal ++ evs)
    (uncounted : ∀ ok, evs.countP (Activity.rendered ok) = 0) (start : Nat)
    (r : Except RenderError RenderResult) (ok : Bool) :
    (endedAt output start r t).world.count (Activity.rendered ok) =
      s.world.count (Activity.rendered ok) + if ok = r.isOk then 1 else 0 := by
  simp only [World.count, journal_endedAt, journal, List.countP_append, uncounted,
    List.countP_singleton, Activity.rendered, Nat.add_zero, beq_iff_eq, @eq_comm _ ok]

theorem verdict_isOk {g : Graph} {s : Session σ} :
    (e.verdict output g s).isOk ↔
      (e.ranOn output g s).outcome.isOk ∧ (e.ranOn output g s).disk.has output := by
  rw [verdict, ← Disk.size_isOk]
  rcases (e.ranOn output g s).outcome with err | report
  · simp [Except.isOk, Except.toBool]
  · cases (e.ranOn output g s).disk.size output <;> simp [Except.isOk, Except.toBool]

theorem verdict_of_noFile {g : Graph} {s : Session σ} (good : (e.ranOn output g s).outcome.isOk)
    (gone : ¬ (e.ranOn output g s).disk.has output) : e.verdict output g s = .error .noOutput := by
  rw [← Disk.size_isOk] at gone
  rw [verdict]
  cases ho : (e.ranOn output g s).outcome with
  | error err =>
    rw [ho] at good
    cases good
  | ok report =>
    cases hs : (e.ranOn output g s).disk.size output with
    | error err => rfl
    | ok size => exact absurd (by rw [hs]; rfl) gone

theorem performs_unready {s u : Session σ} {err : RenderError} (bound : s.board.isBound id)
    (hr : (e.ready id output).exec s = (.error err, u)) :
    e.Performs id output s (.error err) (endedAt output s.world.clock (.error err) u) := by
  obtain ⟨evs, hevs, prep⟩ := (ready_prepares hr).journal
  obtain ⟨none, uncounted⟩ := countP_preparation prep
  refine ⟨ready_isOk_iff bound, ⟨_, (journal_endedAt ..).trans (by rw [hevs, List.append_assoc]), ?_⟩,
    ?_, ?_, ?_, ?_, count_endedAt hevs uncounted _ _, fun bad => gone_endedAt bad _ _⟩
  · rw [hr, List.countP_append, none]
    rfl
  · intro err' u' h
    cases hr.symm.trans h
    rfl
  · simp [hr, Except.isOk, Except.toBool]
  · intro good
    cases good
  · intro g u' h
    cases hr.symm.trans h

theorem performs_ready {s u : Session σ} {g : Graph} (bound : s.board.isBound id)
    (hr : (e.ready id output).exec s = (.ok g, u)) :
    e.Performs id output s (e.verdict output g u)
      (endedAt output s.world.clock (e.verdict output g u) (e.afterRan output g u)) := by
  obtain ⟨evs, hevs, prep⟩ := (ready_prepares hr).journal
  obtain ⟨none, uncounted⟩ := countP_preparation prep
  have called : (e.afterRan output g u).world.journal =
      s.world.journal ++ (evs ++ [.transcoded (g.arguments output e.settings)]) := by
    simp [afterRan, hevs]
  have once : ∀ ok, (evs ++ [Event.transcoded (g.arguments output e.settings)]).countP
      (Activity.rendered ok) = 0 := by
    simp [uncounted, Activity.rendered]
  refine ⟨ready_isOk_iff bound, ⟨_, (journal_endedAt ..).trans (by rw [called, List.append_assoc]), ?_⟩,
    ?_, ?_, ?_, ?_, count_endedAt called once _ _, fun bad => gone_endedAt bad _ _⟩
  · rw [hr, List.countP_append, List.countP_append, none]
    rfl
  · intro err' u' h
    cases hr.symm.trans h
  · rw [verdict_isOk]
    constructor
    · intro good
      exact ⟨g, u, hr, good.1, (Disk.has_iff ..).mp good.2⟩
    · rintro ⟨g', u', h, ended, there⟩
      cases hr.symm.trans h
      exact ⟨ended, (Disk.has_iff ..).mpr there⟩
  · intro good g' u' h
    cases hr.symm.trans h
    exact disk_endedAt good _ _
  · intro g' u' h ended gone
    cases hr.symm.trans h
    exact ⟨_, verdict_of_noFile ended gone⟩

theorem exec_run_unready {s u : Session σ} {err : RenderError} (master : (s.board.get id).isMaster)
    (bound : s.board.isBound id) (hr : (e.ready id output).exec s = (.error err, u)) :
    (e.run id output).exec s = (.error err, endedAt output s.world.clock (.error err) u) := by
  rw [e.exec_run id output master bound, e.exec_compileAndExecute, hr]

theorem exec_run_ready {s u : Session σ} {g : Graph} (master : (s.board.get id).isMaster)
    (bound : s.board.isBound id) (hr : (e.ready id output).exec s = (.ok g, u)) :
    (e.run id output).exec s = (e.verdict output g u,
      endedAt output s.world.clock (e.verdict output g u) (e.afterRan output g u)) := by
  rw [e.exec_run id output master bound, e.exec_compileAndExecute, hr]

theorem journal_called (start : Nat) (r : Except RenderError RenderResult) (g : Graph)
    (s : Session σ) :
    (endedAt output start r (e.afterRan output g s)).world.journal = s.world.journal ++
      [.transcoded (g.arguments output e.settings), .rendered r.isOk
        ((e.afterRan output g s).world.clock - start)] :=
  (journal_endedAt ..).trans (List.append_assoc ..)

variable (e id output) in
inductive Goes (s : Session σ) : Except RenderError RenderResult × Session σ → Prop
  | refused (no : ¬ ((s.board.get id).isMaster ∧ s.board.isBound id)) (reason : String) :
    Goes s (.error (.invalidState reason), s)
  | unready {u : Session σ} {err : RenderError} (master : (s.board.get id).isMaster)
    (bound : s.board.isBound id) (hr : (e.ready id output).exec s = (.error err, u)) :
    Goes s (.error err, endedAt output s.world.clock (.error err) u)
  | called {u : Session σ} {g : Graph} (master : (s.board.get id).isMaster)
    (bound : s.board.isBound id) (hr : (e.ready id output).exec s = (.ok g, u)) :
    Goes s (e.verdict output g u,
      endedAt output s.world.clock (e.verdict output g u) (e.afterRan output g u))

theorem run_goes (e : Engine σ) (id : PipelineId) (output : String) (s : Session σ) :
    e.Goes id output s ((e.run id output).exec s) := by
  by_cases may : (s.board.get id).isMaster ∧ s.board.isBound id
  · obtain ⟨master, bound⟩ := may
    rcases hr : (e.ready id output).exec s with ⟨err | g, u⟩
    · rw [exec_run_unready master bound hr]
      exact .unready master bound hr
    · rw [exec_run_ready master bound hr]
      exact .called master bound hr
  · obtain ⟨reason, h⟩ := e.exec_run_of_refused id output may
    rw [h]
    exact .refused may reason

/-- **The contract of a run**, with whatever probe, transcoder and disk, and whether or not
progress is told. -/
theorem run_contract (e : Engine σ) (id : PipelineId) (output : String) (s : Session σ) :
    e.Contract id output s ((e.run id output).exec s).1 ((e.run id output).exec s).2 := by
  have goes := e.run_goes id output s
  generalize (e.run id output).exec s = ended at goes ⊢
  cases goes with
  | refused no reason =>
    exact ⟨fun _ => ⟨⟨reason, rfl⟩, rfl⟩, fun master bound => absurd ⟨master, bound⟩ no⟩
  | unready master bound hr =>
    exact ⟨fun no => absurd ⟨master, bound⟩ no, fun _ _ => performs_unready bound hr⟩
  | called master bound hr =>
    exact ⟨fun no => absurd ⟨master, bound⟩ no, fun _ _ => performs_ready bound hr⟩

end Engine

end Montage
