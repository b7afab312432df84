import Montage.Proofs.Compose.Agreement
import Montage.Proofs.Compose.Course
import Montage.Proofs.Compose.Prediction
import Montage.Proofs.Compose.Targets
import Montage.Proofs.Compose.Window
import Montage.Proofs.Graph.Sound
import Montage.Proofs.Pipeline.Flattening
import Montage.Rehearsal.Requests

/-!
# What sources are to the transcoder

The sources of a job, once they are downloaded, are the inputs of its graph, in their order, and
each is used for what the scenario means it to be.
-/

namespace Montage

open Relation

/-! ## Downloads in their order -/

namespace Fetcher

variable {σ : Type} {f : Fetcher σ} {policy : RetryPolicy} {limit : Nat} {targets : List Target}
  {w w' : World σ}

/-- A link is saved to the path that was asked for, or not at all. -/
def Obeys (f : Fetcher σ) : Prop :=
  ∀ url path own disk saved, (f.save url path own disk).1 = .ok saved → saved = path

def Placed (t : Target) (r : Except FetchError String) : Prop :=
  ∀ path, r = .ok path → path = t.path

theorem placed_of_attempt {t : Target} {n left : Nat} {r : Except FetchError String}
    (obeys : f.Obeys) (h : (f.attempt policy t n left).run w = (.settled r, w')) : Placed t r := by
  rintro path rfl
  rw [run_attempt] at h
  rcases hx : (f.fetch t).run w with ⟨e | saved, w''⟩
  all_goals rw [hx] at h
  · cases left with
    | zero => cases h
    | succ left =>
      dsimp only at h
      split at h <;> cases h
  · cases h
    exact obeys t.url t.path w.own w.disk path (congrArg Prod.fst hx)

theorem Reaches.ordered {R : Target → Except FetchError String → Prop}
    {s : DownloadWindow × World σ}
    (ends : ∀ {t n left r w w'}, (f.attempt policy t n left).run w = (.settled r, w') → R t r)
    (h : f.Reaches policy limit targets w s) : s.1.Ordered R targets := by
  induction h with
  | refl => exact ⟨[], [], rfl, .nil, .nil⟩
  | tail _ turn ih =>
    apply turn.ordered _ ih
    intro i t n left wake r w' _ hx
    exact ends hx

/-- **Downloads** hand on the paths of their targets, in their order. -/
theorem paths_of_downloadAll {paths : List String} (obeys : f.Obeys)
    (h : (f.downloadAll policy limit targets).run w = (.ok paths, w')) :
    paths = targets.map (·.path) := by
  obtain ⟨win, turns, returns⟩ := downloadAll_reaches f policy limit targets w
  obtain ⟨front, inside, split, saved, lanes⟩ := turns.ordered (placed_of_attempt obeys)
  rw [h] at returns
  cases returns
  cases lanes
  rw [List.append_nil, List.append_nil] at split
  subst split
  have same : List.Forall₂ (fun t path => t.path = path) targets paths :=
    saved.imp fun t path placed => (placed path rfl).symm
  exact (List.forall₂_eq_eq_eq ▸ List.forall₂_map_left_iff.mpr same : _).symm

def FetchesOnly (targets : List Target) (ev : Event) : Prop :=
  ∀ url path ok, ev = .fetched url path ok → ⟨url, path⟩ ∈ targets

theorem attempt_fetches {t : Target} (ht : t ∈ targets) (n left : Nat) (w : World σ) :
    w.Notes (FetchesOnly targets) ((f.attempt policy t n left).run w).2 := by
  have fetched : w.Notes (FetchesOnly targets) ((f.fetch t).run w).2 := by
    refine ⟨[_], rfl, ?_⟩
    simp only [List.mem_singleton]
    rintro _ rfl url path ok ⟨⟩
    exact ht
  have noted : ∀ {w'} (ev : Event), (∀ url path ok, ev ≠ .fetched url path ok) →
      w.Notes (FetchesOnly targets) w' → w.Notes (FetchesOnly targets) (w'.note ev) := by
    intro w' ev other before
    exact before.trans (.note (fun url path ok same => absurd same (other url path ok)) w')
  rw [run_attempt]
  rcases hx : (f.fetch t).run w with ⟨e | saved, w'⟩
  all_goals rw [hx] at fetched
  · cases left with
    | zero => exact noted _ (by simp) fetched
    | succ left =>
      dsimp only
      split
      · exact noted _ (by simp) (noted _ (by simp) fetched)
      · exact noted _ (by simp) fetched
  · exact noted _ (by simp) fetched

/-- **Downloads** fetch nothing but their targets. -/
theorem downloadAll_fetches (w : World σ) :
    w.Notes (FetchesOnly targets) ((f.downloadAll policy limit targets).run w).2 := by
  obtain ⟨win, turns, -⟩ := downloadAll_reaches f policy limit targets w
  generalize ((f.downloadAll policy limit targets).run w).2 = w' at turns
  suffices all : ∀ s, f.Reaches policy limit targets w s → w.Notes (FetchesOnly targets) s.2 from
    all _ turns
  intro s reached
  induction reached with
  | refl => exact .refl w
  | tail before turn ih =>
    refine ih.trans ?_
    cases turn with
    | handOn => exact .refl _
    | start => exact .refl _
    | @attempt win i n left wake t hi w₁ =>
      obtain ⟨front, inside, split, -, lanes⟩ : win.Ordered (fun _ _ => True) targets :=
        Reaches.ordered (fun _ => trivial) before
      obtain ⟨_, there, rfl⟩ :=
        DownloadWindow.Covers.exists_of_forall₂ lanes (List.mem_of_getElem? hi)
      have ht : t ∈ targets := by simp [split, there]
      rw [run_stepLane hi]
      have woken : w₁.Notes (FetchesOnly targets) { w₁ with clock := max w₁.clock wake } :=
        .of_same rfl
      exact woken.trans (attempt_fetches ht n left _)

end Fetcher

theorem FetchClient.fetcher_obeys {σ : Type} (c : FetchClient σ) : c.fetcher.Obeys := by
  intro url path own disk saved h
  change (c.save url path own disk).1 = _ at h
  rw [save] at h
  split at h
  · cases h
  · split at h
    · exact (Except.ok.inj h).symm
    · cases h

/-! ## Streams of a scenario -/

namespace Scenario

def streams (s : Scenario) (paths : List String) (found : PipelineId → Facts) : List Stream :=
  ⟨paths.headD "", s.edits paths, (found 0).hasAudio, (found 0).duration⟩ ::
    (s.appended paths).zipIdx.map fun (path, i) =>
      ⟨path, [], (found (i + 1)).hasAudio, (found (i + 1)).duration⟩

variable {s : Scenario} {paths : List String} {frame : Geometry} {b : Board} {g : Graph}

theorem streams_board (enough : paths.length = s.sources.length) (frame : Geometry)
    (found : PipelineId → Facts) :
    ((List.range ((s.appended paths).length + 1)).map fun id =>
      (s.board frame paths).stream id (found id)) = s.streams paths found := by
  cases s with
  | bannerAppend source banner =>
    obtain ⟨a, b, rfl⟩ := List.length_eq_two.mp enough
    rfl
  | coverWithImage source image region maxDuration => rfl
  | shortify source start maxDuration turns => rfl

/-- What a laid out pipeline compiles to, the streams of its scenario do. -/
theorem compile_of_settled (enough : paths.length = s.sources.length)
    (informs : (s.board frame paths).Informs b) (settled : b.Settled 0 g) :
    ∃ found, Graph.compile (s.streams paths found) frame = .ok g := by
  obtain ⟨ids, found, flat, -, compiled⟩ := settled.streams
  rw [informs.flatten, flatten_board enough] at flat
  obtain rfl := Except.ok.inj flat
  have streams : ((List.range ((s.appended paths).length + 1)).map fun id =>
      b.stream id (found id)) = s.streams paths found := by
    rw [← streams_board enough frame]
    exact List.map_congr_left fun id _ => informs.stream id (found id)
  rw [streams, informs.frame] at compiled
  exact ⟨found, compiled⟩

theorem files_streams (enough : paths.length = s.sources.length) (found : PipelineId → Facts) :
    (s.streams paths found).flatMap Stream.files = paths := by
  cases s with
  | bannerAppend source banner =>
    obtain ⟨a, b, rfl⟩ := List.length_eq_two.mp enough
    rfl
  | coverWithImage source image region maxDuration =>
    obtain ⟨a, b, rfl⟩ := List.length_eq_two.mp enough
    rfl
  | shortify source start maxDuration turns =>
    obtain ⟨a, rfl⟩ := List.length_eq_one_iff.mp enough
    by_cases still : turns % 4 = 0 <;>
      simp [streams, edits, appended, Stream.files, Stream.images, Edit.image?, still]

end Scenario

/-! ## Graphs of one and of two streams -/

namespace Graph

variable {frame : Geometry} {g : Graph}

theorem sole_of_ok {s : Stream} (h : compile [s] frame = .ok g) : g.streams = 1 ∧
    g.trail (.inputVideo 0) = (numbered 1 (s.steps .double frame), g.video) := by
  refine ⟨streams_eq_of_ok h, (trail_of_ok h 0 Nat.one_pos).trans ?_⟩
  rw [(eq_ofCompiled_of_ok h).2]
  rfl

def Pairs (g : Graph) : Prop :=
  g.streams = 2 ∧
    (∃ before, g.statements = before ++
      [.join [((g.trail (.inputVideo 0)).2, .sound 0), ((g.trail (.inputVideo 1)).2, .sound 1)]]) ∧
    ∀ i < 2, (∃ cuts, .sound i cuts (.sound i) ∈ g.statements) ∨
      ∃ length, .silence length (.sound i) ∈ g.statements

theorem pairs_of_ok {s t : Stream} (h : compile [s, t] frame = .ok g) (plain : s.images = []) :
    g.Pairs := by
  have several : 1 < [s, t].length := Nat.one_lt_two
  have behind : firstInput [s, t] 1 = 1 := by simp [firstInput, plain]
  have first := trail_of_ok h 0 Nat.two_pos
  have second := trail_of_ok h 1 several
  have hg := (eq_ofCompiled_of_ok h).2
  rw [behind] at second
  rw [show firstInput [s, t] 0 = 0 from rfl] at first
  refine ⟨streams_eq_of_ok h, ?_, fun i hi => ?_⟩
  · have statements := statements_of_several .double frame several
    rw [← hg] at statements
    simp only [List.zipIdx_cons, List.zipIdx_nil, List.map_cons, List.map_nil, Nat.zero_add, behind]
      at statements
    rw [first, second]
    exact ⟨_, statements⟩
  · have sound := soundStatement_mem .double frame hg hi (.inl several)
    have own : firstInput [s, t] i = i := by
      obtain rfl | rfl : i = 0 ∨ i = 1 := by omega
      · rfl
      · exact behind
    rw [own, Stream.soundStatement] at sound
    split at sound
    · exact .inl ⟨_, sound⟩
    · exact .inr ⟨_, sound⟩

end Graph

/-! ## What the graph of a scenario does -/

/-- Every source is what a scenario means it to be: the banner is the second of two streams, whose
pictures and sounds are joined in their order, and the image is laid over the only stream. -/
def Scenario.UsedIn (g : Graph) : Scenario → Prop
  | bannerAppend _ _ => g.Pairs
  | coverWithImage _ _ region _ => g.streams = 1 ∧ (g.trail (.inputVideo 0)).2 = g.video ∧
    .overlay 1 region ∈ (g.trail (.inputVideo 0)).1
  | shortify _ _ _ _ => g.streams = 1 ∧ (g.trail (.inputVideo 0)).2 = g.video

/-- A graph takes the files of a scenario for its inputs, in their order, and each for its part. -/
structure Scenario.Feeds (s : Scenario) (paths : List String) (g : Graph) : Prop where
  inputs : g.inputs = paths
  used : s.UsedIn g
  arguments : ∀ (output : String) (settings : RenderSettings), ∃ rest,
    g.arguments output settings = ["-y", "-hide_banner", "-loglevel", settings.logLevel] ++
      paths.flatMap (fun path => ["-i", path]) ++ "-filter_complex" :: rest

namespace Scenario

variable {s : Scenario} {paths : List String} {frame : Geometry} {b : Board} {g : Graph}

theorem usedIn_of_ok (enough : paths.length = s.sources.length) {found : PipelineId → Facts}
    (h : Graph.compile (s.streams paths found) frame = .ok g) : s.UsedIn g := by
  cases s with
  | bannerAppend source banner =>
    obtain ⟨first, second, rfl⟩ := List.length_eq_two.mp enough
    exact Graph.pairs_of_ok h rfl
  | coverWithImage source image region maxDuration =>
    obtain ⟨count, followed⟩ := Graph.sole_of_ok h
    refine ⟨count, by rw [followed], ?_⟩
    rw [followed, Stream.steps, numbered_append]
    refine List.mem_append_left _ ?_
    simp [Stream.stepsBeforeFix, edits, Edit.allSteps, Edit.runs, Edit.Run.steps, Edit.steps,
      numbered]
  | shortify source start maxDuration turns =>
    obtain ⟨count, followed⟩ := Graph.sole_of_ok h
    exact ⟨count, by rw [followed]⟩

/-- **What a laid out pipeline compiles to** has the files of the scenario for its inputs. -/
theorem feeds_of_settled (enough : paths.length = s.sources.length)
    (informs : (s.board frame paths).Informs b) (settled : b.Settled 0 g) : s.Feeds paths g := by
  obtain ⟨found, compiled⟩ := compile_of_settled enough informs settled
  have inputs : g.inputs = paths := by
    rw [(Graph.eq_ofCompiled_of_ok compiled).2, Graph.inputs_ofCompiled, flatMap_inputs_layOut,
      files_streams enough]
  refine ⟨inputs, usedIn_of_ok enough compiled, fun output settings => ?_⟩
  rw [Graph.arguments, inputs]
  simp only [List.append_assoc, List.cons_append, List.nil_append]
  exact ⟨_, rfl⟩

end Scenario

/-! ## Jobs -/

namespace Composer

variable {σ : Type} {c : Composer σ} {stamp : Stamp} {r : Request} {dir : String} {w w' : World σ}
  {p : Prepared}

theorem gather_laid (obeys : c.fetcher.Obeys) (h : (c.gather stamp r dir).exec w = (.ok p, w')) :
    p.sources = (targets r.scenario dir).map (·.path) ∧
      p.sources.length = r.scenario.sources.length ∧ p.master = 0 ∧
        ∃ frame, p.board = r.scenario.board frame p.sources := by
  rw [exec_gather] at h
  rcases hd : (c.download r dir).run w with ⟨e | paths, w₁⟩
  all_goals rw [hd] at h
  · cases h
  · dsimp only at h
    split at h
    · cases h
    · rename_i master board laid
      obtain ⟨enough, -, same⟩ := Scenario.of_layout_eq_ok laid
      obtain ⟨rfl, rfl⟩ := Prod.mk.inj same
      cases h
      exact ⟨Fetcher.paths_of_downloadAll obeys hd, enough, rfl, _, rfl⟩

def RendersFrom (c : Composer σ) (s : Scenario) (paths : List String) (output : String) (ev : Event) :
    Prop :=
  ∀ arguments, ev = .transcoded arguments → ∃ g : Graph, s.Feeds paths g ∧
    arguments = g.arguments output c.engine.settings

theorem RendersFrom.of_other {s : Scenario} {paths : List String} {output : String} {ev : Event}
    (h : ¬ ev.isTranscoding) : c.RendersFrom s paths output ev := by
  rintro arguments rfl
  exact absurd rfl h

structure Feeding (c : Composer σ) (s : Scenario) (paths : List String) (output : String)
    (w : World σ) (p : Prepared) (w' : World σ) : Prop where
  master : p.master = 0
  renders : p.output = output
  laid : ∃ frame, (s.board frame paths).Informs p.board
  calls : w.Notes (c.RendersFrom s paths output) w'

section
variable {s : Scenario} {paths : List String} {output : String} {p' : Prepared} {w'' : World σ}
  (enough : paths.length = s.sources.length)

theorem Feeding.notes (h : c.Feeding s paths output w p w')
    (quiet : w'.Notes (fun ev => ¬ ev.isTranscoding) w'') : c.Feeding s paths output w p w'' :=
  ⟨h.master, h.renders, h.laid, h.calls.trans (quiet.mono fun _ => .of_other)⟩

include enough in
theorem Feeding.once (h : c.Feeding s paths output w p w') {r : Except RenderError RenderResult}
    (hx : (c.renderOnce p).run w' = ((r, p'), w'')) : c.Feeding s paths output w p' w'' := by
  have taken : w'.Notes (fun ev => ¬ ev.isTranscoding) (w'.note .renderBegun) :=
    .note (by simp [Event.isTranscoding]) w'
  obtain ⟨master, renders, ⟨frame, laid⟩, calls⟩ := h.notes taken
  rw [run_renderOnce] at hx
  rcases hr : (c.engine.run p.master p.output).exec ⟨p.board, w'.note .renderBegun, none⟩ with ⟨r', t⟩
  have learns : c.engine.Learns p.board t.board := by
    have := c.engine.run_learns p.master p.output ⟨p.board, w'.note .renderBegun, none⟩
    rwa [hr] at this
  have informs := laid.trans learns.informs
  rw [hr] at hx
  cases hx
  rw [master, renders] at hr
  refine ⟨master, renders, ⟨frame, informs⟩, calls.trans ?_⟩
  rcases Engine.run_notes hr with quiet | ⟨g, settled, only⟩
  · exact quiet.mono fun _ => .of_other
  · refine only.mono fun ev only arguments called => ?_
    exact ⟨g, Scenario.feeds_of_settled enough informs settled, only arguments called⟩

include enough in
/-- **A render with all its attempts** calls the transcoder for graphs that take the files of the
scenario for their inputs. -/
theorem renderWithRetry_feeds (h : c.Feeding s paths output w p w') (attempt left : Nat) :
    w.Notes (c.RendersFrom s paths output) ((c.renderWithRetry p attempt left).run w').2 := by
  have freed : ∀ w' : World σ, w'.Notes (fun ev => ¬ ev.isTranscoding) (w'.note .renderEnded) :=
    World.Notes.note (by simp [Event.isTranscoding])
  have paused : ∀ (n : Nat) (w' : World σ),
      w'.Notes (fun ev => ¬ ev.isTranscoding) ((c.pause n).run w').2 := fun n w' =>
    ⟨[.retried .render, .waited (c.settings.retry.delayFor n)],
      by simp [run_pause, World.wait, World.note], by simp [Event.isTranscoding]⟩
  refine renderWithRetry_rule
    (I := c.Feeding s paths output w)
    (Q := fun _ w' => w.Notes (c.RendersFrom s paths output) w')
    (fun h hx => ?_) (fun n h hx => ?_) left attempt h
  · exact ((h.once enough hx).notes (freed _)).calls
  · exact ((h.once enough hx).notes (freed _)).notes (paused n _)

end

theorem gather_world (stamp : Stamp) (r : Request) (dir : String) (w : World σ) :
    ((c.gather stamp r dir).exec w).2 = ((c.download r dir).run w).2 := by
  rw [exec_gather]
  rcases (c.download r dir).run w with ⟨e | paths, w₁⟩
  · rfl
  · dsimp only
    split <;> rfl

def Minds (c : Composer σ) (stamp : Stamp) (r : Request) (ev : Event) : Prop :=
  Fetcher.FetchesOnly (targets r.scenario (c.dirOf stamp r)) ev ∧
    c.RendersFrom r.scenario ((targets r.scenario (c.dirOf stamp r)).map (·.path))
      (Workspace.file (c.dirOf stamp r) "output.mp4") ev

theorem Minds.of_other {ev : Event} (quiet : ¬ ev.isTranscoding)
    (idle : ∀ url path ok, ev ≠ .fetched url path ok) : c.Minds stamp r ev :=
  ⟨fun url path ok fetched => absurd fetched (idle url path ok), .of_other quiet⟩

theorem gather_minds {res : Except ComposeError Prepared}
    (h : (c.gather stamp r (c.dirOf stamp r)).exec w = (res, w')) :
    w.Notes (c.Minds stamp r) w' := by
  have fetches : w.Notes (Fetcher.FetchesOnly (targets r.scenario (c.dirOf stamp r))) w' := by
    rw [← show _ = w' from congrArg Prod.snd h, gather_world]
    exact Fetcher.downloadAll_fetches w
  refine (fetches.and (gather_spec h).1.notes).mono fun ev ⟨fetched, downloading⟩ => ⟨fetched, ?_⟩
  apply RendersFrom.of_other
  cases ev <;> simp_all [Event.isDownloading, Event.isTranscoding]

theorem renderWithRetry_minds (obeys : c.fetcher.Obeys) {w₀ : World σ}
    (h : (c.gather stamp r (c.dirOf stamp r)).exec w₀ = (.ok p, w)) (attempt left : Nat) :
    w.Notes (c.Minds stamp r) ((c.renderWithRetry p attempt left).run w).2 := by
  obtain ⟨sources, enough, master, frame, laid⟩ := gather_laid obeys h
  obtain ⟨-, dir, -⟩ := (gather_spec h).2 p rfl
  have start : c.Feeding r.scenario p.sources (Workspace.file (c.dirOf stamp r) "output.mp4") w p w :=
    ⟨master, by rw [Prepared.output, dir], ⟨frame, laid ▸ .refl _⟩, .refl w⟩
  have rendering := (c.renderWithRetry_renders p attempt left w).notes
  refine (rendering.and (renderWithRetry_feeds enough start attempt left)).mono ?_
  rintro ev ⟨rendering, feeds⟩
  rw [sources] at feeds
  refine ⟨?_, feeds⟩
  rintro url path ok rfl
  cases rendering

/-- **A job** fetches and renders what it has to, whatever becomes of it. -/
theorem compose_minds (obeys : c.fetcher.Obeys) (stamp : Stamp) (r : Request) (w : World σ) :
    w.Notes (c.Minds stamp r) ((c.compose stamp r).run w).2 := by
  have goes := c.compose_goes stamp r w
  generalize ((c.compose stamp r).run w).1 = res, ((c.compose stamp r).run w).2 = w' at goes ⊢
  have ended : ∀ (result : JobResult) (w : World σ), w.Notes (c.Minds stamp r)
      (w.note (.jobEnded r.scenario.name result)) := fun result =>
    .note (.of_other (by simp [Event.isTranscoding]) (by simp))
  have moved : ∀ {d : Disk}, w.Notes (c.Minds stamp r) { w with disk := d } := .of_same rfl
  have closed : ∀ (ok : Bool) (w : World σ), w.Notes (c.Minds stamp r)
      (close (c.dirOf stamp r) r.scenario.name ok w) := fun ok w =>
    (show w.Notes (c.Minds stamp r) (w.onDisk _) from .of_same rfl).trans (ended _ _)
  cases goes with
  | rejected invalid => exact ended _ w
  | unopened valid made => exact moved
  | ungathered valid made gathered => exact (moved.trans (gather_minds gathered)).trans (closed _ _)
  | delivered valid made gathered rendered delivered =>
    have renders := renderWithRetry_minds obeys gathered 1 c.settings.retry.retries
    rw [rendered] at renders
    have delivers := (deliver_notes delivered).mono (Q := c.Minds stamp r) fun ev delivering =>
      .of_other (by cases ev <;> simp_all [Event.isDelivering, Event.isTranscoding])
        (by rintro url path ok rfl; cases delivering)
    exact (((moved.trans (gather_minds gathered)).trans renders).trans delivers).trans (closed _ _)

/-- Where the sources of a job go: into files of their own, and as these into the graph. -/
structure Supplied (c : Composer σ) (stamp : Stamp) (r : Request) : Prop where
  separate : Separate r.scenario (c.dirOf stamp r)
  compiled : ∀ w w' p, (c.gather stamp r (c.dirOf stamp r)).exec w = (.ok p, w') →
    ∀ s t g, s.board = p.board → (c.engine.complexFilters p.master).exec s = (.ok g, t) →
      r.scenario.Feeds ((targets r.scenario (c.dirOf stamp r)).map (·.path)) g
  job : ∀ w, ∃ evs, ((c.compose stamp r).run w).2.journal = w.journal ++ evs ∧
    (∀ url path ok, .fetched url path ok ∈ evs → ⟨url, path⟩ ∈ targets r.scenario (c.dirOf stamp r)) ∧
    ∀ arguments, .transcoded arguments ∈ evs → ∃ g : Graph,
      r.scenario.Feeds ((targets r.scenario (c.dirOf stamp r)).map (·.path)) g ∧
        arguments = g.arguments (Workspace.file (c.dirOf stamp r) "output.mp4") c.engine.settings

/-- **Sources reach the transcoder in the right places**, whatever their links look like. -/
theorem sources_supplied (obeys : c.fetcher.Obeys) (stamp : Stamp) (r : Request) :
    c.Supplied stamp r where
  separate := separate_targets r.scenario (c.dirOf stamp r)
  compiled := by
    rintro w w' p gathered s t g same compiled
    obtain ⟨sources, enough, master, frame, laid⟩ := gather_laid obeys gathered
    have looks : s.board.Informs t.board := (Engine.complexFilters_looks compiled).board.informs
    rw [same, laid] at looks
    rw [master] at compiled
    rw [← sources]
    exact Scenario.feeds_of_settled enough looks (Engine.settled_of_ok compiled)
  job := by
    intro w
    obtain ⟨evs, journal, only⟩ := compose_minds obeys stamp r w
    exact ⟨evs, journal, fun url path ok hev => (only _ hev).1 url path ok rfl,
      fun arguments hev => (only _ hev).2 arguments rfl⟩

end Composer

namespace Rehearsal

def ownFetching : Composer Crew :=
  { Crew.composer {} Crew.recordStore "work" with
    fetcher := FetchClient.fetcher ⟨.unreachable, "montage", Crew.countBytes⟩ }

def localBanner : Request :=
  { bannerRequest "job-1" with
    scenario := .bannerAppend "file:///clips/Source.MOV" "file:///clips/banner" }

theorem sources_supplied_local :
    let disk : Disk :=
      { entries := [(["clips"], .directory), (["clips", "Source.MOV"], .file 0),
          (["clips", "banner"], .file 1)], contents := [(0, [1]), (1, [2])], nextFile := 2 }
    let ended := (ownFetching.compose (stamp 1) localBanner).run ⟨{}, disk, [], 0⟩
    ownFetching.Supplied (stamp 1) localBanner ∧ ended.1.isOk ∧
      ended.2.journal.countP Event.isTranscoding = 1 ∧
      (Composer.targets localBanner.scenario (ownFetching.dirOf (stamp 1) localBanner)).map (·.path) =
        ["work/job-1-feed0001/00_source.mov", "work/job-1-feed0001/01_banner.mp4"] := by
  intro disk ended
  have obeys : ownFetching.fetcher.Obeys := FetchClient.fetcher_obeys _
  refine ⟨Composer.sources_supplied obeys _ _, ?_⟩
  decide +kernel

end Rehearsal

end Montage
