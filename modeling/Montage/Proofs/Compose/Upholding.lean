import Montage.Proofs.Compose.Downloads
import Montage.Proofs.Compose.Rendering

/-!
# What everyone upholds

Whoever a job works with may change its own state and the disk. If each of them keeps
something true of the two, whatever it is asked, then it stays true through a run, through
all attempts at a render and through the downloads.
-/

namespace Montage

open ExceptT (exec_bind exec_pure)

variable {σ α β : Type} {I : σ → Disk → Prop}

namespace RenderAct

def Keeps (I : σ → Disk → Prop) (x : RenderAct σ α) : Prop :=
  ∀ s : Session σ, I s.world.own s.world.disk → I (x.exec s).2.world.own (x.exec s).2.world.disk

theorem keeps_pure (a : α) : Keeps I (pure a : RenderAct σ α) := fun _ h => h

theorem keeps_throw (e : RenderError) : Keeps I (throw e : RenderAct σ α) := fun _ h => h

theorem keeps_get : Keeps I (get : RenderAct σ (Session σ)) := fun _ h => h

theorem keeps_note (ev : Event) : Keeps I (note ev : RenderAct σ Unit) := fun _ h => h

theorem keeps_lift (r : Except RenderError α) : Keeps I (lift r : RenderAct σ α) := by
  intro s h
  rw [exec_lift]
  exact h

theorem keeps_ask {f : σ → Disk → Except RenderError α × σ} (answer : ∀ own d, I own d → I (f own d).2 d) :
    Keeps I (ask f) := by
  intro s h
  rw [exec_ask]
  exact answer _ _ h

theorem keeps_board (f : Session σ → Board) :
    Keeps I (modify fun s => { s with board := f s } : RenderAct σ PUnit) := fun _ h => h

theorem Keeps.bind {x : RenderAct σ α} {k : α → RenderAct σ β} (hx : Keeps I x)
    (hk : ∀ a, Keeps I (k a)) : Keeps I (x >>= k) := by
  intro s h
  have first := hx s h
  rw [exec_bind]
  rcases he : x.exec s with ⟨e | a, t⟩
  all_goals rw [he] at first
  · exact first
  · exact hk a t first

theorem Keeps.mapM {k : α → RenderAct σ β} (hk : ∀ a, Keeps I (k a)) (l : List α) :
    Keeps I (l.mapM k) := by
  induction l with
  | nil => exact keeps_pure []
  | cons a l ih =>
    rw [List.mapM_cons]
    exact (hk a).bind fun b => ih.bind fun bs => keeps_pure (b :: bs)

end RenderAct

/-! ## Runs -/

namespace Engine

open RenderAct

structure Upholds (e : Engine σ) (output : String) (I : σ → Disk → Prop) : Prop where
  inspect : ∀ path own d, I own d → I (e.probe.inspect path own d).2 d
  prepare : ∀ own d, I own d → I own (d.createDirectories (Path.parent output)).2
  transcode : ∀ (g : Graph) watch own d, I own d →
    I (e.transcoder.run (g.arguments output e.settings) watch own d).own
      (e.transcoder.run (g.arguments output e.settings) watch own d).disk
  cleanUp : ∀ own d, I own d → I own (d.removeFileIfAny output)

namespace Upholds

variable {e : Engine σ} {output : String} (h : e.Upholds output I)
include h

theorem duration (path : String) (own : σ) (d : Disk) (hI : I own d) :
    I (e.probe.duration path own d).2 d := by
  have asked := h.inspect path own d hI
  rw [Probe.duration]
  split <;> simp_all

theorem hasAudio (path : String) (own : σ) (d : Disk) (hI : I own d) :
    I (e.probe.hasAudio path own d).2 d := by
  have asked := h.inspect path own d hI
  rw [Probe.hasAudio]
  split <;> simp_all

theorem factsOf (id : PipelineId) (s : BoundSource) : Keeps I (e.factsOf id s) := by
  rw [Engine.factsOf]
  split
  · exact keeps_pure _
  · refine (keeps_note _).bind fun _ => (keeps_ask (h.duration s.input)).bind fun _ => ?_
    refine (keeps_note _).bind fun _ => (keeps_ask (h.hasAudio s.input)).bind fun _ => ?_
    exact (keeps_board _).bind fun _ => keeps_pure _

theorem streamOf (id : PipelineId) : Keeps I (e.streamOf id) := by
  rw [Engine.streamOf]
  refine keeps_get.bind fun s => ?_
  split
  · exact keeps_throw _
  · exact (h.factsOf id _).bind fun _ => keeps_pure _

theorem complexFilters (id : PipelineId) : Keeps I (e.complexFilters id) := by
  rw [Engine.complexFilters]
  refine keeps_get.bind fun s => ?_
  have rest : Keeps I (do
      let ids ← lift (s.board.flatten id)
      let streams ← ids.mapM e.streamOf
      lift (Graph.compile streams (s.board.get id).frame)) :=
    (keeps_lift _).bind fun ids => (Keeps.mapM h.streamOf ids).bind fun _ => keeps_lift _
  dsimp only
  split
  · exact (keeps_throw _).bind fun _ => rest
  · exact rest

theorem ready (id : PipelineId) : Keeps I (e.ready id output) := by
  have prepared : Keeps I (prepareOutput output) := by
    intro s hs
    rw [exec_prepareOutput]
    split
    · exact hs
    · exact h.prepare _ _ hs
  rw [Engine.ready]
  exact (h.complexFilters id).bind fun _ => (keeps_note _).bind fun _ =>
    prepared.bind fun _ => keeps_pure _

theorem endedAt (start : Nat) (r : Except RenderError RenderResult) (s : Session σ)
    (hs : I s.world.own s.world.disk) :
    I (Engine.endedAt output start r s).world.own (Engine.endedAt output start r s).world.disk := by
  rw [Engine.endedAt]
  split
  · exact hs
  · exact h.cleanUp _ _ hs

theorem run (id : PipelineId) : Keeps I (e.run id output) := by
  intro s hs
  have goes := e.run_goes id output s
  have before := h.ready id s hs
  generalize (e.run id output).exec s = ended at goes ⊢
  cases goes with
  | refused no reason => exact hs
  | unready _ _ hr =>
    rw [hr] at before
    exact h.endedAt _ _ _ before
  | called _ _ hr =>
    rw [hr] at before
    exact h.endedAt _ _ _ (h.transcode _ _ _ _ before)

end Upholds

end Engine

/-! ## Jobs -/

namespace Composer

variable {c : Composer σ} {dir : String} {r : Request}

structure Upholds (c : Composer σ) (dir : String) (r : Request) (I : σ → Disk → Prop) : Prop where
  fetch : ∀ t ∈ targets r.scenario dir, ∀ own d, I own d →
    I (c.fetcher.save t.url t.path own d).2.1 (c.fetcher.save t.url t.path own d).2.2
  engine : c.engine.Upholds (Workspace.file dir "output.mp4") I

namespace Upholds

variable (h : c.Upholds dir r I)
include h

theorem steps {w w' : World σ} (hs : c.fetcher.Steps (targets r.scenario dir) w w')
    (hw : I w.own w.disk) : I w'.own w'.disk := by
  induction hs with
  | refl => exact hw
  | tail _ step ih =>
    cases step with
    | fetch ht => exact h.fetch _ ht _ _ ih
    | note _ => exact ih
    | clock n => exact ih

theorem renderWithRetry {p : Prepared} (hp : p.dir = dir) (attempt left : Nat) {w : World σ}
    (hw : I w.own w.disk) :
    I ((c.renderWithRetry p attempt left).run w).2.own
      ((c.renderWithRetry p attempt left).run w).2.disk := by
  have once : ∀ {p p' : Prepared} {w₁ w₂ : World σ} {res}, p.dir = dir ∧ I w₁.own w₁.disk →
      (c.renderOnce p).run w₁ = ((res, p'), w₂) → p'.dir = dir ∧ I w₂.own w₂.disk := by
    intro p p' w₁ w₂ res before hx
    have ran := h.engine.run p.master ⟨p.board, w₁.note .renderBegun, none⟩ before.2
    rw [← before.1] at ran
    rw [run_renderOnce] at hx
    cases hx
    exact ⟨before.1, ran⟩
  refine renderWithRetry_rule (I := fun p w₁ => p.dir = dir ∧ I w₁.own w₁.disk)
    (Q := fun _ w₁ => I w₁.own w₁.disk) (fun before hx => (once before hx).2)
    (fun _ before hx => ?_) left attempt ⟨hp, hw⟩
  -- the pause touches neither the disk nor anyone's state
  obtain ⟨same, after⟩ := once before hx
  exact ⟨same, after⟩

end Upholds

end Composer

end Montage
