import Montage.Metrics
import Montage.Proofs.Compose.Course
import Montage.Rehearsal.Crew
import Montage.Rehearsal.Requests

/-!
# The ends of jobs

The metrics count the ends of jobs by scenario and result, and a job that is turned down, or
that has a directory to work in, is counted once when it ends. A job whose directory cannot
be made ends as well, but nothing counts it.
-/

namespace Montage

open Metrics

def Event.endLabels : Event → Option Labels
  | .jobEnded scenario r => some [("result", r.name), ("scenario", scenario)]
  | _ => none

def World.ends {σ : Type} (w : World σ) : List Labels := w.journal.filterMap Event.endLabels

theorem endLabels_counted :
    ⟨"reelsmith_composer_jobs_total", "Total composer jobs", "counter", .counts Event.endLabels⟩ ∈
      families := by
  have here : families[8]? = some ⟨"reelsmith_composer_jobs_total", "Total composer jobs",
    "counter", .counts Event.endLabels⟩ := rfl
  exact List.mem_of_getElem? here

theorem Event.endLabels_eq_none {ev : Event} (h : ¬ ev.isEnd) : ev.endLabels = none := by
  cases ev with
  | jobEnded scenario r => exact absurd rfl h
  | _ => rfl

namespace World

variable {σ : Type} {w w' : World σ}

theorem ends_note (w : World σ) (ev : Event) :
    (w.note ev).ends = w.ends ++ ev.endLabels.toList := by
  rw [ends, note, List.filterMap_append, ends, List.filterMap_cons]
  cases ev.endLabels <;> rfl

theorem Notes.ends_eq {P : Event → Prop} (h : w.Notes P w') (other : ∀ ev, P ev → ¬ ev.isEnd) :
    w'.ends = w.ends :=
  h.filterMap_eq fun ev hev => Event.endLabels_eq_none (other ev hev)

end World

namespace Composer

variable {σ : Type} {c : Composer σ} {stamp : Stamp} {r : Request} {w w' : World σ}

theorem ends_gather {dir : String} {res : Except ComposeError Prepared}
    (h : (c.gather stamp r dir).exec w = (res, w')) : w'.ends = w.ends := by
  apply (gather_spec h).1.notes.ends_eq
  intro ev hev
  cases ev <;> simp_all [Event.isDownloading, Event.isEnd]

theorem ends_renderWithRetry {p : Prepared} {attempt left : Nat}
    {res : Except RenderError RenderResult}
    (h : (c.renderWithRetry p attempt left).run w = (res, w')) : w'.ends = w.ends := by
  have renders := c.renderWithRetry_renders p attempt left w
  rw [h] at renders
  apply renders.notes.ends_eq
  intro ev hev
  cases ev <;> simp_all [Event.isRendering, Event.isEnd]

theorem ends_deliver {p : Prepared} {render : Except RenderError RenderResult}
    {res : Except ComposeError Outcome} (h : (c.deliver p render).exec w = (res, w')) :
    w'.ends = w.ends := by
  apply (deliver_notes h).ends_eq
  intro ev hev
  cases ev <;> simp_all [Event.isDelivering, Event.isEnd]

theorem ends_close (dir scenario : String) (ok : Bool) (w : World σ) :
    (close dir scenario ok w).ends =
      w.ends ++ [[("result", (if ok then JobResult.success else .failed).name),
        ("scenario", scenario)]] := by
  rw [close, World.ends_note]
  rfl

def resultOf (r : Request) (res : Except ComposeError Outcome) : JobResult :=
  if r.validate.isOk then if res.isOk then .success else .failed else .rejected

theorem resultOf_rejected {e : ComposeError} (invalid : r.validate = .error e)
    (res : Except ComposeError Outcome) : resultOf r res = .rejected := by
  rw [resultOf, invalid]
  rfl

theorem resultOf_accepted (valid : r.validate = .ok ()) (res : Except ComposeError Outcome) :
    resultOf r res = if res.isOk then .success else .failed := by
  rw [resultOf, valid]
  rfl

structure EndCounted (c : Composer σ) (stamp : Stamp) (r : Request) (w : World σ)
    (res : Except ComposeError Outcome) (w' : World σ) : Prop where
  once : (r.validate = .ok () → (Workspace.create w.disk (c.dirOf stamp r)).1.isOk) →
    w'.ends = w.ends ++ [[("result", (resultOf r res).name), ("scenario", r.scenario.name)]]
  lost : r.validate = .ok () → ∀ e, (Workspace.create w.disk (c.dirOf stamp r)).1 = .error e →
    res = .error (.io e) ∧ w'.journal = w.journal
  shown : ⟨"reelsmith_composer_jobs_total", "Total composer jobs", "counter",
    .counts Event.endLabels⟩ ∈ families

theorem ends_counted (c : Composer σ) (stamp : Stamp) (r : Request) (w : World σ) :
    c.EndCounted stamp r w ((c.compose stamp r).run w).1 ((c.compose stamp r).run w).2 := by
  have goes := c.compose_goes stamp r w
  generalize ((c.compose stamp r).run w).1 = res, ((c.compose stamp r).run w).2 = w' at goes ⊢
  cases goes with
  | rejected invalid =>
    refine ⟨fun _ => ?_, fun valid => ?_, endLabels_counted⟩
    · rw [World.ends_note, resultOf_rejected invalid]
      rfl
    · cases valid.symm.trans invalid
  | unopened valid made =>
    refine ⟨?_, ?_, endLabels_counted⟩
    · intro opened
      have ok := opened valid
      rw [made] at ok
      cases ok
    · intro _ e failed
      rw [made] at failed
      cases failed
      exact ⟨rfl, rfl⟩
  | ungathered valid made gathered =>
    refine ⟨?_, ?_, endLabels_counted⟩
    · intro _
      rw [ends_close, ends_gather gathered, resultOf_accepted valid]
      rfl
    · intro _ e failed
      rw [made] at failed
      cases failed
  | delivered valid made gathered rendered delivered =>
    refine ⟨?_, ?_, endLabels_counted⟩
    · intro _
      rw [ends_close, ends_deliver delivered, ends_renderWithRetry rendered, ends_gather gathered,
        resultOf_accepted valid]
      rfl
    · intro _ e failed
      rw [made] at failed
      cases failed

/-- When the root is the name of a file, a job ends and no end is counted. -/
theorem end_lost_at_file :
    let c := Rehearsal.Crew.composer {} Rehearsal.Crew.recordStore "work"
    let w : World Rehearsal.Crew := ⟨{}, { entries := [(["work"], .file 0)], nextFile := 1 }, [], 0⟩
    let ended := (c.compose (Rehearsal.stamp 1) (Rehearsal.shortifyRequest "job-1" 15)).run w
    ended.1 = .error (.io .notADirectory) ∧ ended.2.ends = w.ends := by
  decide

end Composer

end Montage
