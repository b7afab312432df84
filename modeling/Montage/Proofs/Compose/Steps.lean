import Montage.Compose.Floor
import Montage.Proofs.Compose.Course

/-!
# Steps of a job

What one job can do in a step on the floor: everything before its first attempt, one of the
stages of an attempt, or everything after the last one. Which events a step notes, what it does
to its slot and that it brings the job closer to its end are read off its cases.
-/

namespace Montage

def World.gauge {σ : Type} (w : World σ) : Int :=
  w.count (· = .renderBegun) - w.count (· = .renderEnded)

namespace World

variable {σ : Type} {w w' : World σ}

theorem Notes.gauge_eq {P : Event → Prop} (h : w.Notes P w')
    (other : ∀ ev, P ev → ev ≠ .renderBegun ∧ ev ≠ .renderEnded) : w'.gauge = w.gauge := by
  rw [gauge, gauge, h.count_eq, h.count_eq]
  · intro ev hev
    simpa using (other ev hev).2
  · intro ev hev
    simpa using (other ev hev).1

theorem gauge_begun (w : World σ) : (w.note .renderBegun).gauge = w.gauge + 1 := by
  simp only [gauge, count_note]
  simp
  omega

theorem gauge_ended (w : World σ) : (w.note .renderEnded).gauge = w.gauge - 1 := by
  simp only [gauge, count_note]
  simp
  omega

end World

namespace Composer

variable {σ : Type} {c : Composer σ} {w w' : World σ}

theorem run_runMaster (p : Prepared) (w : World σ) :
    (c.runMaster p).run w =
      let (r, t) := (c.engine.run p.master p.output).exec ⟨p.board, w, none⟩
      ((r, { p with board := t.board }), t.world) := rfl

theorem notes_runMaster {p p' : Prepared} {r : Except RenderError RenderResult}
    (h : (c.runMaster p).run w = ((r, p'), w')) : w.Notes (·.isRun) w' := by
  rw [run_runMaster] at h
  rcases hr : (c.engine.run p.master p.output).exec ⟨p.board, w, none⟩ with ⟨r', t⟩
  rw [hr] at h
  cases h
  exact (Engine.run_noted hr).1

theorem gauge_runMaster {p p' : Prepared} {r : Except RenderError RenderResult}
    (h : (c.runMaster p).run w = ((r, p'), w')) : w'.gauge = w.gauge := by
  apply (notes_runMaster h).gauge_eq
  intro ev hev
  cases ev <;> simp_all [Event.isRun]

theorem gauge_pause (attempt : Nat) (w : World σ) : ((c.pause attempt).run w).2.gauge = w.gauge := by
  have notes : w.Notes (fun ev => ev = .retried .render ∨
      ev = .waited (c.settings.retry.delayFor attempt)) ((c.pause attempt).run w).2 :=
    ⟨[.retried .render, .waited (c.settings.retry.delayFor attempt)],
      by simp [run_pause, World.wait, World.note], by simp⟩
  apply notes.gauge_eq
  intro ev hev
  rcases hev with rfl | rfl <;> simp

theorem gauge_jobEnded (scenario : String) (result : JobResult) (w : World σ) :
    (w.note (.jobEnded scenario result)).gauge = w.gauge := by
  have notes : w.Notes (·.isEnd) (w.note (.jobEnded scenario result)) := .note (by rfl) w
  apply notes.gauge_eq
  intro ev hev
  cases ev <;> simp_all [Event.isEnd]

theorem gauge_gather {stamp : Stamp} {r : Request} {dir : String} {res : Except ComposeError Prepared}
    (h : (c.gather stamp r dir).exec w = (res, w')) : w'.gauge = w.gauge := by
  apply (gather_spec h).1.notes.gauge_eq
  intro ev hev
  cases ev <;> simp_all [Event.isDownloading]

theorem gauge_prepare (stamp : Stamp) (r : Request) (w : World σ) :
    ((c.prepare stamp r).exec w).2.gauge = w.gauge := by
  rw [exec_prepare]
  cases r.validate with
  | error e => exact gauge_jobEnded _ _ w
  | ok =>
    rcases Workspace.create w.disk (c.dirOf stamp r) with ⟨e | _, disk⟩
    · rfl
    · dsimp only
      rcases hg : (c.gather stamp r (c.dirOf stamp r)).exec { w with disk } with ⟨e | p, w₁⟩
      all_goals
        have same := gauge_gather hg
      · exact (gauge_jobEnded _ _ _).trans same
      · exact same

theorem run_conclude (p : Prepared) (render : Except RenderError RenderResult) (w : World σ) :
    (c.conclude p render).run w =
      let (result, w) := (c.deliver p render).exec w
      (result, close p.dir p.request.scenario.name result.isOk w) := rfl

theorem gauge_conclude (p : Prepared) (render : Except RenderError RenderResult) (w : World σ) :
    ((c.conclude p render).run w).2.gauge = w.gauge := by
  rw [run_conclude]
  rcases hd : (c.deliver p render).exec w with ⟨res, w₁⟩
  refine (gauge_jobEnded _ _ _).trans ((deliver_notes hd).gauge_eq ?_)
  intro ev hev
  cases ev <;> simp_all [Event.isDelivering]

end Composer

/-! ## Where a job stands -/

namespace JobState

def isRunning : JobState → Bool
  | .rendering _ _ _ (.running _) => true
  | _ => false

/-- Between the beginning of a render and its end, as the gauge counts them. -/
def isCounted : JobState → Bool
  | .rendering _ _ _ .counted => true
  | .rendering _ _ _ (.running _) => true
  | .rendering _ _ _ (.returned _) => true
  | _ => false

/-- Between taking a slot and giving it back. -/
def isInside : JobState → Bool
  | .rendering _ _ _ .admitted => true
  | .rendering _ _ _ (.uncounted _) => true
  | s => s.isCounted

def isPausing : JobState → Bool
  | .rendering _ _ _ .pausing => true
  | _ => false

def isWaiting : JobState → Bool
  | .rendering _ _ _ .waiting => true
  | _ => false

def hasEnded : JobState → Bool
  | .ended _ => true
  | _ => false

theorem isCounted_of_isRunning {s : JobState} (h : s.isRunning) : s.isCounted := by
  unfold isRunning at h
  split at h
  · rfl
  · cases h

theorem isInside_of_isCounted {s : JobState} (h : s.isCounted) : s.isInside := by
  unfold isCounted at h
  split at h
  · rfl
  · rfl
  · rfl
  · cases h

theorem elsewhere_of_isInside {s : JobState} (h : s.isInside) :
    ¬ s.isPausing ∧ ¬ s.isWaiting ∧ ¬ s.hasEnded := by
  rcases s with _ | ⟨p, n, left, stage⟩ | r
  · cases h
  · cases stage <;> simp_all [isInside, isCounted, isPausing, isWaiting, hasEnded]
  · cases h

end JobState

def RenderStage.left : RenderStage → Nat
  | .pausing => 8
  | .waiting => 7
  | .admitted => 6
  | .counted => 5
  | .running _ => 4
  | .returned _ => 3
  | .uncounted _ => 2
  | .released _ => 1

def JobState.left (retries : Nat) : JobState → Nat
  | .submitted => 9 * retries + 8
  | .rendering _ _ left stage => 9 * left + stage.left
  | .ended _ => 0

/-! ## What a step can be -/

namespace Floor

variable {σ : Type}

/-- What a job that has not ended can do in a step. -/
inductive JobStep (c : Composer σ) (stamp : Stamp) (request : Request) :
    JobState → World σ → JobState → World σ → Prop
  | unprepared {e w w'} (h : (c.prepare stamp request).exec w = (.error e, w')) :
    JobStep c stamp request .submitted w (.ended (.error e)) w'
  | prepared {p w w'} (h : (c.prepare stamp request).exec w = (.ok p, w')) :
    JobStep c stamp request .submitted w (.rendering p 1 c.settings.retry.retries .waiting) w'
  | wake (p n left w) :
    JobStep c stamp request (.rendering p n left .pausing) w (.rendering p n left .waiting) w
  | take (p n left w) :
    JobStep c stamp request (.rendering p n left .waiting) w (.rendering p n left .admitted) w
  | count (p n left w) :
    JobStep c stamp request (.rendering p n left .admitted) w (.rendering p n left .counted)
      (w.note .renderBegun)
  | start {p r p' w w'} (n left) (h : (c.runMaster p).run w = ((r, p'), w')) :
    JobStep c stamp request (.rendering p n left .counted) w (.rendering p' n left (.running r)) w'
  | finish (p n left r w) :
    JobStep c stamp request (.rendering p n left (.running r)) w (.rendering p n left (.returned r)) w
  | uncount (p n left r w) :
    JobStep c stamp request (.rendering p n left (.returned r)) w
      (.rendering p n left (.uncounted r)) (w.note .renderEnded)
  | release (p n left r w) :
    JobStep c stamp request (.rendering p n left (.uncounted r)) w
      (.rendering p n left (.released r)) w
  | pause (p n) {left r} (w) (more : Composer.again (left + 1) r) :
    JobStep c stamp request (.rendering p n (left + 1) (.released r)) w
      (.rendering p (n + 1) left .pausing) ((c.pause n).run w).2
  | conclude (p n) {left r} (w) (last : ¬ Composer.again left r) :
    JobStep c stamp request (.rendering p n left (.released r)) w
      (.ended ((c.conclude p r).run w).1) ((c.conclude p r).run w).2

variable {c : Composer σ} {stamp : Stamp} {request : Request} {s s' : JobState} {w w' : World σ}

theorem run_stepJob_submitted {u : Underway} (hu : u.state = .submitted) (w : World σ) :
    (stepJob c u).run w =
      match (c.prepare u.stamp u.request).exec w with
      | (.error e, w') => (.ended (.error e), w')
      | (.ok p, w') => (.rendering p 1 c.settings.retry.retries .waiting, w') := by
  rw [stepJob, hu]
  dsimp only
  rw [StateT.run_bind]
  rw [show (c.prepare u.stamp u.request).run.run w = (c.prepare u.stamp u.request).exec w from rfl]
  rcases (c.prepare u.stamp u.request).exec w with ⟨e | p, w'⟩ <;> rfl

theorem run_stepJob_counted {u : Underway} {p : Prepared} {n left : Nat}
    (hu : u.state = .rendering p n left .counted) (w : World σ) :
    (stepJob c u).run w =
      let ((r, p'), w') := (c.runMaster p).run w
      (.rendering p' n left (.running r), w') := by
  rw [stepJob, hu]
  rfl

theorem run_stepJob_released {u : Underway} {p : Prepared} {n left : Nat}
    {r : Except RenderError RenderResult} (hu : u.state = .rendering p n left (.released r))
    (w : World σ) :
    (stepJob c u).run w =
      if Composer.again left r then
        (.rendering p (n + 1) (left - 1) .pausing, ((c.pause n).run w).2)
      else (.ended ((c.conclude p r).run w).1, ((c.conclude p r).run w).2) := by
  rw [stepJob, hu]
  dsimp only
  by_cases more : Composer.again left r
  · rw [if_pos more, if_pos more]
    rfl
  · rw [if_neg more, if_neg more]
    rfl

theorem left_pos_of_again {left : Nat} {r : Except RenderError RenderResult}
    (h : Composer.again left r) : 0 < left := by
  cases r with
  | error e => simpa [Composer.again] using (Bool.and_eq_true_iff.mp h).2
  | ok => cases h

theorem stepJob_steps {u : Underway} (goesOn : ¬ u.state.hasEnded) (w : World σ) :
    JobStep c u.stamp u.request u.state w ((stepJob c u).run w).1 ((stepJob c u).run w).2 := by
  cases hu : u.state with
  | submitted =>
    rw [run_stepJob_submitted hu]
    rcases h : (c.prepare u.stamp u.request).exec w with ⟨e | p, w'⟩
    · exact .unprepared h
    · exact .prepared h
  | rendering p n left stage =>
    cases stage with
    | counted =>
      rw [run_stepJob_counted hu]
      rcases h : (c.runMaster p).run w with ⟨⟨r, p'⟩, w'⟩
      exact .start n left h
    | released r =>
      rw [run_stepJob_released hu]
      by_cases more : Composer.again left r
      · rw [if_pos more]
        obtain ⟨less, rfl⟩ := Nat.exists_eq_succ_of_ne_zero (left_pos_of_again more).ne'
        exact .pause p n w more
      · rw [if_neg more]
        exact .conclude p n w more
    | pausing =>
      rw [stepJob, hu]
      exact .wake p n left w
    | waiting =>
      rw [stepJob, hu]
      exact .take p n left w
    | admitted =>
      rw [stepJob, hu]
      exact .count p n left w
    | running r =>
      rw [stepJob, hu]
      exact .finish p n left r w
    | returned r =>
      rw [stepJob, hu]
      exact .uncount p n left r w
    | uncounted r =>
      rw [stepJob, hu]
      exact .release p n left r w
  | ended r =>
    rw [hu] at goesOn
    exact absurd rfl goesOn

/-! ## What is read off a step -/

theorem JobStep.left_lt (h : JobStep c stamp request s w s' w') :
    s'.left c.settings.retry.retries < s.left c.settings.retry.retries := by
  cases h <;> simp only [JobState.left, RenderStage.left] <;> omega

theorem JobStep.gauge (h : JobStep c stamp request s w s' w') :
    w'.gauge - (if s'.isCounted then 1 else 0) = w.gauge - if s.isCounted then 1 else 0 := by
  cases h with
  | unprepared h | prepared h =>
    have same := c.gauge_prepare stamp request w
    rw [h] at same
    simpa [JobState.isCounted] using same
  | count => simp [JobState.isCounted, World.gauge_begun]
  | start n left h => simp [JobState.isCounted, Composer.gauge_runMaster h]
  | uncount => simp [JobState.isCounted, World.gauge_ended]
  | pause => simp [JobState.isCounted, Composer.gauge_pause]
  | conclude => simp [JobState.isCounted, Composer.gauge_conclude]
  | wake | take | finish | release => rfl

/-- A job is inside from the step by which it takes a slot to the one by which it gives it back. -/
theorem JobStep.slotAfter {u : Underway} {free : Nat} (h : JobStep c stamp request u.state w s' w')
    (inside : u.permit = u.state.isInside) (room : u.state.isWaiting → 0 < free) :
    (u.slotAfter free).1 = s'.isInside ∧
      (u.slotAfter free).2 + (if s'.isInside then 1 else 0) =
        free + if u.state.isInside then 1 else 0 := by
  rw [Underway.slotAfter]
  generalize hs : u.state = s at h inside room
  cases h <;> simp_all [JobState.isInside, JobState.isCounted, JobState.isWaiting]
  omega

/-- A job that is inside does not wait for a time to come. -/
theorem JobStep.awake (h : JobStep c stamp request s w s' w') (inside : s.isInside) :
    w.Notes (fun ev => ∀ ms, ev ≠ .waited ms) w' := by
  cases h with
  | start n left h =>
    apply (Composer.notes_runMaster h).mono
    rintro ev run ms rfl
    cases run
  | count => exact .note (by simp) _
  | uncount => exact .note (by simp) _
  | take | finish | release => exact .refl _
  | unprepared | prepared | wake | pause | conclude => cases inside

end Floor

end Montage
