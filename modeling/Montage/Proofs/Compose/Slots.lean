import Montage.Metrics
import Montage.Proofs.Compose.Alone
import Montage.Rehearsal.Crew
import Montage.Rehearsal.Requests

/-!
# Render slots

Jobs that share a composer take single steps in any order. No more of them render at a time than
there are slots, the gauge of active renders lies between the renders that run and the slots, and
a job that pauses has no slot. A job that is alone does the same as the loop of attempts.
-/

namespace Montage

/-! ## Every floor -/

namespace Floor

variable {σ : Type}

structure Kept (c : Composer σ) (g : Int) (f : Floor σ) : Prop where
  runs : f.jobs.countP (·.state.isRunning) ≤ max 1 c.settings.maxParallelRenders
  atLeast : g + f.jobs.countP (·.state.isRunning) ≤ f.world.gauge
  atMost : f.world.gauge ≤ g + (max 1 c.settings.maxParallelRenders : Nat)
  slots : f.free + f.jobs.countP Underway.permit = max 1 c.settings.maxParallelRenders
  pausing : ∀ u ∈ f.jobs, u.state.isPausing → u.permit = false
  awake : ∀ now i u, f.jobs[i]? = some u → u.permit →
    f.world.Notes (fun ev => ∀ ms, ev ≠ .waited ms) (f.step c now i).world
  /-- Who waits for a slot can take one if fewer jobs have one than there are. -/
  admits : ∀ now, ∀ u ∈ f.jobs, u.state.isWaiting →
    ((f.ready? now u).isSome ↔ f.jobs.countP Underway.permit < max 1 c.settings.maxParallelRenders)
  goesOn : ∀ now, (∀ u ∈ f.jobs, u.state.hasEnded) ∨ ∃ u ∈ f.jobs, (f.ready? now u).isSome
  afterwards : (∀ u ∈ f.jobs, u.state.hasEnded) →
    f.world.gauge = g ∧ f.free = max 1 c.settings.maxParallelRenders

variable {c : Composer σ} {f : Floor σ} {slots : Nat} {g : Int}

theorem Balanced.counted_le (h : f.Balanced slots g) :
    f.jobs.countP (·.state.isCounted) ≤ f.jobs.countP Underway.permit := by
  apply List.countP_mono_left
  intro u hu counted
  rw [h.permits u hu]
  exact JobState.isInside_of_isCounted counted

theorem Balanced.permit_eq_false (h : f.Balanced slots g) {u : Underway} (hu : u ∈ f.jobs)
    (elsewhere : u.state.isPausing ∨ u.state.hasEnded) : u.permit = false := by
  rw [h.permits u hu]
  apply Bool.eq_false_iff.mpr
  intro inside
  obtain ⟨notPausing, -, notEnded⟩ := JobState.elsewhere_of_isInside inside
  rcases elsewhere with pausing | ended
  · exact notPausing pausing
  · exact notEnded ended

theorem Balanced.awake (h : f.Balanced slots g) (now i : Nat) {u : Underway}
    (hi : f.jobs[i]? = some u) (permit : u.permit) :
    f.world.Notes (fun ev => ∀ ms, ev ≠ .waited ms) (f.step c now i).world := by
  have inside : u.state.isInside := by rwa [← h.permits u (List.mem_of_getElem? hi)]
  obtain ⟨same, -⟩ | ⟨u', time, s, w, hi', -, taken, stepped⟩ := step_cases c f now i
  · rw [same]
    exact .refl _
  · obtain rfl := Option.some.inj (hi.symm.trans hi')
    rw [stepped]
    exact taken.awake inside

theorem Balanced.admits (h : f.Balanced slots g) (now : Nat) {u : Underway}
    (waiting : u.state.isWaiting) :
    (f.ready? now u).isSome ↔ f.jobs.countP Underway.permit < slots := by
  have total := h.slots
  rw [ready?_isSome_iff]
  constructor
  · intro ready
    have room := ready.2 waiting
    omega
  · intro fewer
    refine ⟨fun ended => ?_, fun _ => by omega⟩
    unfold JobState.isWaiting at waiting
    split at waiting
    · rename_i hs
      rw [hs] at ended
      cases ended
    · cases waiting

theorem Balanced.afterwards (h : f.Balanced slots g) (ended : ∀ u ∈ f.jobs, u.state.hasEnded) :
    f.world.gauge = g ∧ f.free = slots := by
  have none : f.jobs.countP Underway.permit = 0 := by
    apply List.countP_eq_zero.mpr
    intro u hu
    rw [h.permit_eq_false hu (.inr (ended u hu))]
    exact Bool.false_ne_true
  have counted := h.counted_le
  obtain ⟨total, -, gauge⟩ := h
  omega

theorem Balanced.kept (h : f.Balanced (max 1 c.settings.maxParallelRenders) g) : f.Kept c g := by
  have counted := h.counted_le
  have runs : f.jobs.countP (·.state.isRunning) ≤ f.jobs.countP (·.state.isCounted) :=
    List.countP_mono_left fun u _ => JobState.isCounted_of_isRunning
  have gauge := h.gauge
  have total := h.slots
  constructor
  · omega
  · omega
  · omega
  · exact total
  · exact fun u hu pausing => h.permit_eq_false hu (.inl pausing)
  · exact fun now i u hi permit => h.awake now i hi permit
  · exact fun now u _ waiting => h.admits now waiting
  · exact fun now => h.goesOn (by omega) now
  · exact fun ended => h.afterwards ended

end Floor

/-! ## The loop of attempts -/

/-- As many renders have begun as have ended, and so it is whenever there is a pause. -/
structure Idle (evs : List Event) : Prop where
  balanced : evs.count .renderBegun = evs.count .renderEnded
  paused : ∀ front ms back, evs = front ++ .waited ms :: back →
    front.count .renderBegun = front.count .renderEnded

namespace Idle

variable {evs more : List Event}

theorem nil : Idle [] := ⟨rfl, fun front ms back h => by simp at h⟩

theorem append (h : Idle evs) (k : Idle more) : Idle (evs ++ more) := by
  refine ⟨by simp only [List.count_append, h.balanced, k.balanced], fun front ms back split => ?_⟩
  rcases List.append_eq_append_iff.mp split with ⟨between, rfl, hmore⟩ | ⟨rest, hevs, hback⟩
  · simp only [List.count_append, h.balanced, k.paused between ms back hmore]
  · cases rest with
    | nil =>
      rw [List.append_nil] at hevs
      rw [← hevs]
      exact h.balanced
    | cons ev rest =>
      obtain rfl := (List.cons.inj hback).1
      exact h.paused front ms rest hevs

theorem render (h : ∀ ev ∈ evs, ev.isRun) : Idle (.renderBegun :: evs ++ [.renderEnded]) := by
  have quiet : ∀ {ev : Event}, ev ∈ evs → ev ≠ .renderBegun ∧ ev ≠ .renderEnded ∧ ∀ ms, ev ≠ .waited ms := by
    intro ev hev
    have run := h ev hev
    cases ev <;> simp_all [Event.isRun]
  constructor
  · have begun : evs.count .renderBegun = 0 := List.count_eq_zero.mpr fun hm => (quiet hm).1 rfl
    have ended : evs.count .renderEnded = 0 := List.count_eq_zero.mpr fun hm => (quiet hm).2.1 rfl
    simp [begun, ended]
  · intro front ms back split
    have mem : .waited ms ∈ .renderBegun :: evs ++ [.renderEnded] := by simp [split]
    rcases List.mem_append.mp mem with hm | hm
    · rcases List.mem_cons.mp hm with no | hm
      · cases no
      · exact absurd rfl ((quiet hm).2.2 ms)
    · simp at hm

theorem pause (ms : Nat) : Idle [.retried .render, .waited ms] := by
  refine ⟨rfl, fun front ms' back split => ?_⟩
  rcases front with _ | ⟨ev, _ | ⟨ev', front⟩⟩
  · cases split
  · cases split
    rfl
  · simp at split

end Idle

namespace Composer

variable {σ : Type} {c : Composer σ}

theorem idle_renderOnce {p p' : Prepared} {r : Except RenderError RenderResult} {w w' : World σ}
    (h : (c.renderOnce p).run w = ((r, p'), w')) :
    ∃ evs, (w'.note .renderEnded).journal = w.journal ++ evs ∧ Idle evs := by
  obtain ⟨evs, journal, run⟩ := notes_runMaster (w := w.note .renderBegun) h
  refine ⟨.renderBegun :: evs ++ [.renderEnded], ?_, .render run⟩
  simp [World.note, journal]

/-- **The loop pauses between renders only.** -/
theorem idle_renderWithRetry (c : Composer σ) (p : Prepared) (n left : Nat) (w : World σ) :
    ∃ evs, ((c.renderWithRetry p n left).run w).2.journal = w.journal ++ evs ∧ Idle evs := by
  refine renderWithRetry_rule (I := fun _ w' => ∃ evs, w'.journal = w.journal ++ evs ∧ Idle evs)
    (Q := fun _ w' => ∃ evs, w'.journal = w.journal ++ evs ∧ Idle evs)
    (fun before hx => ?_) (fun n before hx => ?_) left n ⟨[], (List.append_nil _).symm, .nil⟩
  · obtain ⟨evs, journal, idle⟩ := before
    obtain ⟨more, journal', idle'⟩ := idle_renderOnce hx
    exact ⟨evs ++ more, by rw [journal', journal, List.append_assoc], idle.append idle'⟩
  · obtain ⟨evs, journal, idle⟩ := before
    obtain ⟨more, journal', idle'⟩ := idle_renderOnce hx
    refine ⟨evs ++ more ++ [.retried .render, .waited (c.settings.retry.delayFor n)], ?_,
      (idle.append idle').append (.pause _)⟩
    rw [run_pause]
    change (_ ++ [Event.retried .render]) ++ [Event.waited _] = _
    rw [journal', journal]
    simp

end Composer

/-! ## The slots of a composer -/

structure SlotsKept {σ : Type} (c : Composer σ) : Prop where
  kept : ∀ (requests : List (Stamp × Request)) (w : World σ) (schedule : List (Nat × Nat)),
    ((Floor.submitted c requests w).follow c schedule).Kept c w.gauge
  ends : WellFounded fun f' f : Floor σ =>
    ∃ now i u, f.jobs[i]? = some u ∧ (f.ready? now u).isSome ∧ f' = f.step c now i
  /-- Several jobs at once are submitted and follow a schedule, by which all of them end. -/
  many : ∀ requests w, ∃ schedule, let f := (Floor.submitted c requests w).follow c schedule
    (∀ u ∈ f.jobs, u.state.hasEnded) ∧
      f.jobs.map Floor.result? = ((c.composeMany requests).run w).1.map some ∧
      ((c.composeMany requests).run w).2.journal = f.world.journal ∧
      ((c.composeMany requests).run w).2.disk = f.world.disk
  alone : ∀ stamp r w, (c.composeMany [(stamp, r)]).run w =
    let (result, w') := (c.compose stamp r).run w
    ([result], w')
  loop : ∀ p w, ∃ evs, ((c.renderWithRetry p 1 c.settings.retry.retries).run w).2.journal =
    w.journal ++ evs ∧ Idle evs
  /-- The metrics show the gauge of the world, unless more renders ended than began. -/
  shown : ∀ w : World σ, 0 ≤ w.gauge → (Metrics.activeRenders { journal := w.journal } : Int) = w.gauge

theorem slots_kept {σ : Type} (c : Composer σ) : SlotsKept c where
  kept requests w schedule := ((Floor.balanced_submitted requests w).follow schedule).kept
  ends := by
    apply Subrelation.wf (r := fun f' f : Floor σ => f'.left c < f.left c) _ (measure (Floor.left c)).wf
    rintro f' f ⟨now, i, u, hi, ready, rfl⟩
    exact (Floor.left_step now i).2 u hi ready
  many requests w := by
    obtain ⟨schedule, follows, ended⟩ := (Floor.balanced_submitted (c := c) requests w).run
      (by rw [Composer.slots]; omega) (Floor.left_submitted requests w) w.clock
    refine ⟨schedule, ended, ?_⟩
    rw [Composer.run_composeMany, follows]
    exact ⟨Floor.map_result? ended, rfl, rfl⟩
  alone := c.run_composeMany_one
  loop p w := c.idle_renderWithRetry p 1 c.settings.retry.retries w
  shown w pos := by
    rw [World.gauge, World.count, World.count] at pos ⊢
    simp only [Metrics.activeRenders]
    omega

/-- Where there is one slot, a job whose first render has timed out pauses without it, and another
job renders. -/
theorem slots_kept_one :
    let c : Composer Rehearsal.Crew :=
      { Rehearsal.Crew.composer {} Rehearsal.Crew.recordStore "work" with
        settings := { maxParallelRenders := 0 } }
    let crew : Rehearsal.Crew := { transcoding := { errors := [.timeout 60] } }
    let requests := [(Rehearsal.stamp 1, Rehearsal.shortifyRequest "job-1" 15),
      (Rehearsal.stamp 2, Rehearsal.shortifyRequest "job-2" 15)]
    let f := (Floor.submitted c requests ⟨crew, {}, [], 0⟩).follow c
      (List.replicate 8 (0, 0) ++ List.replicate 4 (0, 1))
    SlotsKept c ∧ f.jobs.map (·.state.isPausing) = [true, false] ∧
      f.jobs.map (·.state.isRunning) = [false, true] ∧ f.jobs.map (·.permit) = [false, true] ∧
      f.free = 0 ∧ f.world.gauge = 1 := by
  intro c crew requests f
  exact ⟨slots_kept c, by decide +kernel⟩

end Montage
