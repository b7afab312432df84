import Montage.Compose.Job
import Montage.Proofs.Journal
import Montage.Proofs.Pipeline.Sessions

/-!
# Rendering with further attempts

Whatever every attempt keeps up, and the pauses between attempts do, holds of a render
with all its attempts.
-/

namespace Montage

namespace Composer

variable {σ : Type} (c : Composer σ)

theorem run_renderOnce (p : Prepared) (w : World σ) :
    (c.renderOnce p).run w =
      let (r, t) := (c.engine.run p.master p.output).exec ⟨p.board, w.note .renderBegun, none⟩
      ((r, { p with board := t.board }), t.world) := rfl

theorem run_pause (attempt : Nat) (w : World σ) :
    ((c.pause attempt).run w).2 =
      (w.note (.retried .render)).wait (c.settings.retry.delayFor attempt) := rfl

theorem again_error_succ (left : Nat) (e : RenderError) :
    again (left + 1) (.error e) = e.retryable := by
  rw [again, decide_eq_true (Nat.succ_pos left), Bool.and_true]

theorem run_renderWithRetry_zero (p : Prepared) (attempt : Nat) (w : World σ) :
    (c.renderWithRetry p attempt 0).run w =
      let ((r, _), w') := (c.renderOnce p).run w
      (r, w'.note .renderEnded) := by
  rw [renderWithRetry, StateT.run_bind]
  rfl

theorem run_renderWithRetry_succ (p : Prepared) (attempt left : Nat) (w : World σ) :
    (c.renderWithRetry p attempt (left + 1)).run w =
      let ((r, p'), w') := (c.renderOnce p).run w
      match r with
      | .ok result => (.ok result, w'.note .renderEnded)
      | .error err =>
        if err.retryable then
          (c.renderWithRetry p' (attempt + 1) left).run
            ((c.pause attempt).run (w'.note .renderEnded)).2
        else (.error err, w'.note .renderEnded) := by
  rw [renderWithRetry, StateT.run_bind]
  rcases (c.renderOnce p).run w with ⟨⟨err | result, p'⟩, w'⟩
  · change StateT.run (if again (left + 1) (.error err) then do
        c.pause attempt
        c.renderWithRetry p' (attempt + 1) left
      else pure (.error err)) (w'.note .renderEnded) = _
    rw [again_error_succ]
    by_cases may : err.retryable
    · simp only [if_pos may]
      rfl
    · simp only [if_neg may]
      rfl
  · rfl

theorem run_renderWithRetry_again (p : Prepared) (n left : Nat) (w : World σ) :
    (c.renderWithRetry p n left).run w =
      let ((r, p'), w') := (c.renderOnce p).run w
      if again left r then
        (c.renderWithRetry p' (n + 1) (left - 1)).run ((c.pause n).run (w'.note .renderEnded)).2
      else (r, w'.note .renderEnded) := by
  cases left with
  | zero =>
    rw [run_renderWithRetry_zero]
    rcases (c.renderOnce p).run w with ⟨⟨e | result, p'⟩, w'⟩
    · simp [again]
    · rfl
  | succ left =>
    rw [run_renderWithRetry_succ]
    rcases (c.renderOnce p).run w with ⟨⟨e | result, p'⟩, w'⟩
    · dsimp only
      rw [again_error_succ]
      rfl
    · rfl

variable {c}

/-- **The rule for attempts.** `I` holds before every attempt, `Q` when there is no other one. -/
theorem renderWithRetry_rule {I : Prepared → World σ → Prop}
    {Q : Except RenderError RenderResult → World σ → Prop}
    (ends : ∀ {p w r p' w'}, I p w → (c.renderOnce p).run w = ((r, p'), w') →
      Q r (w'.note .renderEnded))
    (goesOn : ∀ {p w err p' w'} (attempt : Nat), I p w →
      (c.renderOnce p).run w = ((.error err, p'), w') →
      I p' ((c.pause attempt).run (w'.note .renderEnded)).2) (left attempt : Nat) {p : Prepared}
    {w : World σ} (h : I p w) :
    Q ((c.renderWithRetry p attempt left).run w).1 ((c.renderWithRetry p attempt left).run w).2 := by
  induction left generalizing p attempt w with
  | zero =>
    rw [run_renderWithRetry_zero]
    rcases hx : (c.renderOnce p).run w with ⟨⟨r, p'⟩, w'⟩
    exact ends h hx
  | succ left ih =>
    rw [run_renderWithRetry_succ]
    rcases hx : (c.renderOnce p).run w with ⟨⟨err | result, p'⟩, w'⟩
    · dsimp only
      split
      · exact ih (attempt + 1) (goesOn attempt h hx)
      · exact ends h hx
    · exact ends h hx

end Composer

/-! ## What is noted -/

def Event.isRendering : Event → Bool
  | .probed _ | .submitted _ | .transcoded _ | .rendered _ _ | .retried .render | .waited _
  | .renderBegun | .renderEnded => true
  | _ => false

def Event.isRun : Event → Bool
  | .probed _ | .submitted _ | .transcoded _ | .rendered _ _ => true
  | _ => false

theorem Event.isRun_of_isPreparation {ev : Event} (h : ev.isPreparation) : ev.isRun := by
  cases ev <;> simp_all [isPreparation, isRun]

theorem Event.isRendering_of_isRun {ev : Event} (h : ev.isRun) : ev.isRendering := by
  cases ev <;> simp_all [isRun, isRendering]

theorem Engine.run_noted {σ : Type} {e : Engine σ} {id : PipelineId} {output : String}
    {s t : Session σ} {r : Except RenderError RenderResult}
    (h : (e.run id output).exec s = (r, t)) :
    s.world.Notes (·.isRun) t.world ∧
      (r.isOk → ∃ ms, World.Noted (.rendered true ms) s.world t.world) := by
  have goes := e.run_goes id output s
  rw [h] at goes
  have before : ∀ {r : Except RenderError Graph} {u : Session σ}, (e.ready id output).exec s = (r, u) →
      s.world.Notes (·.isRun) u.world := by
    intro r u hr
    have prepared : s.world.Notes (·.isPreparation) u.world := (ready_prepares hr).journal
    exact prepared.mono fun _ => Event.isRun_of_isPreparation
  cases goes with
  | refused no reason => exact ⟨.refl _, fun ok => by cases ok⟩
  | unready _ _ hr =>
    exact ⟨(before hr).trans ⟨_, journal_endedAt .., by simp [Event.isRun]⟩, fun ok => by cases ok⟩
  | @called u g _ _ hr =>
    have called := @journal_called _ e output s.world.clock (e.verdict output g u) g u
    refine ⟨(before hr).trans ⟨_, called, by simp [Event.isRun]⟩, fun ok => ?_⟩
    rw [ok] at called
    exact ⟨_, (before hr).noted_trans ⟨_, called, List.mem_cons_of_mem _ List.mem_cons_self⟩⟩

namespace Composer

variable {σ : Type}

structure Renders (c : Composer σ) (w : World σ) (r : Except RenderError RenderResult)
    (w' : World σ) : Prop where
  notes : w.Notes (·.isRendering) w'
  good : ∀ result, r = .ok result → (∃ ms, World.Noted (.rendered true ms) w w') ∧
    ∃ id output s, ((c.engine.run id output).exec s).1 = .ok result

theorem Renders.later {c : Composer σ} {w w' w'' : World σ} {r : Except RenderError RenderResult}
    (h : c.Renders w r w') (later : w'.Notes (·.isRendering) w'') : c.Renders w r w'' := by
  refine ⟨h.notes.trans later, fun result hr => ?_⟩
  obtain ⟨⟨ms, noted⟩, run⟩ := h.good result hr
  exact ⟨⟨ms, noted.trans later⟩, run⟩

theorem renderOnce_renders {c : Composer σ} {p p' : Prepared} {w w' w'' : World σ}
    {r : Except RenderError RenderResult} (before : w.Notes (·.isRendering) w')
    (hx : (c.renderOnce p).run w' = ((r, p'), w'')) : c.Renders w r w'' := by
  rw [run_renderOnce] at hx
  rcases hr : (c.engine.run p.master p.output).exec ⟨p.board, w'.note .renderBegun, none⟩ with ⟨r', t⟩
  have started : w.Notes (·.isRendering) (w'.note .renderBegun) := before.trans (.note (by rfl) w')
  obtain ⟨notes, good⟩ := Engine.run_noted hr
  rw [hr] at hx
  cases hx
  refine ⟨started.trans (notes.mono fun _ => Event.isRendering_of_isRun), ?_⟩
  rintro result rfl
  obtain ⟨ms, noted⟩ := good rfl
  exact ⟨⟨ms, started.noted_trans noted⟩, _, _, _, congrArg Prod.fst hr⟩

/-- **A render with all its attempts.** If it is good, then its last run was. -/
theorem renderWithRetry_renders (c : Composer σ) (p : Prepared) (attempt left : Nat) (w : World σ) :
    c.Renders w ((c.renderWithRetry p attempt left).run w).1
      ((c.renderWithRetry p attempt left).run w).2 := by
  have freed : ∀ w' : World σ, w'.Notes (·.isRendering) (w'.note .renderEnded) := .note (by rfl)
  refine renderWithRetry_rule (I := fun _ w' => w.Notes (·.isRendering) w') (Q := c.Renders w)
    (fun before hx => ?_) (fun n before hx => ?_) left attempt (.refl w)
  · exact (renderOnce_renders before hx).later (freed _)
  · refine ((renderOnce_renders before hx).later (freed _)).notes.trans ?_
    exact ⟨[.retried .render, .waited (c.settings.retry.delayFor n)],
      by simp [run_pause, World.wait, World.note],
      by simp [Event.isRendering]⟩

end Composer

end Montage
