import Mathlib.Order.Bounds.Basic
import Montage.Proofs.Compose.Course
import Montage.Proofs.Compose.Layouts

/-!
# The law of attempts

Downloads and renders are attempted again by one law. The outcomes that attempts would have, were
every one followed by another, form a sequence; the last attempt is the first one that succeeds,
that fails for good, or that is the last one allowed. Its outcome is the result, and between two
attempts lies one pause, of the length that the policy has for it.
-/

namespace Montage

structure Attempts (S ε α : Type) where
  once : S → Except ε α × S
  /-- What lies between attempt number `n` and the next one. -/
  pause : Nat → S → S
  retryable : ε → Bool

namespace Attempts

def settles {ε α : Type} (retryable : ε → Bool) : Except ε α → Bool
  | .ok _ => true
  | .error e => !retryable e

/-- Of outcomes in a row, the first one being number 1, `n` is the number of the first one that
settles the matter, or of the last one that is allowed. -/
def IsLast {ε α : Type} (retryable : ε → Bool) (o : Nat → Except ε α) (most n : Nat) : Prop :=
  IsLeast {i | 0 < i ∧ (settles retryable (o i) ∨ i = most)} n

variable {S ε α : Type} (a : Attempts S ε α)

/-- The state in which attempt number `i + 1` is made, if all those before it are made. -/
def before (s : S) : Nat → S
  | 0 => s
  | i + 1 => a.pause (i + 1) (a.once (before s i)).2

def outcome (s : S) (i : Nat) : Except ε α := (a.once (a.before s (i - 1))).1

def run (n : Nat) : Nat → S → Except ε α × S
  | 0, s => a.once s
  | left + 1, s =>
    if settles a.retryable (a.once s).1 then a.once s else run (n + 1) left (a.pause n (a.once s).2)

theorem run_before (s : S) (left i : Nat) :
    ∃ n, IsLeast {j | i < j ∧ (settles a.retryable (a.outcome s j) ∨ j = i + left + 1)} n ∧
      a.run (i + 1) left (a.before s i) = a.once (a.before s (n - 1)) := by
  induction left generalizing i with
  | zero => exact ⟨i + 1, ⟨⟨Nat.lt_succ_self i, .inr rfl⟩, fun j hj => hj.1⟩, rfl⟩
  | succ left ih =>
    by_cases settled : settles a.retryable (a.outcome s (i + 1))
    · refine ⟨i + 1, ⟨⟨Nat.lt_succ_self i, .inl settled⟩, fun j hj => hj.1⟩, ?_⟩
      exact if_pos settled
    · obtain ⟨n, ⟨⟨later, last⟩, least⟩, hrun⟩ := ih (i + 1)
      refine ⟨n, ⟨⟨by omega, by rwa [show i + (left + 1) + 1 = i + 1 + left + 1 by omega]⟩, ?_⟩, ?_⟩
      · rintro j ⟨hj, hlast⟩
        -- the attempt that has just failed is not the last one
        have ne : j ≠ i + 1 := by
          rintro rfl
          exact hlast.elim settled (by omega)
        exact least ⟨by omega, by rwa [show i + 1 + left + 1 = i + (left + 1) + 1 by omega]⟩
      · exact (if_neg settled).trans hrun

/-- **Attempts end with the last one.** -/
theorem run_spec (s : S) (left : Nat) :
    ∃ n, IsLast a.retryable (a.outcome s) (left + 1) n ∧
      a.run 1 left s = a.once (a.before s (n - 1)) := by
  have h := a.run_before s left 0
  rwa [Nat.zero_add] at h

theorem IsLast.error_of_lt {retryable : ε → Bool} {o : Nat → Except ε α} {most n i : Nat}
    (h : IsLast retryable o most n) (pos : 0 < i) (hi : i < n) :
    ∃ e, o i = .error e ∧ retryable e := by
  have open_ : ¬ settles retryable (o i) := fun settled =>
    absurd (h.2 ⟨pos, .inl settled⟩) (Nat.not_le.mpr hi)
  cases ho : o i with
  | ok x =>
    rw [ho] at open_
    exact absurd rfl open_
  | error e =>
    rw [ho] at open_
    exact ⟨e, rfl, by simpa [settles] using open_⟩

end Attempts

/-! ## What the attempts note -/

def Event.paused? : Event → Option Nat
  | .waited ms => some ms
  | _ => none

def pauseEvents (policy : RetryPolicy) (what : Retried) (n : Nat) : List Event :=
  [.retried what, .waited (policy.delayFor n)]

/-- Among other events, `k` further attempts are noted, each one after the pause that the policy has
for it. -/
structure Paced (policy : RetryPolicy) (what : Retried) (k : Nat) (evs : List Event) : Prop where
  retried : evs.count (.retried what) = k
  paused : evs.filterMap Event.paused? = (List.range k).map fun i => policy.delayFor (i + 1)

/-- No further attempt is noted, and no pause. -/
def Unpaced (what : Retried) (evs : List Event) : Prop :=
  .retried what ∉ evs ∧ evs.filterMap Event.paused? = []

namespace Paced

variable {policy : RetryPolicy} {what : Retried} {k : Nat} {evs more : List Event}

theorem nil : Paced policy what 0 [] := ⟨rfl, rfl⟩

theorem append (h : Paced policy what k evs) (quiet : Unpaced what more) :
    Paced policy what k (evs ++ more) where
  retried := by rw [List.count_append, h.retried, List.count_eq_zero_of_not_mem quiet.1, Nat.add_zero]
  paused := by rw [List.filterMap_append, h.paused, quiet.2, List.append_nil]

theorem pause (h : Paced policy what k evs) :
    Paced policy what (k + 1) (evs ++ pauseEvents policy what (k + 1)) where
  retried := by simp [List.count_append, h.retried, pauseEvents]
  paused := by
    rw [List.filterMap_append, h.paused, List.range_succ, List.map_append]
    rfl

end Paced

def World.paused {σ : Type} (policy : RetryPolicy) (what : Retried) (n : Nat) (w : World σ) :
    World σ := (w.note (.retried what)).wait (policy.delayFor n)

theorem World.journal_paused {σ : Type} (policy : RetryPolicy) (what : Retried) (n : Nat)
    (w : World σ) : (w.paused policy what n).journal = w.journal ++ pauseEvents policy what n := by
  simp [paused, wait, note, pauseEvents]

/-! ## Renders -/

def Prepared.Runnable (p : Prepared) : Prop :=
  (p.board.get p.master).isMaster ∧ p.board.isBound p.master

instance (p : Prepared) : Decidable p.Runnable := inferInstanceAs (Decidable (_ ∧ _))

namespace Composer

variable {σ : Type} {c : Composer σ} {stamp : Stamp} {r : Request} {w w' : World σ} {p : Prepared}

theorem eq_of_prepare_ok (h : (c.prepare stamp r).exec w = (.ok p, w')) :
    r.scenario.parameterFault? = none ∧ ∃ sources,
      p = ⟨r, stamp, c.dirOf stamp r, sources, 0,
        r.scenario.board ⟨c.engine.settings.width, c.engine.settings.height⟩ sources⟩ := by
  rw [exec_prepare] at h
  split at h
  · cases h
  · dsimp only at h
    split at h
    · cases h
    · rw [exec_gather] at h
      split at h
      · rename_i gathered
        split at gathered
        · cases gathered
        · split at gathered
          · cases gathered
          · rename_i laid
            obtain ⟨-, faultless, e⟩ := Scenario.of_layout_eq_ok laid
            obtain ⟨rfl, rfl⟩ := Prod.mk.inj e
            obtain rfl := Except.ok.inj (Prod.mk.inj gathered).1
            obtain rfl := Except.ok.inj (Prod.mk.inj h).1
            exact ⟨faultless, _, rfl⟩
      · cases h

theorem runnable_of_prepare (h : (c.prepare stamp r).exec w = (.ok p, w')) : p.Runnable := by
  obtain ⟨-, sources, rfl⟩ := eq_of_prepare_ok h
  exact ⟨rfl, rfl⟩

end Composer

open Metrics

theorem Engine.run_counted {σ : Type} {e : Engine σ} {id : PipelineId} {output : String}
    {s t : Session σ} {r : Except RenderError RenderResult} {evs : List Event}
    (h : (e.run id output).exec s = (r, t)) (journal : t.world.journal = s.world.journal ++ evs) :
    evs.countP (Activity.rendered true) + evs.countP (Activity.rendered false) =
      if (s.board.get id).isMaster ∧ s.board.isBound id then 1 else 0 := by
  have performed : e.Performs id output s r t →
      evs.countP (Activity.rendered true) + evs.countP (Activity.rendered false) = 1 := by
    intro performs
    have counted := performs.counted
    simp only [World.count, journal, List.countP_append, Nat.add_left_cancel_iff] at counted
    rw [counted, counted]
    cases r.isOk <;> rfl
  have goes := e.run_goes id output s
  rw [h] at goes
  cases goes with
  | refused no reason =>
    rw [List.self_eq_append_right] at journal
    rw [journal, if_neg no]
    rfl
  | unready master bound hr =>
    rw [if_pos ⟨master, bound⟩]
    exact performed (performs_unready bound hr)
  | called master bound hr =>
    rw [if_pos ⟨master, bound⟩]
    exact performed (performs_ready bound hr)

theorem counted_append {P : Prop} [Decidable P] {evs more : List Event} {i : Nat}
    (counted : evs.countP (Activity.rendered true) + evs.countP (Activity.rendered false) =
      if P then i else 0)
    (counted' : more.countP (Activity.rendered true) + more.countP (Activity.rendered false) =
      if P then 1 else 0) :
    (evs ++ more).countP (Activity.rendered true) + (evs ++ more).countP (Activity.rendered false) =
      if P then i + 1 else 0 := by
  rw [List.countP_append, List.countP_append]
  by_cases may : P
  · rw [if_pos may] at counted counted' ⊢
    omega
  · rw [if_neg may] at counted counted' ⊢
    omega

theorem Event.unpaced_of_isRun {what : Retried} {evs : List Event} (h : ∀ ev ∈ evs, ev.isRun) :
    Unpaced what evs := by
  refine ⟨fun hm => Bool.false_ne_true (h _ hm), List.filterMap_eq_nil_iff.mpr fun ev hev => ?_⟩
  have := h ev hev
  cases ev <;> simp_all [isRun, paused?]

namespace Composer

variable {σ : Type} (c : Composer σ)

def attempts : Attempts (Prepared × World σ) RenderError RenderResult where
  once := fun (p, w) =>
    let ((r, p'), w') := (c.renderOnce p).run w
    (r, p', w'.note .renderEnded)
  pause n := fun (p, w) => (p, w.paused c.settings.retry .render n)
  retryable := RenderError.retryable

theorem settles_eq_not_again (left : Nat) (r : Except RenderError RenderResult) :
    Attempts.settles RenderError.retryable r = !again (left + 1) r := by
  cases r with
  | error e => rw [again_error_succ, Attempts.settles]
  | ok => rfl

theorem run_renderWithRetry (p : Prepared) (n left : Nat) (w : World σ) :
    (c.renderWithRetry p n left).run w =
      let (r, _, w') := c.attempts.run n left (p, w)
      (r, w') := by
  induction left generalizing p n w with
  | zero => exact c.run_renderWithRetry_zero p n w
  | succ left ih =>
    rw [run_renderWithRetry_again, Attempts.run]
    rcases hx : (c.renderOnce p).run w with ⟨⟨r, p'⟩, w'⟩
    have once : c.attempts.once (p, w) = (r, p', w'.note .renderEnded) := by
      simp [attempts, hx]
    have settles : Attempts.settles c.attempts.retryable r = !again (left + 1) r :=
      settles_eq_not_again left r
    rw [once]
    dsimp only
    rw [settles]
    by_cases more : again (left + 1) r
    · rw [if_pos more, more]
      exact ih p' (n + 1) _
    · rw [if_neg more, Bool.eq_false_iff.mpr more]
      rfl

/-- **One attempt** is one run, in a slot of its own. -/
theorem attempts_once_spec (p : Prepared) (w : World σ) :
    ∃ evs, (c.attempts.once (p, w)).2.2.journal = w.journal ++ evs ∧ Unpaced .render evs ∧
      evs.count .renderBegun = 1 ∧
      evs.countP (Activity.rendered true) + evs.countP (Activity.rendered false) =
        (if p.Runnable then 1 else 0) ∧
      ((c.attempts.once (p, w)).2.1.Runnable ↔ p.Runnable) := by
  rcases hr : (c.engine.run p.master p.output).exec ⟨p.board, w.note .renderBegun, none⟩ with ⟨r, t⟩
  have once : c.attempts.once (p, w) = (r, { p with board := t.board }, t.world.note .renderEnded) := by
    simp only [attempts, run_renderOnce, hr]
  have learns := c.engine.run_learns p.master p.output ⟨p.board, w.note .renderBegun, none⟩
  obtain ⟨⟨evs, journal, run⟩, -⟩ := Engine.run_noted hr
  have counted := Engine.run_counted hr journal
  have unpaced : Unpaced .render evs := Event.unpaced_of_isRun run
  obtain ⟨notRetried, notPaused⟩ := unpaced
  have notTaken : evs.count .renderBegun = 0 :=
    List.count_eq_zero_of_not_mem fun hm => Bool.false_ne_true (run _ hm)
  rw [hr] at learns
  rw [once]
  refine ⟨.renderBegun :: evs ++ [.renderEnded], ?_, ⟨?_, ?_⟩, ?_, ?_, ?_⟩
  · simp [World.note, journal]
  · simp [notRetried]
  · rw [List.filterMap_append, List.filterMap_cons_none rfl, notPaused]
    rfl
  · simp [notTaken]
  · simp only [List.countP_append, List.countP_cons, Activity.rendered, List.countP_nil,
      Bool.false_eq_true, if_false, Nat.add_zero]
    exact counted
  · exact iff_of_eq (by rw [Prepared.Runnable, learns.informs.isMaster, learns.informs.isBound, Prepared.Runnable])

theorem paced_before (p : Prepared) (w : World σ) (i : Nat) :
    ∃ evs, (c.attempts.before (p, w) i).2.journal = w.journal ++ evs ∧
      Paced c.settings.retry .render i evs ∧ evs.count .renderBegun = i ∧
      evs.countP (Activity.rendered true) + evs.countP (Activity.rendered false) =
        (if p.Runnable then i else 0) ∧
      ((c.attempts.before (p, w) i).1.Runnable ↔ p.Runnable) := by
  induction i with
  | zero => exact ⟨[], (List.append_nil _).symm, .nil, rfl, by simp, .rfl⟩
  | succ i ih =>
    obtain ⟨evs, journal, paced, taken, counted, runnable⟩ := ih
    obtain ⟨more, journal', quiet, taken', counted', runnable'⟩ :=
      c.attempts_once_spec (c.attempts.before (p, w) i).1 (c.attempts.before (p, w) i).2
    refine ⟨evs ++ more ++ pauseEvents c.settings.retry .render (i + 1), ?_, ?_, ?_, ?_, ?_⟩
    · change ((c.attempts.once (c.attempts.before (p, w) i)).2.2.paused _ .render (i + 1)).journal = _
      rw [World.journal_paused, journal', journal, List.append_assoc, List.append_assoc,
        List.append_assoc]
    · exact (paced.append quiet).pause
    · rw [List.count_append, List.count_append, taken, taken']
      rfl
    · have uncounted : ∀ ok, (evs ++ more ++ pauseEvents c.settings.retry .render (i + 1)).countP
          (Activity.rendered ok) = (evs ++ more).countP (Activity.rendered ok) := fun _ =>
        List.countP_append
      rw [uncounted, uncounted]
      exact counted_append counted (counted'.trans (if_congr runnable rfl rfl))
    · exact runnable'.trans runnable

end Composer

/-! ## The law -/

theorem RetryPolicy.max_attempts (policy : RetryPolicy) :
    max 1 policy.maxAttempts = policy.retries + 1 := by
  rw [retries]
  omega

/-- Of the outcomes `o` that attempts would have, were every one followed by another, number `n` is
the last one that is waited for. It is the result `r`, and `evs` are noted meanwhile. -/
structure Obeys {ε α : Type} (policy : RetryPolicy) (what : Retried) (retryable : ε → Bool)
    (o : Nat → Except ε α) (n : Nat) (r : Except ε α) (evs : List Event) : Prop where
  last : Attempts.IsLast retryable o (max 1 policy.maxAttempts) n
  result : r = o n
  again : ∀ i, 0 < i → i < n → ∃ e, o i = .error e ∧ retryable e
  paced : Paced policy what (n - 1) evs

theorem Attempts.IsLast.obeys {ε α : Type} {policy : RetryPolicy} {what : Retried}
    {retryable : ε → Bool} {o : Nat → Except ε α} {n : Nat} {evs : List Event}
    (h : Attempts.IsLast retryable o (policy.retries + 1) n) (paced : Paced policy what (n - 1) evs) :
    Obeys policy what retryable o n (o n) evs where
  last := policy.max_attempts ▸ h
  result := rfl
  again _ pos hi := h.error_of_lt pos hi
  paced := paced

namespace Composer

variable {σ : Type} (c : Composer σ)

structure RendersBy (p : Prepared) (w : World σ) (n : Nat) (r : Except RenderError RenderResult)
    (w' : World σ) (evs : List Event) : Prop where
  journal : w'.journal = w.journal ++ evs
  obeys : Obeys c.settings.retry .render RenderError.retryable (c.attempts.outcome (p, w)) n r evs
  taken : evs.count .renderBegun = n
  counted : evs.countP (Activity.rendered true) + evs.countP (Activity.rendered false) =
    if p.Runnable then n else 0

theorem renderWithRetry_by (p : Prepared) (w : World σ) :
    ∃ n evs, c.RendersBy p w n ((c.renderWithRetry p 1 c.settings.retry.retries).run w).1
      ((c.renderWithRetry p 1 c.settings.retry.retries).run w).2 evs := by
  let a := c.attempts
  obtain ⟨n, last, hrun⟩ := a.run_spec (p, w) c.settings.retry.retries
  obtain ⟨evs, journal, paced, taken, counted, runnable⟩ := c.paced_before p w (n - 1)
  obtain ⟨more, journal', quiet, taken', counted', -⟩ :=
    c.attempts_once_spec (a.before (p, w) (n - 1)).1 (a.before (p, w) (n - 1)).2
  have pos : 0 < n := last.1.1
  rw [c.run_renderWithRetry, hrun]
  refine ⟨n, evs ++ more, ?_, last.obeys (paced.append quiet), ?_, ?_⟩
  · rw [← List.append_assoc, ← journal]
    exact journal'
  · rw [List.count_append, taken, taken']
    exact Nat.sub_add_cancel pos
  · have runs := counted_append counted (counted'.trans (if_congr runnable rfl rfl))
    rwa [Nat.sub_add_cancel pos] at runs

end Composer

end Montage
