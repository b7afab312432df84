import Montage.Proofs.Compose.Balance
import Montage.Proofs.Compose.Window

/-!
# A job that is alone

A job that has the floor to itself does the same as a job that is carried out from beginning to
end: its stages are the loop of attempts. Time never goes back, so the job is always the next one
at its own time.
-/

namespace Montage

namespace Composer

variable {σ : Type} {c : Composer σ} {w w' : World σ}

/-! ## Time does not go back -/

theorem clock_gather {stamp : Stamp} {r : Request} {dir : String} {res : Except ComposeError Prepared}
    (h : (c.gather stamp r dir).exec w = (res, w')) : w.clock ≤ w'.clock := by
  rw [exec_gather] at h
  obtain ⟨win, reaches, -⟩ := c.fetcher.downloadAll_reaches c.settings.retry c.maxParallelDownloads
    (targets r.scenario dir) w
  have later : w.clock ≤ ((c.download r dir).run w).2.clock := by
    generalize hs : (win, _) = s at reaches
    have clocks : w.clock ≤ s.2.clock := by
      clear hs h
      induction reaches with
      | refl => exact Nat.le_refl _
      | tail _ turn ih => exact Nat.le_trans ih turn.clock_le
    rw [← hs] at clocks
    exact clocks
  rcases hd : (c.download r dir).run w with ⟨e | sources, w₁⟩
  all_goals
    rw [hd] at h later
  · cases h
    exact later
  · dsimp only at h
    split at h <;> cases h <;> exact later

theorem clock_prepare (stamp : Stamp) (r : Request) (w : World σ) :
    w.clock ≤ ((c.prepare stamp r).exec w).2.clock := by
  rw [exec_prepare]
  cases r.validate with
  | error e => exact Nat.le_refl _
  | ok =>
    rcases Workspace.create w.disk (c.dirOf stamp r) with ⟨e | _, disk⟩
    · exact Nat.le_refl _
    · dsimp only
      rcases hg : (c.gather stamp r (c.dirOf stamp r)).exec { w with disk } with ⟨e | p, w₁⟩
      all_goals
        have later := clock_gather hg
        exact later

theorem clock_endedAt (output : String) (start : Nat) (r : Except RenderError RenderResult)
    (s : Session σ) : (Engine.endedAt output start r s).world.clock = s.world.clock := by
  unfold Engine.endedAt
  dsimp only
  split <;> rfl

theorem clock_runMaster {p p' : Prepared} {r : Except RenderError RenderResult}
    (h : (c.runMaster p).run w = ((r, p'), w')) : w.clock ≤ w'.clock := by
  rw [run_runMaster] at h
  have goes := c.engine.run_goes p.master p.output ⟨p.board, w, none⟩
  rcases hr : (c.engine.run p.master p.output).exec ⟨p.board, w, none⟩ with ⟨r', t⟩
  rw [hr] at h goes
  cases h
  cases goes with
  | refused no reason => exact Nat.le_refl _
  | unready master bound ready =>
    rw [clock_endedAt]
    exact (Engine.ready_prepares ready).clock.ge
  | @called u g master bound ready =>
    rw [clock_endedAt]
    have same : u.world.clock = w.clock := (Engine.ready_prepares ready).clock
    exact same ▸ Nat.le_add_right _ _

theorem clock_renderOnce {p p' : Prepared} {r : Except RenderError RenderResult}
    (h : (c.renderOnce p).run w = ((r, p'), w')) : w.clock ≤ w'.clock :=
  clock_runMaster (w := w.note .renderBegun) h

theorem clock_publish (p : Prepared) (w : World σ) : ((c.publish p).exec w).2.clock = w.clock := by
  rw [exec_publish]
  rfl

theorem clock_recordVideo (v : PreparedVideo) (w : World σ) :
    ((c.recordVideo v).exec w).2.clock = w.clock := by
  rw [exec_recordVideo]
  rfl

theorem clock_conclude (p : Prepared) (render : Except RenderError RenderResult) (w : World σ) :
    ((c.conclude p render).run w).2.clock = w.clock := by
  have delivered : ((c.deliver p render).exec w).2.clock = w.clock := by
    cases render with
    | error e => rfl
    | ok render =>
      have published := clock_publish (c := c) p w
      rw [deliver, ExceptT.exec_bind]
      rcases hp : (c.publish p).exec w with ⟨e | stored, w₁⟩
      all_goals rw [hp] at published
      · exact published
      · have recorded := clock_recordVideo (c := c) (p.record stored render) w₁
        dsimp only
        rw [ExceptT.exec_bind]
        rcases hv : (c.recordVideo (p.record stored render)).exec w₁ with ⟨e | _, w₂⟩
        all_goals
          rw [hv] at recorded
          exact recorded.trans published
  rw [run_conclude]
  rcases hd : (c.deliver p render).exec w with ⟨res, w₁⟩
  rw [hd] at delivered
  exact delivered

/-! ## The loop -/

theorem conclude_of_renderOnce {p p' : Prepared} {r : Except RenderError RenderResult}
    (h : (c.renderOnce p).run w = ((r, p'), w')) (render : Except RenderError RenderResult) :
    c.conclude p' render = c.conclude p render := by
  rw [run_renderOnce] at h
  cases h
  rfl

end Composer

namespace Floor

variable {σ : Type} (c : Composer σ) (stamp : Stamp) (request : Request)

def sole (state : JobState) (permit : Bool) (free : Nat) (w : World σ) : Floor σ where
  jobs := [{ stamp, request, state, permit, time := w.clock }]
  free := free
  world := w

variable {c stamp request} {state : JobState} {permit : Bool} {free now : Nat} {w : World σ}

theorem ready?_sole (ready : ¬ state.hasEnded ∧ (state.isWaiting → 0 < free)) (due : now ≤ w.clock) :
    (sole stamp request state permit free w).ready? now
      { stamp, request, state, permit, time := w.clock } = some w.clock := by
  have isSome := (ready?_isSome_iff (f := sole stamp request state permit free w) now
    { stamp, request, state, permit, time := w.clock }).mpr ready
  rw [ready?] at isSome ⊢
  split at isSome
  · cases isSome
  · split at isSome
    · rename_i room
      rw [if_pos room, Nat.max_eq_right due]
    · cases isSome
  · rw [Nat.max_eq_right due]

theorem step_sole (ready : ¬ state.hasEnded ∧ (state.isWaiting → 0 < free)) (due : now ≤ w.clock) :
    (sole stamp request state permit free w).step c now 0 =
      let u : Underway := { stamp, request, state, permit, time := w.clock }
      let (state, w') := (stepJob c u).run w
      sole stamp request state (u.slotAfter free).1 (u.slotAfter free).2 w' :=
  step_of_ready rfl (ready?_sole ready due)

theorem run_sole (ready : ¬ state.hasEnded ∧ (state.isWaiting → 0 < free)) (due : now ≤ w.clock)
    (fuel : Nat) :
    Floor.run c (fuel + 1) now (sole stamp request state permit free w) =
      Floor.run c fuel w.clock
        (steps c w.clock 0 (stride state) (sole stamp request state permit free w)) := by
  rw [Floor.run]
  have first : soonest? ((sole stamp request state permit free w).due now) =
      some ⟨0, w.clock, w.clock⟩ := by
    rw [Floor.due]
    change soonest? (([(_, 0)] : List (Underway × Nat)).filterMap _) = _
    rw [List.filterMap_cons]
    dsimp only
    rw [ready?_sole ready due]
    rfl
  rw [first]
  rfl

theorem run_sole_ended (r : Except ComposeError Outcome) (fuel : Nat) :
    Floor.run c fuel now (sole stamp request (.ended r) permit free w) =
      sole stamp request (.ended r) permit free w := by
  cases fuel <;> rfl

theorem steps_waiting (p : Prepared) (n left : Nat) :
    steps c w.clock 0 3 (sole stamp request (.rendering p n left .waiting) false (free + 1) w) =
      let ((r, p'), w') := (c.renderOnce p).run w
      sole stamp request (.rendering p' n left (.running r)) true free w' := by
  have take : (sole stamp request (.rendering p n left .waiting) false (free + 1) w).step c w.clock 0 =
      sole stamp request (.rendering p n left .admitted) true free w :=
    step_sole ⟨Bool.false_ne_true, fun _ => Nat.succ_pos _⟩ (Nat.le_refl _)
  have count : (sole stamp request (.rendering p n left .admitted) true free w).step c w.clock 0 =
      sole stamp request (.rendering p n left .counted) true free (w.note .renderBegun) :=
    step_sole ⟨Bool.false_ne_true, fun no => by cases no⟩ (Nat.le_refl _)
  have start : (sole stamp request (.rendering p n left .counted) true free
      (w.note .renderBegun)).step c w.clock 0 =
      let ((r, p'), w') := (c.renderOnce p).run w
      sole stamp request (.rendering p' n left (.running r)) true free w' :=
    step_sole ⟨Bool.false_ne_true, fun no => by cases no⟩ (Nat.le_refl _)
  rw [steps, take, steps, count, steps, start]
  rfl

theorem steps_running (p : Prepared) (n left : Nat) (r : Except RenderError RenderResult) :
    steps c w.clock 0 4 (sole stamp request (.rendering p n left (.running r)) true free w) =
      if Composer.again left r then
        sole stamp request (.rendering p (n + 1) (left - 1) .pausing) false (free + 1)
          ((c.pause n).run (w.note .renderEnded)).2
      else
        let (result, w') := (c.conclude p r).run (w.note .renderEnded)
        sole stamp request (.ended result) false (free + 1) w' := by
  have finish : (sole stamp request (.rendering p n left (.running r)) true free w).step c w.clock 0 =
      sole stamp request (.rendering p n left (.returned r)) true free w :=
    step_sole ⟨Bool.false_ne_true, fun no => by cases no⟩ (Nat.le_refl _)
  have uncount : (sole stamp request (.rendering p n left (.returned r)) true free w).step c w.clock 0 =
      sole stamp request (.rendering p n left (.uncounted r)) true free (w.note .renderEnded) :=
    step_sole ⟨Bool.false_ne_true, fun no => by cases no⟩ (Nat.le_refl _)
  have release : (sole stamp request (.rendering p n left (.uncounted r)) true free
      (w.note .renderEnded)).step c w.clock 0 =
      sole stamp request (.rendering p n left (.released r)) false (free + 1) (w.note .renderEnded) :=
    step_sole ⟨Bool.false_ne_true, fun no => by cases no⟩ (Nat.le_refl _)
  have goesOn : (sole stamp request (.rendering p n left (.released r)) false (free + 1)
      (w.note .renderEnded)).step c w.clock 0 = _ :=
    step_sole ⟨Bool.false_ne_true, fun no => by cases no⟩ (Nat.le_refl _)
  rw [steps, finish, steps, uncount, steps, release, steps, goesOn, steps]
  dsimp only
  rw [run_stepJob_released rfl]
  by_cases more : Composer.again left r
  · rw [if_pos more, if_pos more]
    rfl
  · rw [if_neg more, if_neg more]
    rfl

theorem run_sole_attempt (p : Prepared) (n left fuel : Nat) (due : now ≤ w.clock) :
    Floor.run c (fuel + 2) now (sole stamp request (.rendering p n left .waiting) false (free + 1) w) =
      let ((r, p'), w') := (c.renderOnce p).run w
      if Composer.again left r then
        Floor.run c fuel w'.clock (sole stamp request (.rendering p' (n + 1) (left - 1) .pausing) false
          (free + 1) ((c.pause n).run (w'.note .renderEnded)).2)
      else
        let (result, w'') := (c.conclude p r).run (w'.note .renderEnded)
        sole stamp request (.ended result) false (free + 1) w'' := by
  have waits : ¬ (JobState.rendering p n left .waiting).hasEnded := Bool.false_ne_true
  rw [run_sole ⟨waits, fun _ => Nat.succ_pos _⟩ due]
  rw [show stride (.rendering p n left .waiting) = 3 from rfl, steps_waiting]
  rcases hx : (c.renderOnce p).run w with ⟨⟨r, p'⟩, w'⟩
  have later : w.clock ≤ w'.clock := Composer.clock_renderOnce hx
  have runs : ¬ (JobState.rendering p' n left (.running r)).hasEnded := Bool.false_ne_true
  dsimp only
  rw [run_sole ⟨runs, fun no => by cases no⟩ later]
  rw [show stride (.rendering p' n left (.running r)) = 4 from rfl, steps_running]
  split
  · rfl
  · -- what follows does not look at what the run has found out about the sources
    have same : c.conclude p' r = c.conclude p r := Composer.conclude_of_renderOnce hx r
    rw [same]
    exact run_sole_ended _ _

/-- **The stages of a job** are the loop of attempts. -/
theorem run_sole_waiting (left : Nat) {fuel : Nat} (enough : 3 * (left + 1) ≤ fuel) (p : Prepared)
    (n : Nat) (due : now ≤ w.clock) :
    Floor.run c fuel now (sole stamp request (.rendering p n left .waiting) false (free + 1) w) =
      let (r, w') := (c.renderWithRetry p n left).run w
      let (result, w'') := (c.conclude p r).run w'
      sole stamp request (.ended result) false (free + 1) w'' := by
  induction left generalizing fuel p n now w with
  | zero =>
    obtain ⟨fuel, rfl⟩ : ∃ m, fuel = m + 2 := ⟨fuel - 2, by omega⟩
    rw [run_sole_attempt p n 0 fuel due, Composer.run_renderWithRetry_again]
    rcases (c.renderOnce p).run w with ⟨⟨r, p'⟩, w'⟩
    have last : ¬ Composer.again 0 r := fun more => absurd (left_pos_of_again more) (Nat.lt_irrefl 0)
    dsimp only
    rw [if_neg last, if_neg last]
  | succ left ih =>
    obtain ⟨fuel, rfl⟩ : ∃ m, fuel = m + 1 + 2 := ⟨fuel - 3, by omega⟩
    rw [run_sole_attempt p n (left + 1) (fuel + 1) due, Composer.run_renderWithRetry_again]
    rcases hx : (c.renderOnce p).run w with ⟨⟨r, p'⟩, w'⟩
    dsimp only
    split
    · have pauses : ¬ (JobState.rendering p' (n + 1) left .pausing).hasEnded := Bool.false_ne_true
      have wake : (sole stamp request (.rendering p' (n + 1) left .pausing) false (free + 1)
          ((c.pause n).run (w'.note .renderEnded)).2).step c
            ((c.pause n).run (w'.note .renderEnded)).2.clock 0 =
          sole stamp request (.rendering p' (n + 1) left .waiting) false (free + 1)
            ((c.pause n).run (w'.note .renderEnded)).2 :=
        step_sole ⟨pauses, fun no => by cases no⟩ (Nat.le_refl _)
      rw [Nat.add_sub_cancel, run_sole ⟨pauses, fun no => by cases no⟩ (Nat.le_add_right _ _)]
      rw [show stride (.rendering p' (n + 1) left .pausing) = 1 from rfl, steps, wake, steps]
      rw [ih (by omega) p' (n + 1) (Nat.le_refl _)]
      have same : ∀ r, c.conclude p' r = c.conclude p r := Composer.conclude_of_renderOnce hx
      simp only [same]
    · rfl

end Floor

namespace Composer

variable {σ : Type} (c : Composer σ) (stamp : Stamp) (r : Request) (w : World σ)

theorem run_compose_conclude :
    (c.compose stamp r).run w =
      match (c.prepare stamp r).exec w with
      | (.error e, w) => (.error e, w)
      | (.ok p, w) =>
        let (render, w) := (c.renderWithRetry p 1 c.settings.retry.retries).run w
        (c.conclude p render).run w := by
  rw [run_compose]
  rfl

theorem clock_renderWithRetry (p : Prepared) (n left : Nat) (w : World σ) :
    w.clock ≤ ((c.renderWithRetry p n left).run w).2.clock := by
  refine renderWithRetry_rule (I := fun _ w' => w.clock ≤ w'.clock) (Q := fun _ w' => w.clock ≤ w'.clock)
    (fun before hx => ?_) (fun n before hx => ?_) left n (Nat.le_refl _)
  · have later : w.clock ≤ _ := Nat.le_trans before (clock_renderOnce hx)
    exact later
  · have later : w.clock ≤ _ := Nat.le_trans before (clock_renderOnce hx)
    exact Nat.le_trans later (Nat.le_add_right _ _)

theorem clock_compose : w.clock ≤ ((c.compose stamp r).run w).2.clock := by
  have prepared := c.clock_prepare stamp r w
  rw [run_compose_conclude]
  rcases hp : (c.prepare stamp r).exec w with ⟨e | p, w₁⟩
  all_goals rw [hp] at prepared
  · exact prepared
  · have rendered := c.clock_renderWithRetry p 1 c.settings.retry.retries w₁
    dsimp only
    rcases hr : (c.renderWithRetry p 1 c.settings.retry.retries).run w₁ with ⟨render, w₂⟩
    rw [hr] at rendered
    dsimp only
    rw [clock_conclude]
    exact Nat.le_trans prepared rendered

theorem run_submitted_one :
    Floor.run c (Floor.stepBound c 1) w.clock (Floor.submitted c [(stamp, r)] w) =
      let (result, w') := (c.compose stamp r).run w
      Floor.sole stamp r (.ended result) false c.slots w' := by
  obtain ⟨free, slots⟩ : ∃ free, c.slots = free + 1 := ⟨c.slots - 1, by rw [Composer.slots]; omega⟩
  obtain ⟨fuel, enough⟩ : ∃ fuel, Floor.stepBound c 1 = fuel + 1 := ⟨_, (Nat.succ_pred (by
    simp [Floor.stepBound])).symm⟩
  have begins : Floor.submitted c [(stamp, r)] w = Floor.sole stamp r .submitted false (free + 1) w := by
    rw [← slots]
    rfl
  have there : ¬ JobState.submitted.hasEnded ∧ (JobState.submitted.isWaiting → 0 < free + 1) :=
    ⟨Bool.false_ne_true, fun _ => Nat.succ_pos _⟩
  rw [begins, enough, Floor.run_sole there (Nat.le_refl _), show Floor.stride .submitted = 1 from rfl]
  rw [Floor.steps, Floor.steps, Floor.step_sole there (Nat.le_refl _), run_compose_conclude, slots]
  dsimp only
  rw [Floor.run_stepJob_submitted rfl]
  have later := c.clock_prepare stamp r w
  rcases hp : (c.prepare stamp r).exec w with ⟨e | p, w₁⟩
  all_goals rw [hp] at later
  · exact Floor.run_sole_ended _ _
  · have bound : 3 * (c.settings.retry.retries + 1) ≤ fuel := by
      rw [Floor.stepBound] at enough
      omega
    exact Floor.run_sole_waiting _ bound p 1 later

/-- **A job that is alone on the floor** is carried out from beginning to end. -/
theorem run_composeMany_one :
    (c.composeMany [(stamp, r)]).run w =
      let (result, w') := (c.compose stamp r).run w
      ([result], w') := by
  have ended := c.run_submitted_one stamp r w
  have later := c.clock_compose stamp r w
  rw [run_composeMany, List.length_singleton, ended]
  rcases hc : (c.compose stamp r).run w with ⟨result, w'⟩
  rw [hc] at later
  dsimp only [Floor.sole]
  rw [List.foldl_cons, List.foldl_nil, Nat.max_eq_right later]
  rfl

end Composer

end Montage
