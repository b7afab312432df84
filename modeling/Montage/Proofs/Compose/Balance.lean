import Montage.Proofs.Compose.Steps

/-!
# Slots and jobs in balance

Every slot is free or has one job, jobs have slots inside only, and the gauge is ahead by the
jobs that are counted. A step of any job keeps this up, so it holds after every schedule. As
long as some job has not ended one of them can go on, and no schedule lets jobs go on for ever.
-/

namespace Montage

theorem countP_set_add {α : Type} (p : α → Bool) {l : List α} {i : Nat} {a b : α}
    (hi : l[i]? = some a) :
    (l.set i b).countP p + (if p a then 1 else 0) = l.countP p + if p b then 1 else 0 := by
  obtain ⟨bound, rfl⟩ := List.getElem?_eq_some_iff.mp hi
  rw [List.countP_set bound]
  by_cases ha : p l[i]
  · have pos : 0 < l.countP p := List.countP_pos_iff.mpr ⟨_, List.getElem_mem bound, ha⟩
    rw [if_pos ha]
    omega
  · rw [if_neg ha]
    omega

namespace Floor

variable {σ : Type} {c : Composer σ} {f : Floor σ} {slots : Nat} {g : Int}

/-! ## A step on the floor -/

theorem ready?_isSome_iff (now : Nat) (u : Underway) :
    (f.ready? now u).isSome ↔ ¬ u.state.hasEnded ∧ (u.state.isWaiting → 0 < f.free) := by
  rw [ready?]
  rcases u.state with _ | ⟨p, n, left, stage⟩ | r
  · simp [JobState.hasEnded, JobState.isWaiting]
  · cases stage with
    | waiting =>
      dsimp only
      split <;> simp_all [JobState.hasEnded, JobState.isWaiting]
    | _ => simp [JobState.hasEnded, JobState.isWaiting]
  · simp [JobState.hasEnded]

theorem step_of_ready {now i time : Nat} {u : Underway} (hi : f.jobs[i]? = some u)
    (ready : f.ready? now u = some time) :
    f.step c now i =
      let (state, world) := (stepJob c u).run { f.world with clock := time }
      let (permit, free) := u.slotAfter f.free
      { jobs := f.jobs.set i { u with state, permit, time := world.clock }, free, world } := by
  unfold step
  split
  · rename_i none
    cases hi.symm.trans none
  · rename_i u' hi'
    cases hi.symm.trans hi'
    split
    · rename_i no
      cases ready.symm.trans no
    · rename_i time' ready'
      cases ready.symm.trans ready'
      rfl

variable (c f) in
/-- A step does nothing, or it is a step of a job that is ready. -/
theorem step_cases (now i : Nat) :
    f.step c now i = f ∧ (∀ u, f.jobs[i]? = some u → ¬ (f.ready? now u).isSome) ∨
      ∃ u time s w, f.jobs[i]? = some u ∧ (u.state.isWaiting → 0 < f.free) ∧
        JobStep c u.stamp u.request u.state { f.world with clock := time } s w ∧
        f.step c now i = ⟨f.jobs.set i { u with
          state := s, permit := (u.slotAfter f.free).1, time := w.clock }, (u.slotAfter f.free).2, w⟩ := by
  cases hi : f.jobs[i]? with
  | none =>
    refine .inl ⟨?_, fun u no => by cases no⟩
    rw [step, hi]
  | some u =>
    cases ready : f.ready? now u with
    | none =>
      refine .inl ⟨?_, fun u' same => ?_⟩
      · rw [step, hi]
        dsimp only
        rw [ready]
      · cases same
        rw [ready]
        exact Bool.false_ne_true
    | some time =>
      obtain ⟨goesOn, room⟩ := (ready?_isSome_iff now u).mp (by rw [ready]; rfl)
      exact .inr ⟨u, time, _, _, rfl, room, stepJob_steps goesOn _, step_of_ready hi ready⟩

/-! ## Balance -/

structure Balanced (slots : Nat) (g : Int) (f : Floor σ) : Prop where
  slots : f.free + f.jobs.countP Underway.permit = slots
  permits : ∀ u ∈ f.jobs, u.permit = u.state.isInside
  gauge : f.world.gauge = g + f.jobs.countP (·.state.isCounted)

theorem Balanced.step (h : f.Balanced slots g) (now i : Nat) :
    (f.step c now i).Balanced slots g := by
  obtain ⟨same, -⟩ | ⟨u, time, s, w, hi, room, taken, stepped⟩ := step_cases c f now i
  · rwa [same]
  · obtain ⟨total, permits, gauge⟩ := h
    have inside := permits u (List.mem_of_getElem? hi)
    obtain ⟨permit, slot⟩ := taken.slotAfter inside room
    have moved : w.gauge - _ = f.world.gauge - _ := taken.gauge
    obtain ⟨u', hu⟩ : ∃ u' : Underway, u' =
      { u with state := s, permit := (u.slotAfter f.free).1, time := w.clock } := ⟨_, rfl⟩
    have permit' : u'.permit = s.isInside := by rw [hu, ← permit]
    have state' : u'.state = s := by rw [hu]
    -- one job is changed, and both sums change by what it does
    have held := countP_set_add Underway.permit (b := u') hi
    have counted := countP_set_add (·.state.isCounted) (b := u') hi
    rw [stepped, ← hu]
    rw [inside, permit'] at held
    rw [state'] at counted
    constructor
    · dsimp only at slot ⊢
      omega
    · intro k hk
      rcases List.mem_or_eq_of_mem_set hk with hk | rfl
      · exact permits k hk
      · rw [permit', state']
    · dsimp only at counted ⊢
      split at moved <;> split at moved <;> simp_all <;> omega

theorem balanced_submitted (requests : List (Stamp × Request)) (w : World σ) :
    (submitted c requests w).Balanced c.slots w.gauge := by
  refine ⟨?_, ?_, ?_⟩
  · simp [submitted, List.countP_map, Function.comp_def]
  · intro u hu
    obtain ⟨request, -, rfl⟩ := List.mem_map.mp hu
    rfl
  · simp [submitted, List.countP_map, Function.comp_def, JobState.isCounted]

def follow (c : Composer σ) (schedule : List (Nat × Nat)) (f : Floor σ) : Floor σ :=
  schedule.foldl (fun f (now, i) => f.step c now i) f

theorem follow_append (first later : List (Nat × Nat)) (f : Floor σ) :
    f.follow c (first ++ later) = (f.follow c first).follow c later := List.foldl_append ..

theorem Balanced.follow (h : f.Balanced slots g) (schedule : List (Nat × Nat)) :
    (f.follow c schedule).Balanced slots g := by
  induction schedule generalizing f with
  | nil => exact h
  | cons turn schedule ih => exact ih (h.step turn.1 turn.2)

/-! ## Going on -/

theorem Balanced.ready_of_inside (h : f.Balanced slots g) (full : f.free = 0) (pos : 0 < slots)
    (now : Nat) : ∃ u ∈ f.jobs, (f.ready? now u).isSome := by
  have some_ : 0 < f.jobs.countP Underway.permit := by
    have total := h.slots
    omega
  obtain ⟨u, hu, permit⟩ := List.countP_pos_iff.mp some_
  have inside : u.state.isInside := by rwa [← h.permits u hu]
  obtain ⟨-, notWaiting, notEnded⟩ := JobState.elsewhere_of_isInside inside
  exact ⟨u, hu, (ready?_isSome_iff now u).mpr ⟨notEnded, fun waiting => absurd waiting notWaiting⟩⟩

/-- **No job is held up for ever**: they have all ended, or one of them can go on. -/
theorem Balanced.goesOn (h : f.Balanced slots g) (pos : 0 < slots) (now : Nat) :
    (∀ u ∈ f.jobs, u.state.hasEnded) ∨ ∃ u ∈ f.jobs, (f.ready? now u).isSome := by
  by_cases full : f.free = 0
  · exact .inr (h.ready_of_inside full pos now)
  · by_cases all : ∀ u ∈ f.jobs, u.state.hasEnded
    · exact .inl all
    · push Not at all
      obtain ⟨u, hu, notEnded⟩ := all
      refine .inr ⟨u, hu, (ready?_isSome_iff now u).mpr ⟨by simpa using notEnded, fun _ => ?_⟩⟩
      exact Nat.pos_of_ne_zero full

def stepsIn (retries : Nat) : List Underway → Nat
  | [] => 0
  | u :: rest => u.state.left retries + stepsIn retries rest

theorem stepsIn_set (retries : Nat) {jobs : List Underway} {i : Nat} {u : Underway} (u' : Underway)
    (hi : jobs[i]? = some u) :
    stepsIn retries (jobs.set i u') + u.state.left retries =
      stepsIn retries jobs + u'.state.left retries := by
  induction jobs generalizing i with
  | nil => cases hi
  | cons first rest ih =>
    cases i with
    | zero =>
      obtain rfl : first = u := Option.some.inj hi
      simp only [List.set_cons_zero, stepsIn]
      omega
    | succ i =>
      have later := ih hi
      simp only [List.set_cons_succ, stepsIn]
      omega

theorem left_eq_zero_of_stepsIn {retries : Nat} {jobs : List Underway}
    (h : stepsIn retries jobs = 0) : ∀ u ∈ jobs, u.state.left retries = 0 := by
  induction jobs with
  | nil => exact fun u hu => by cases hu
  | cons first rest ih =>
    obtain ⟨none, later⟩ := Nat.add_eq_zero_iff.mp h
    exact List.forall_mem_cons.mpr ⟨none, ih later⟩

def left (c : Composer σ) (f : Floor σ) : Nat := stepsIn c.settings.retry.retries f.jobs

theorem left_step (now i : Nat) :
    (f.step c now i).left c ≤ f.left c ∧
      ∀ u, f.jobs[i]? = some u → (f.ready? now u).isSome → (f.step c now i).left c < f.left c := by
  obtain ⟨same, still⟩ | ⟨u, time, s, w, hi, -, taken, stepped⟩ := step_cases c f now i
  · rw [same]
    exact ⟨Nat.le_refl _, fun u hi ready => absurd ready (still u hi)⟩
  · have less := taken.left_lt
    have fewer : (f.step c now i).left c < f.left c := by
      have sums := stepsIn_set c.settings.retry.retries
        { u with state := s, permit := (u.slotAfter f.free).1, time := w.clock } hi
      rw [stepped]
      dsimp only [left] at sums ⊢
      omega
    exact ⟨Nat.le_of_lt fewer, fun _ _ _ => fewer⟩

theorem left_follow_le (schedule : List (Nat × Nat)) (f : Floor σ) :
    (f.follow c schedule).left c ≤ f.left c := by
  induction schedule generalizing f with
  | nil => exact Nat.le_refl _
  | cons turn schedule ih => exact Nat.le_trans (ih _) (left_step turn.1 turn.2).1

theorem left_submitted (requests : List (Stamp × Request)) (w : World σ) :
    (submitted c requests w).left c ≤ stepBound c requests.length := by
  have each : (submitted c requests w).left c =
      requests.length * (9 * c.settings.retry.retries + 8) := by
    rw [left, submitted]
    induction requests with
    | nil => simp [stepsIn]
    | cons first rest ih =>
      rw [List.map_cons, stepsIn, List.length_cons, Nat.succ_mul, Nat.add_comm]
      exact congrArg (· + _) ih
  rw [each, stepBound]
  exact Nat.mul_le_mul_left _ (by omega)

/-! ## The order that is taken -/

theorem steps_follow (now i n : Nat) (f : Floor σ) :
    steps c now i n f = f.follow c (List.replicate n (now, i)) := by
  induction n generalizing f with
  | zero => rfl
  | succ n ih => exact ih _

theorem turn_follow (now : Nat) {i : Nat} {u : Underway} (hi : f.jobs[i]? = some u) :
    f.turn c now i = (f.step c now i).follow c (List.replicate (stride u.state - 1) (now, i)) := by
  have some_ : stride u.state = stride u.state - 1 + 1 := by
    unfold stride
    split <;> rfl
  rw [turn, hi]
  dsimp only
  rw [some_, steps, steps_follow, Nat.add_sub_cancel]

theorem soonest?_mem {ds : List Due} {d : Due} (h : soonest? ds = some d) : d ∈ ds := by
  induction ds generalizing d with
  | nil => cases h
  | cons a rest ih =>
    rw [soonest?] at h
    cases hr : soonest? rest with
    | none =>
      rw [hr] at h
      cases h
      exact List.mem_cons_self
    | some b =>
      rw [hr] at h
      dsimp only at h
      split at h
      · cases h
        exact List.mem_cons_of_mem _ (ih hr)
      · cases h
        exact List.mem_cons_self

theorem eq_nil_of_soonest? {ds : List Due} (h : soonest? ds = none) : ds = [] := by
  cases ds with
  | nil => rfl
  | cons a rest =>
    rw [soonest?] at h
    split at h
    · cases h
    · split at h <;> cases h

theorem mem_due {now : Nat} {d : Due} (h : d ∈ f.due now) :
    ∃ u, f.jobs[d.index]? = some u ∧ f.ready? now u = some d.time := by
  obtain ⟨⟨u, i⟩, mem, made⟩ := List.mem_filterMap.mp h
  dsimp only at made
  cases ready : f.ready? now u with
  | none =>
    rw [ready] at made
    cases made
  | some time =>
    rw [ready] at made
    cases made
    exact ⟨u, List.mem_zipIdx_iff_getElem?.mp mem, ready⟩

theorem ready?_of_due_eq_nil {now : Nat} (h : f.due now = []) {u : Underway} (hu : u ∈ f.jobs) :
    ¬ (f.ready? now u).isSome := by
  obtain ⟨i, hi⟩ := List.mem_iff_getElem?.mp hu
  have none := List.filterMap_eq_nil_iff.mp h (u, i) (List.mem_zipIdx_iff_getElem?.mpr hi)
  dsimp only at none
  cases ready : f.ready? now u with
  | none => exact Bool.false_ne_true
  | some time =>
    rw [ready] at none
    cases none

theorem ready?_isSome_congr (now now' : Nat) (u : Underway) :
    (f.ready? now u).isSome ↔ (f.ready? now' u).isSome := by
  rw [ready?_isSome_iff, ready?_isSome_iff]

/-- **The order that is taken** is a schedule, and by it every job ends. -/
theorem Balanced.run (h : f.Balanced slots g) (pos : 0 < slots) {fuel : Nat}
    (enough : f.left c ≤ fuel) (now : Nat) :
    ∃ schedule, Floor.run c fuel now f = f.follow c schedule ∧
      ∀ u ∈ (f.follow c schedule).jobs, u.state.hasEnded := by
  -- every turn has a step of a job that is ready, so there is fuel for all that are left
  induction fuel generalizing now f with
  | zero =>
    refine ⟨[], rfl, fun u hu => ?_⟩
    have nothing := left_eq_zero_of_stepsIn (Nat.le_zero.mp enough) u hu
    cases hs : u.state with
    | submitted => simp [hs, JobState.left] at nothing
    | rendering p n left stage => cases stage <;> simp [hs, JobState.left, RenderStage.left] at nothing
    | ended r => rfl
  | succ fuel ih =>
    rw [Floor.run]
    cases next : soonest? (f.due now) with
    | none =>
      have still := eq_nil_of_soonest? next
      obtain ended | ⟨u, hu, ready⟩ := h.goesOn pos now
      · exact ⟨[], rfl, ended⟩
      · exact absurd ready (ready?_of_due_eq_nil still hu)
    | some d =>
      obtain ⟨u, hi, ready⟩ := mem_due (soonest?_mem next)
      have isSome : (f.ready? d.time u).isSome := by
        rw [ready?_isSome_congr d.time now, ready]
        rfl
      have fewer := (left_step (c := c) d.time d.index).2 u hi isSome
      have turned := turn_follow (c := c) d.time hi
      let rest := List.replicate (stride u.state - 1) (d.time, d.index)
      have enough' : (f.turn c d.time d.index).left c ≤ fuel := by
        have least := left_follow_le (c := c) rest (f.step c d.time d.index)
        rw [turned]
        exact Nat.le_of_lt_succ (Nat.lt_of_lt_of_le (Nat.lt_of_le_of_lt least fewer) enough)
      have balanced : (f.turn c d.time d.index).Balanced slots g := by
        rw [turned]
        exact (h.step d.time d.index).follow rest
      obtain ⟨schedule, follows, ended⟩ := ih balanced enough' d.time
      refine ⟨(d.time, d.index) :: rest ++ schedule, ?_, ?_⟩
      · rw [follow_append]
        dsimp only
        rw [follows, turned]
        rfl
      · rw [follow_append]
        rw [turned] at ended
        exact ended

theorem map_result? {jobs : List Underway} (ended : ∀ u ∈ jobs, u.state.hasEnded) :
    jobs.map result? = (jobs.filterMap result?).map some := by
  induction jobs with
  | nil => rfl
  | cons u jobs ih =>
    obtain ⟨last, rest⟩ := List.forall_mem_cons.mp ended
    obtain ⟨r, hr⟩ : ∃ r, result? u = some r := by
      unfold JobState.hasEnded at last
      split at last
      · rename_i r hs
        exact ⟨r, by rw [result?, hs]⟩
      · cases last
    rw [List.map_cons, List.filterMap_cons_some hr, List.map_cons, hr, ih rest]

end Floor

theorem Composer.run_composeMany {σ : Type} (c : Composer σ) (requests : List (Stamp × Request))
    (w : World σ) :
    (c.composeMany requests).run w =
      let f := Floor.run c (Floor.stepBound c requests.length) w.clock (Floor.submitted c requests w)
      (f.jobs.filterMap Floor.result?,
        { f.world with clock := f.jobs.foldl (fun t (u : Underway) => max t u.time) w.clock }) := rfl

end Montage
