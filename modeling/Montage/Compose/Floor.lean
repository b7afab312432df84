import Montage.Compose.Job

/-!
# Several jobs at once

Jobs that share a composer also share its render slots. A job takes a slot for each
render and gives it back before it pauses, so a job that waits never keeps another
one from rendering. Jobs take steps one at a time, in any order; every job has its own
time, and the earliest one goes first.
-/

namespace Montage

/-- How far an attempt has come. -/
inductive RenderStage
  /-- An attempt before it failed, and its time has not come. -/
  | pausing
  | waiting
  | admitted
  /-- It is counted as active. -/
  | counted
  | running (result : Except RenderError RenderResult)
  | returned (result : Except RenderError RenderResult)
  /-- It is no longer counted. -/
  | uncounted (result : Except RenderError RenderResult)
  /-- The slot is given back. -/
  | released (result : Except RenderError RenderResult)

inductive JobState
  | submitted
  /-- Attempt number `attempt` is under way, and `left` more can follow. -/
  | rendering (job : Prepared) (attempt left : Nat) (stage : RenderStage)
  | ended (result : Except ComposeError Outcome)

structure Underway where
  stamp : Stamp
  request : Request
  state : JobState := .submitted
  /-- Whether it has a slot. -/
  permit : Bool := false
  /-- When the job goes on. -/
  time : Nat

/-- Jobs in one world, with the slots that no job has. -/
structure Floor (σ : Type) where
  jobs : List Underway
  free : Nat
  world : World σ

namespace Underway

/-- Whether the job has a slot after its next step, and how many are free then. -/
def slotAfter (u : Underway) (free : Nat) : Bool × Nat :=
  match u.state with
  | .rendering _ _ _ .waiting => (true, free - 1)
  | .rendering _ _ _ (.uncounted _) => (false, free + 1)
  | _ => (u.permit, free)

end Underway

namespace Floor

/-- When a job can go on, given that it is `now`; a job that is due waits for a slot. -/
def ready? (f : Floor σ) (now : Nat) (u : Underway) : Option Nat :=
  match u.state with
  | .ended _ => none
  | .rendering _ _ _ .waiting => if 0 < f.free then some (max now u.time) else none
  | _ => some (max now u.time)

def stepJob (c : Composer σ) (u : Underway) : Act σ JobState := do
  match u.state with
  | .submitted =>
    match ← (c.prepare u.stamp u.request).run with
    | .error e => pure (.ended (.error e))
    | .ok p => pure (.rendering p 1 c.settings.retry.retries .waiting)
  | .rendering p attempt left .pausing => pure (.rendering p attempt left .waiting)
  | .rendering p attempt left .waiting => pure (.rendering p attempt left .admitted)
  | .rendering p attempt left .admitted =>
    modify (·.note .renderBegun)
    pure (.rendering p attempt left .counted)
  | .rendering p attempt left .counted =>
    let (r, p) ← c.runMaster p
    pure (.rendering p attempt left (.running r))
  | .rendering p attempt left (.running r) => pure (.rendering p attempt left (.returned r))
  | .rendering p attempt left (.returned r) =>
    modify (·.note .renderEnded)
    pure (.rendering p attempt left (.uncounted r))
  | .rendering p attempt left (.uncounted r) => pure (.rendering p attempt left (.released r))
  | .rendering p attempt left (.released r) =>
    if Composer.again left r then
      c.pause attempt
      pure (.rendering p (attempt + 1) (left - 1) .pausing)
    else pure (.ended (← c.conclude p r))
  | .ended r => pure (.ended r)

/-- Lets job number `i` take a step at time `now`, if it can. -/
def step (c : Composer σ) (f : Floor σ) (now i : Nat) : Floor σ :=
  match f.jobs[i]? with
  | none => f
  | some u =>
    match f.ready? now u with
    | none => f
    | some time =>
      let (state, world) := (stepJob c u).run { f.world with clock := time }
      let (permit, free) := u.slotAfter f.free
      { jobs := f.jobs.set i { u with state, permit, time := world.clock }, free, world }

/-! ## The order of steps -/

/-- The steps that a job takes in one go. -/
def stride : JobState → Nat
  | .rendering _ _ _ .waiting => 3
  | .rendering _ _ _ (.running _) => 4
  | _ => 1

def steps (c : Composer σ) (now i : Nat) : Nat → Floor σ → Floor σ
  | 0, f => f
  | n + 1, f => steps c now i n (f.step c now i)

/-- Lets job number `i` go on to where it takes time. -/
def turn (c : Composer σ) (f : Floor σ) (now i : Nat) : Floor σ :=
  match f.jobs[i]? with
  | none => f
  | some u => steps c now i (stride u.state) f

structure Due where
  index : Nat
  time : Nat
  /-- When it would have gone on, had it had a slot. -/
  since : Nat

def Due.sooner (a b : Due) : Bool := a.time < b.time || (a.time = b.time && a.since < b.since)

/-- The jobs that can go on, given that it is `now`. -/
def due (f : Floor σ) (now : Nat) : List Due :=
  f.jobs.zipIdx.filterMap fun (u, i) => (f.ready? now u).map fun time => ⟨i, time, u.time⟩

/-- The soonest one, the first among equals. -/
def soonest? : List Due → Option Due
  | [] => none
  | a :: rest =>
    match soonest? rest with
    | none => some a
    | some b => if b.sooner a then some b else some a

/-- Goes on until every job has ended, `fuel` turns at most. -/
def run (c : Composer σ) : Nat → Nat → Floor σ → Floor σ
  | 0, _, f => f
  | fuel + 1, now, f =>
    match soonest? (f.due now) with
    | none => f
    | some d => run c fuel d.time (f.turn c d.time d.index)

/-- No fewer than the steps that jobs can take. -/
def stepBound (c : Composer σ) (jobs : Nat) : Nat := jobs * (9 * (c.settings.retry.retries + 1))

def result? (u : Underway) : Option (Except ComposeError Outcome) :=
  match u.state with
  | .ended r => some r
  | _ => none

def submitted (c : Composer σ) (requests : List (Stamp × Request)) (w : World σ) : Floor σ where
  jobs := requests.map fun (stamp, request) => { stamp, request, time := w.clock }
  free := c.slots
  world := w

end Floor

namespace Composer

/-- Carries out several jobs at once and gives their results in order. Time goes on until the
last one has ended. -/
def composeMany (c : Composer σ) (requests : List (Stamp × Request)) :
    Act σ (List (Except ComposeError Outcome)) := fun w =>
  let f := Floor.run c (Floor.stepBound c requests.length) w.clock (Floor.submitted c requests w)
  (f.jobs.filterMap Floor.result?,
    { f.world with clock := f.jobs.foldl (fun t u => max t u.time) w.clock })

end Composer

end Montage
