import Mathlib.Data.List.Forall2
import Mathlib.Logic.Relation
import Montage.Proofs.Compose.Downloads

/-!
# Downloads in any order

The lanes of a window can go on in any order, and another one can begin whenever there is
room. If the end of every download is fixed, then so is the result of all: which lane is
settled first does not matter, for what is finished waits for everything before it.
-/

namespace Montage

open Relation

namespace DownloadWindow

def inFlight (win : DownloadWindow) : Nat := win.lanes.countP fun lane => lane.wake?.isSome

/-- There is a result: a failure at the front, or everything is handed on. -/
inductive Returns : DownloadWindow → Except FetchError (List String) → Prop
  | failed {waiting saved rest} (e : FetchError) :
    Returns ⟨waiting, .settled (.error e) :: rest, saved⟩ (.error e)
  | done (saved : List String) : Returns ⟨[], [], saved⟩ (.ok saved)

end DownloadWindow

namespace Fetcher

variable {σ : Type} (f : Fetcher σ) (policy : RetryPolicy) (limit : Nat)

inductive Turn : DownloadWindow × World σ → DownloadWindow × World σ → Prop
  | handOn (waiting : List Target) (path : String) (rest : List Lane) (saved : List String)
    (w : World σ) :
    Turn (⟨waiting, .settled (.ok path) :: rest, saved⟩, w) (⟨waiting, rest, saved ++ [path]⟩, w)
  | start (t : Target) (waiting : List Target) {lanes : List Lane} (saved : List String)
    (w : World σ) (room : lanes.length < limit) :
    Turn (⟨t :: waiting, lanes, saved⟩, w)
      (⟨waiting, lanes ++ [Lane.running t 1 policy.retries w.clock], saved⟩, w)
  | attempt {win : DownloadWindow} {i n left wake : Nat} {t : Target}
    (hi : win.lanes[i]? = some (.running t n left wake)) (w : World σ) :
    Turn (win, w) ((f.stepLane policy win i).run w)

/-- What can become of downloads that begin in the world `w₀`, no more than `limit` at a time and
one if that is 0. -/
abbrev Reaches (targets : List Target) (w₀ : World σ) (s : DownloadWindow × World σ) : Prop :=
  ReflTransGen (f.Turn policy (max 1 limit)) ({ waiting := targets }, w₀) s

/-- Whatever happens before, a download for a target `t` can only be settled with `outcome t`. -/
def Fixed (targets : List Target) (w₀ : World σ) (outcome : Target → Except FetchError String) :
    Prop :=
  ∀ (win : DownloadWindow) (w : World σ) (i : Nat) (t : Target) (n left wake : Nat)
    (r : Except FetchError String) (w' : World σ), f.Reaches policy limit targets w₀ (win, w) →
    win.lanes[i]? = some (.running t n left wake) →
    (f.attempt policy t n left).run { w with clock := max w.clock wake } = (.settled r, w') →
    r = outcome t

end Fetcher

/-! ## What is left to do -/

def attemptsIn : List Lane → Nat
  | [] => 0
  | .running _ _ left _ :: rest => left + 1 + attemptsIn rest
  | .settled _ :: rest => attemptsIn rest

theorem attemptsIn_append (l l' : List Lane) :
    attemptsIn (l ++ l') = attemptsIn l + attemptsIn l' := by
  induction l with
  | nil => simp [attemptsIn]
  | cons lane l ih =>
    cases lane with
    | running t n left wake => simp [attemptsIn, ih]; omega
    | settled r => simp [attemptsIn, ih]

theorem attemptsIn_set {lanes : List Lane} {i n left wake : Nat} {t : Target} {lane : Lane}
    (hi : lanes[i]? = some (.running t n left wake)) (fewer : attemptsIn [lane] < left + 1) :
    attemptsIn (lanes.set i lane) < attemptsIn lanes := by
  obtain ⟨bound, hb⟩ := List.getElem?_eq_some_iff.mp hi
  have split : lanes = lanes.take i ++ .running t n left wake :: lanes.drop (i + 1) := by
    rw [← hb, List.getElem_cons_drop, List.take_append_drop]
  rw [List.set_eq_take_append_cons_drop, if_pos bound]
  conv_rhs => rw [split]
  rw [attemptsIn_append, attemptsIn_append]
  have one : ∀ rest, attemptsIn (lane :: rest) = attemptsIn [lane] + attemptsIn rest := fun rest =>
    attemptsIn_append [lane] rest
  rw [one]
  simp only [attemptsIn]
  omega

namespace DownloadWindow

def attemptsLeft (retries : Nat) (win : DownloadWindow) : Nat :=
  attemptsIn win.lanes + win.waiting.length * (retries + 1)

end DownloadWindow

namespace Fetcher

variable {σ : Type} {f : Fetcher σ} {policy : RetryPolicy} {limit : Nat} {w w' : World σ}
  {win win' : DownloadWindow}

theorem lane_of_attempt {t : Target} {n left : Nat} {lane : Lane}
    (h : (f.attempt policy t n left).run w = (lane, w')) :
    (∃ r, lane = .settled r) ∨
      ∃ fewer wake, left = fewer + 1 ∧ lane = .running t (n + 1) fewer wake := by
  rw [run_attempt] at h
  rcases hx : (f.fetch t).run w with ⟨e | path, w''⟩
  all_goals rw [hx] at h
  · cases left with
    | zero =>
      cases h
      exact .inl ⟨_, rfl⟩
    | succ left =>
      dsimp only at h
      split at h
      · cases h
        exact .inr ⟨left, _, rfl, rfl⟩
      · cases h
        exact .inl ⟨_, rfl⟩
  · cases h
    exact .inl ⟨_, rfl⟩

theorem attemptsLeft_stepLane {i n left wake : Nat} {t : Target}
    (hi : win.lanes[i]? = some (.running t n left wake))
    (h : (f.stepLane policy win i).run w = (win', w')) :
    win'.attemptsLeft policy.retries < win.attemptsLeft policy.retries := by
  rw [run_stepLane hi] at h
  rcases hx : (f.attempt policy t n left).run { w with clock := max w.clock wake } with ⟨lane, w₁⟩
  rw [hx] at h
  cases h
  have fewer : attemptsIn [lane] < left + 1 := by
    rcases lane_of_attempt hx with ⟨r, rfl⟩ | ⟨fewer, wake', rfl, rfl⟩
    · simp [attemptsIn]
    · simp [attemptsIn]
  have lanes := attemptsIn_set hi fewer
  simp only [DownloadWindow.attemptsLeft, DownloadWindow.setLane]
  omega

/-- **No order goes on for ever.** -/
theorem turn_wellFounded : WellFounded fun s s' => f.Turn policy limit s' s := by
  -- an attempt lowers the first number, a start lowers the second one by more than it raises the
  -- third, and handing on lowers the third
  let work : DownloadWindow × World σ → Nat := fun s =>
    s.1.attemptsLeft policy.retries + 2 * s.1.waiting.length + s.1.lanes.length
  apply Subrelation.wf (r := fun s s' => work s < work s') _ (measure work).wf
  intro s' s h
  cases h with
  | handOn waiting path rest saved w =>
    simp [work, DownloadWindow.attemptsLeft, attemptsIn]
  | start t waiting saved w room =>
    simp [work, DownloadWindow.attemptsLeft, attemptsIn_append, attemptsIn, Nat.succ_mul]
    omega
  | @attempt win i n left wake t hi w =>
    rcases hx : (f.stepLane policy win i).run w with ⟨win', w'⟩
    have fewer := attemptsLeft_stepLane hi hx
    rw [run_stepLane hi] at hx
    cases hx
    simpa [work, DownloadWindow.setLane] using fewer

end Fetcher

/-! ## What every order keeps -/

/-- A lane is there for the target `t`, which ends as `R` allows. -/
def Lane.EndsIn (R : Target → Except FetchError String → Prop) (t : Target) : Lane → Prop
  | .running t' _ _ _ => t' = t
  | .settled r => R t r

/-- The targets whose paths are handed on, those with a lane and those that wait are all of them, in
their order, and what is settled is as `R` allows. -/
def DownloadWindow.Ordered (R : Target → Except FetchError String → Prop) (targets : List Target)
    (win : DownloadWindow) : Prop :=
  ∃ front inside, targets = front ++ inside ++ win.waiting ∧
    List.Forall₂ (fun t path => R t (.ok path)) front win.saved ∧
    List.Forall₂ (Lane.EndsIn R) inside win.lanes

namespace Fetcher

variable {σ : Type} {f : Fetcher σ} {policy : RetryPolicy} {limit : Nat} {targets : List Target}
  {w₀ : World σ} {outcome : Target → Except FetchError String} {s s' : DownloadWindow × World σ}

theorem Turn.ordered {R : Target → Except FetchError String → Prop} (h : f.Turn policy limit s s')
    (ends : ∀ (i : Nat) (t : Target) (n left wake : Nat) (r : Except FetchError String)
      (w' : World σ), s.1.lanes[i]? = some (.running t n left wake) →
      (f.attempt policy t n left).run { s.2 with clock := max s.2.clock wake } = (.settled r, w') →
      R t r) (order : s.1.Ordered R targets) : s'.1.Ordered R targets := by
  obtain ⟨front, inside, split, saved, lanes⟩ := order
  cases h with
  | handOn waiting path rest done w =>
    cases lanes with
    | @cons t _ inside _ first others =>
      refine ⟨front ++ [t], inside, by simpa using split, ?_, others⟩
      exact List.rel_append saved (.cons first .nil)
  | @start t waiting lanes' done w room =>
    refine ⟨front, inside ++ [t], by simpa using split, saved, ?_⟩
    exact List.rel_append lanes (.cons rfl .nil)
  | @attempt win i n left wake t hi w =>
    rcases hx : (f.attempt policy t n left).run { w with clock := max w.clock wake } with ⟨lane, w'⟩
    rw [run_stepLane hi, hx]
    refine ⟨front, inside, split, saved, ?_⟩
    apply DownloadWindow.Covers.forall₂_set lanes hi
    intro t' same
    obtain rfl : t = t' := same
    rcases lane_of_attempt hx with ⟨r, rfl⟩ | ⟨fewer, wake', -, rfl⟩
    · exact ends i t n left wake r w' hi hx
    · rfl

theorem Turn.length_le (h : f.Turn policy limit s s')
    (room : s.1.lanes.length ≤ limit) : s'.1.lanes.length ≤ limit := by
  cases h with
  | handOn waiting path rest saved w => exact Nat.le_of_succ_le room
  | start t waiting saved w more =>
    rw [List.length_append]
    exact more
  | @attempt win i n left wake t hi w =>
    rcases hx : (f.stepLane policy win i).run w with ⟨win', w'⟩
    rw [run_stepLane hi] at hx
    cases hx
    simpa [DownloadWindow.setLane] using room

variable (f policy) in
theorem clock_attempt (t : Target) (n left : Nat) (w : World σ) :
    ((f.attempt policy t n left).run w).2.clock = w.clock := by
  have same : ((f.fetch t).run w).2.clock = w.clock := rfl
  rw [run_attempt]
  rcases hx : (f.fetch t).run w with ⟨e | path, w'⟩
  all_goals rw [hx] at same
  · cases left with
    | zero => exact same
    | succ left =>
      dsimp only
      split <;> exact same
  · exact same

theorem Turn.clock_le (h : f.Turn policy limit s s') : s.2.clock ≤ s'.2.clock := by
  cases h with
  | handOn waiting path rest saved w => exact Nat.le_refl _
  | start t waiting saved w room => exact Nat.le_refl _
  | @attempt win i n left wake t hi w =>
    have same := clock_attempt f policy t n left { w with clock := max w.clock wake }
    rw [run_stepLane hi]
    rcases hx : (f.attempt policy t n left).run { w with clock := max w.clock wake } with ⟨lane, w'⟩
    rw [hx] at same
    exact Nat.le_trans (Nat.le_max_left _ wake) (Nat.le_of_eq same.symm)

theorem Fixed.ordered (fixed : f.Fixed policy limit targets w₀ outcome)
    (h : f.Reaches policy limit targets w₀ s) :
    s.1.Ordered (fun t r => r = outcome t) targets := by
  induction h with
  | refl => exact ⟨[], [], rfl, .nil, .nil⟩
  | tail before turn ih =>
    apply turn.ordered _ ih
    intro i t n left wake r w' hi hx
    exact fixed _ _ i t n left wake r w' before hi hx

theorem Reaches.inFlight_le (h : f.Reaches policy limit targets w₀ s) : s.1.inFlight ≤ max 1 limit := by
  have lanes : s.1.lanes.length ≤ max 1 limit := by
    induction h with
    | refl => simp
    | tail _ turn ih => exact turn.length_le ih
  exact Nat.le_trans List.countP_le_length lanes

/-- As long as there is no result, something can happen. -/
theorem returns_or_turn (pos : 0 < limit) (win : DownloadWindow) (w : World σ) :
    (∃ r, win.Returns r) ∨ ∃ s, f.Turn policy limit (win, w) s := by
  obtain ⟨waiting, lanes, saved⟩ := win
  cases lanes with
  | nil =>
    cases waiting with
    | nil => exact .inl ⟨_, .done saved⟩
    | cons t waiting => exact .inr ⟨_, .start t waiting saved w pos⟩
  | cons lane rest =>
    cases lane with
    | running t n left wake => exact .inr ⟨_, .attempt (i := 0) rfl w⟩
    | settled r =>
      cases r with
      | ok path => exact .inr ⟨_, .handOn waiting path rest saved w⟩
      | error e => exact .inl ⟨_, .failed e⟩

end Fetcher

namespace DownloadWindow

variable {outcome : Target → Except FetchError String} {targets : List Target} {win : DownloadWindow}

def FirstFailure (outcome : Target → Except FetchError String) (targets : List Target)
    (e : FetchError) : Prop :=
  ∃ before t after, targets = before ++ t :: after ∧ outcome t = .error e ∧
    ∀ u ∈ before, (outcome u).isOk

structure Combines (outcome : Target → Except FetchError String) (targets : List Target)
    (r : Except FetchError (List String)) : Prop where
  isOk_iff : r.isOk ↔ ∀ t ∈ targets, (outcome t).isOk
  paths : ∀ paths, r = .ok paths → List.Forall₂ (fun t path => outcome t = .ok path) targets paths
  failure : ∀ e, r = .error e → FirstFailure outcome targets e

theorem isOk_of_saved {front : List Target} {saved : List String}
    (h : List.Forall₂ (fun t path => .ok path = outcome t) front saved) :
    ∀ t ∈ front, (outcome t).isOk := by
  have both : List.Forall₂ (fun t path => (outcome t).isOk ∧ .ok path = outcome t) front saved := by
    apply h.imp
    intro t path ok
    rw [← ok]
    exact ⟨rfl, rfl⟩
  exact ((List.forall₂_and_left _ _).mp both).1

theorem Ordered.combines (order : win.Ordered (fun t r => r = outcome t) targets)
    {r : Except FetchError (List String)} (h : win.Returns r) : Combines outcome targets r := by
  obtain ⟨front, inside, split, saved, lanes⟩ := order
  cases h with
  | done paths =>
    cases lanes
    rw [List.append_nil, List.append_nil] at split
    subst split
    refine ⟨⟨fun _ => isOk_of_saved saved, fun _ => rfl⟩, fun paths' same => ?_, fun e no => ?_⟩
    · cases same
      exact saved.imp fun _ _ ok => ok.symm
    · cases no
  | failed e =>
    cases lanes with
    | @cons t _ inside _ first others =>
      refine ⟨⟨fun no => ?_, fun all => ?_⟩, fun paths no => ?_, fun e' same => ?_⟩
      · cases no
      · have ok : (outcome t).isOk := all t (by simp [split])
        rw [← show .error e = outcome t from first] at ok
        cases ok
      · cases no
      · cases same
        exact ⟨front, t, inside ++ _, by simpa using split, first.symm, isOk_of_saved saved⟩

end DownloadWindow

/-! ## The order that is taken -/

namespace DownloadWindow

theorem running_of_next? {lanes : List Lane} {i time : Nat} (h : next? lanes = some (i, time)) :
    ∃ t n left wake, lanes[i]? = some (Lane.running t n left wake) := by
  induction lanes generalizing i time with
  | nil => cases h
  | cons lane rest ih =>
    have later : ∀ j b, next? rest = some (j, b) → i = j + 1 →
        ∃ t n left wake, (lane :: rest)[i]? = some (Lane.running t n left wake) := by
      intro j b hj hi
      rw [hi]
      exact ih hj
    rw [next?] at h
    cases lane with
    | running t n left wake =>
      cases hr : next? rest with
      | none =>
        rw [hr] at h
        cases h
        exact ⟨t, n, left, _, rfl⟩
      | some found =>
        obtain ⟨j, b⟩ := found
        rw [hr] at h
        dsimp only [Lane.wake?] at h
        split at h
        · cases h
          exact later j _ hr rfl
        · cases h
          exact ⟨t, n, left, _, rfl⟩
    | settled r =>
      cases hr : next? rest with
      | none =>
        rw [hr] at h
        cases h
      | some found =>
        obtain ⟨j, b⟩ := found
        rw [hr] at h
        cases h
        exact later j _ hr rfl

theorem next?_of_running (t : Target) (n left wake : Nat) (rest : List Lane) :
    ∃ i time, next? (.running t n left wake :: rest) = some (i, time) := by
  rw [next?]
  cases next? rest with
  | none => exact ⟨0, wake, rfl⟩
  | some found =>
    obtain ⟨j, b⟩ := found
    dsimp only [Lane.wake?]
    split
    · exact ⟨j + 1, b, rfl⟩
    · exact ⟨0, wake, rfl⟩

theorem advance_finished (waiting : List Target) (path : String) (rest : List Lane)
    (saved : List String) :
    advance ⟨waiting, .settled (.ok path) :: rest, saved⟩ =
      advance ⟨waiting, rest, saved ++ [path]⟩ := by
  rw [advance, advance, handOn]
  cases handOn rest with
  | error e => rfl
  | ok found =>
    change Except.ok (DownloadWindow.mk waiting found.2 (saved ++ path :: found.1)) =
      .ok ⟨waiting, found.2, saved ++ [path] ++ found.1⟩
    rw [List.append_cons]

theorem startDue_room (t : Target) (waiting : List Target) (lanes : List Lane) (saved : List String)
    (limit retries now : Nat) (room : lanes.length < limit) :
    startDue limit retries now ⟨t :: waiting, lanes, saved⟩ =
      startDue limit retries now ⟨waiting, lanes ++ [Lane.running t 1 retries now], saved⟩ := by
  obtain ⟨more, h⟩ : ∃ more, limit - lanes.length = more + 1 :=
    ⟨limit - lanes.length - 1, by omega⟩
  have less : limit - (lanes ++ [Lane.running t 1 retries now]).length = more := by
    rw [List.length_append, List.length_singleton]
    omega
  simp only [startDue, h, less, List.drop_succ_cons, List.take_succ_cons, List.map_cons,
    List.append_assoc, List.singleton_append]

theorem startDue_full (waiting : List Target) (lanes : List Lane) (saved : List String)
    (limit retries now : Nat) (full : ¬ lanes.length < limit) :
    startDue limit retries now ⟨waiting, lanes, saved⟩ = ⟨waiting, lanes, saved⟩ := by
  have none : limit - lanes.length = 0 := by omega
  simp [startDue, none]

/-- When no finished download stands at the front, everything is handed on or the front still
runs. -/
theorem startDue_cases {limit : Nat} (pos : 0 < limit) (retries now : Nat) {win : DownloadWindow}
    (front : ∀ r rest, win.lanes ≠ .settled r :: rest) :
    win.startDue limit retries now = ⟨[], [], win.saved⟩ ∨ ∃ t n left wake rest,
      (win.startDue limit retries now).lanes = Lane.running t n left wake :: rest := by
  obtain ⟨waiting, lanes, saved⟩ := win
  cases lanes with
  | nil =>
    cases waiting with
    | nil =>
      left
      simp [startDue]
    | cons t waiting =>
      right
      rw [startDue_room t waiting [] saved limit retries now pos]
      exact ⟨t, 1, retries, now, _, rfl⟩
  | cons lane rest =>
    cases lane with
    | running t n left wake => exact .inr ⟨t, n, left, wake, _, rfl⟩
    | settled r => exact absurd rfl (front r rest)

end DownloadWindow

namespace Fetcher

variable {σ : Type} {f : Fetcher σ} {policy : RetryPolicy} {limit : Nat}

variable (f policy limit) in
theorem turns_advance (w : World σ) (win : DownloadWindow) :
    match win.advance with
    | .ok win' => ReflTransGen (f.Turn policy limit) (win, w) (win', w) ∧
        win'.attemptsLeft policy.retries = win.attemptsLeft policy.retries ∧
        ∀ r rest, win'.lanes ≠ .settled r :: rest
    | .error e => ∃ win', ReflTransGen (f.Turn policy limit) (win, w) (win', w) ∧
        win'.Returns (.error e) := by
  obtain ⟨waiting, lanes, saved⟩ := win
  induction lanes generalizing saved with
  | nil =>
    have same : DownloadWindow.advance ⟨waiting, [], saved⟩ = .ok ⟨waiting, [], saved ++ []⟩ := rfl
    rw [same, List.append_nil]
    exact ⟨.refl, rfl, fun r rest h => by cases h⟩
  | cons lane rest ih =>
    cases lane with
    | running t n left wake =>
      have same : DownloadWindow.advance ⟨waiting, .running t n left wake :: rest, saved⟩ =
          .ok ⟨waiting, .running t n left wake :: rest, saved ++ []⟩ := rfl
      rw [same, List.append_nil]
      exact ⟨.refl, rfl, fun r rest h => by cases h⟩
    | settled r =>
      cases r with
      | error e => exact ⟨_, .refl, .failed e⟩
      | ok path =>
        have turn : f.Turn policy limit _ _ := .handOn waiting path rest saved w
        have later := ih (saved ++ [path])
        rw [DownloadWindow.advance_finished]
        cases h : DownloadWindow.advance ⟨waiting, rest, saved ++ [path]⟩ with
        | error e =>
          rw [h] at later
          obtain ⟨win', turns, returns⟩ := later
          exact ⟨win', .head turn turns, returns⟩
        | ok win' =>
          rw [h] at later
          obtain ⟨turns, left, front⟩ := later
          exact ⟨.head turn turns, left, front⟩

variable (f policy limit) in
theorem turns_startDue (w : World σ) (win : DownloadWindow) :
    ReflTransGen (f.Turn policy limit) (win, w) (win.startDue limit policy.retries w.clock, w) ∧
      (win.startDue limit policy.retries w.clock).attemptsLeft policy.retries =
        win.attemptsLeft policy.retries := by
  obtain ⟨waiting, lanes, saved⟩ := win
  induction waiting generalizing lanes with
  | nil =>
    have same : DownloadWindow.startDue limit policy.retries w.clock ⟨[], lanes, saved⟩ =
        ⟨[], lanes, saved⟩ := by
      simp [DownloadWindow.startDue]
    rw [same]
    exact ⟨.refl, rfl⟩
  | cons t waiting ih =>
    by_cases room : lanes.length < limit
    · obtain ⟨turns, left⟩ := ih (lanes ++ [Lane.running t 1 policy.retries w.clock])
      rw [DownloadWindow.startDue_room t waiting lanes saved _ _ _ room]
      refine ⟨.head (.start t waiting saved w room) turns, left.trans ?_⟩
      simp only [DownloadWindow.attemptsLeft, attemptsIn_append, attemptsIn, List.length_cons,
        Nat.succ_mul]
      omega
    · rw [DownloadWindow.startDue_full _ _ _ _ _ _ room]
      exact ⟨.refl, rfl⟩

/-- **Moving the window** is one of the orders, and it goes on until there is a result. -/
theorem drive_reaches (pos : 0 < limit) {fuel : Nat} {win : DownloadWindow} {w : World σ}
    (enough : win.attemptsLeft policy.retries < fuel) :
    ∃ win', ReflTransGen (f.Turn policy limit) (win, w)
        (win', ((f.drive policy limit fuel win).run w).2) ∧
      win'.Returns ((f.drive policy limit fuel win).run w).1 := by
  -- every round ends or makes an attempt, so there is fuel for all that are left
  induction fuel generalizing win w with
  | zero => cases enough
  | succ fuel ih =>
    rw [run_drive_succ]
    have advanced := turns_advance f policy limit w win
    cases ha : win.advance with
    | error e =>
      rw [ha] at advanced
      exact advanced
    | ok win₁ =>
      rw [ha] at advanced
      obtain ⟨turns₁, left₁, front⟩ := advanced
      obtain ⟨turns₂, left₂⟩ := turns_startDue f policy limit w win₁
      have begun := turns₁.trans turns₂
      dsimp only
      rcases DownloadWindow.startDue_cases pos policy.retries w.clock front with
        nothing | ⟨t, n, left, wake, rest, running⟩
      · rw [nothing] at begun ⊢
        exact ⟨_, begun, .done _⟩
      · have goesOn : ¬ (win₁.startDue limit policy.retries w.clock).lanes.isEmpty := by
          simp [running]
        rw [if_neg goesOn]
        obtain ⟨i, time, next⟩ := DownloadWindow.next?_of_running t n left wake rest
        rw [← running] at next
        obtain ⟨t', n', left', wake', hi⟩ := DownloadWindow.running_of_next? next
        have turn : f.Turn policy limit _ _ := .attempt hi w
        rw [stepNext, next]
        dsimp only
        rcases hx : (f.stepLane policy (win₁.startDue limit policy.retries w.clock) i).run w with
          ⟨win₃, w₃⟩
        have fewer := attemptsLeft_stepLane hi hx
        rw [hx] at turn
        have enough₃ : win₃.attemptsLeft policy.retries < fuel := by omega
        obtain ⟨win', turns, returns⟩ := ih enough₃
        exact ⟨win', (begun.tail turn).trans turns, returns⟩

/-- **The order that is taken.** -/
theorem downloadAll_reaches (f : Fetcher σ) (policy : RetryPolicy) (limit : Nat)
    (targets : List Target) (w : World σ) :
    ∃ win, f.Reaches policy limit targets w (win, ((f.downloadAll policy limit targets).run w).2) ∧
      win.Returns ((f.downloadAll policy limit targets).run w).1 :=
  drive_reaches (by omega) (by simp [DownloadWindow.attemptsLeft, attemptsIn])

/-! ## The result -/

/-- Whatever the order, downloads come to one result. -/
structure OneResult (f : Fetcher σ) (policy : RetryPolicy) (limit : Nat) (targets : List Target)
    (w₀ : World σ) (outcome : Target → Except FetchError String) : Prop where
  inFlight : ∀ win w, f.Reaches policy limit targets w₀ (win, w) → win.inFlight ≤ max 1 limit
  result : ∀ win w r, f.Reaches policy limit targets w₀ (win, w) → win.Returns r →
    DownloadWindow.Combines outcome targets r
  goesOn : ∀ win w, f.Reaches policy limit targets w₀ (win, w) →
    (∃ r, win.Returns r) ∨ ∃ s, f.Turn policy (max 1 limit) (win, w) s
  ends : WellFounded fun s s' => f.Turn policy (max 1 limit) s' s
  taken : ∃ win, f.Reaches policy limit targets w₀
      (win, ((f.downloadAll policy limit targets).run w₀).2) ∧
    win.Returns ((f.downloadAll policy limit targets).run w₀).1

theorem one_result {targets : List Target} {w₀ : World σ}
    {outcome : Target → Except FetchError String}
    (fixed : f.Fixed policy limit targets w₀ outcome) :
    f.OneResult policy limit targets w₀ outcome where
  inFlight win w h := Reaches.inFlight_le h
  result win w r h returns := (fixed.ordered h).combines returns
  goesOn win w _ := returns_or_turn (by omega) win w
  ends := turn_wellFounded
  taken := downloadAll_reaches f policy limit targets w₀

theorem fixed_of_same {targets : List Target} {answer : Target → Except FetchError String}
    (same : ∀ t own disk, (f.save t.url t.path own disk).1 = answer t) (w₀ : World σ) :
    f.Fixed policy limit targets w₀ answer := by
  intro win w i t n left wake r w' _ _ h
  have answered : ∀ w, ((f.fetch t).run w).1 = answer t := fun w => same t w.own w.disk
  rw [run_attempt] at h
  rcases hx : (f.fetch t).run { w with clock := max w.clock wake } with ⟨e | path, w''⟩
  all_goals
    have here := answered { w with clock := max w.clock wake }
    rw [hx] at h here
    rw [← here]
  · cases left with
    | zero =>
      cases h
      rfl
    | succ left =>
      dsimp only at h
      split at h
      · cases h
      · cases h
        rfl
  · cases h
    rfl

def busy : Fetcher Unit where
  name := "busy"
  save url path own disk :=
    (if url = "a" then .error (.http url 503)
      else if url = "c" then .error (.http url 404) else .ok path, own, disk)

theorem one_result_busy :
    let targets : List Target := [⟨"a", "0"⟩, ⟨"b", "1"⟩, ⟨"c", "2"⟩]
    let outcome : Target → Except FetchError String := fun t => (busy.save t.url t.path () {}).1
    busy.OneResult {} 2 targets ⟨(), {}, [], 0⟩ outcome ∧
      ((busy.downloadAll {} 2 targets).run ⟨(), {}, [], 0⟩).1 = .error (.http "a" 503) := by
  intro targets outcome
  have fixed : busy.Fixed {} 2 targets ⟨(), {}, [], 0⟩ outcome :=
    fixed_of_same (fun t own disk => rfl) _
  exact ⟨one_result fixed, by decide +kernel⟩

end Fetcher

end Montage
