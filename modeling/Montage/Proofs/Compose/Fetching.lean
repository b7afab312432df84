import Mathlib.Data.List.Chain
import Montage.Proofs.Compose.Attempts
import Montage.Proofs.Compose.Window
import Montage.Rehearsal.Crew

/-!
# Calls of a fetcher

The downloads of a job share one window, and the calls for one target are spread among those for
others. Every call is kept with the number of its target, so that what was done for a target can
be told apart: in any order of the downloads its calls are attempted again by the same law as
renders are.
-/

namespace Montage

open Metrics Relation

def World.noteAll {σ : Type} (w : World σ) (evs : List Event) : World σ :=
  { w with journal := w.journal ++ evs }

namespace Fetcher

structure Call where
  /-- The number of the target, the first one being number 0. -/
  index : Nat
  target : Target
  attempt : Nat
  time : Nat
  answer : Except FetchError String

namespace Call

variable (policy : RetryPolicy) (c : Call)

def isLast : Bool :=
  Attempts.settles FetchError.retryable c.answer || c.attempt = policy.retries + 1

def sequel : List Event :=
  if c.isLast policy then [.downloaded c.answer.isOk] else pauseEvents policy .download c.attempt

def events : List Event :=
  .fetched c.target.url c.target.path c.answer.isOk :: c.sequel policy

end Call

def callsFor (calls : List Call) (k : Nat) : List Call := calls.filter (·.index = k)

theorem callsFor_concat_self (calls : List Call) (c : Call) :
    callsFor (calls ++ [c]) c.index = callsFor calls c.index ++ [c] := by
  simp [callsFor, List.filter_append]

theorem callsFor_concat_ne {k : Nat} (calls : List Call) {c : Call} (h : c.index ≠ k) :
    callsFor (calls ++ [c]) k = callsFor calls k := by
  simp [callsFor, List.filter_append, h]

/-! ## The calls for one target -/

structure Row (policy : RetryPolicy) (mine : List Call) : Prop where
  numbered : mine.map (·.attempt) = (List.range mine.length).map (· + 1)
  spaced : mine.IsChain fun a b => a.time + policy.delayFor a.attempt ≤ b.time

structure Open (policy : RetryPolicy) (mine : List Call) : Prop where
  row : Row policy mine
  goesOn : ∀ c ∈ mine, ¬ c.isLast policy

def Ended (policy : RetryPolicy) (mine : List Call) (r : Except FetchError String) : Prop :=
  ∃ front last, mine = front ++ [last] ∧ Open policy front ∧ Row policy mine ∧
    last.isLast policy ∧ last.answer = r

section
variable {policy : RetryPolicy} {mine : List Call} {c : Call} {r : Except FetchError String}

theorem Row.nil : Row policy [] := ⟨rfl, .nil⟩

theorem Row.concat (h : Row policy mine) (number : c.attempt = mine.length + 1)
    (due : ∀ b ∈ mine.getLast?, b.time + policy.delayFor b.attempt ≤ c.time) :
    Row policy (mine ++ [c]) where
  numbered := by
    rw [List.map_append, h.numbered, List.length_append, List.length_singleton, List.range_succ,
      List.map_append, List.map_singleton, List.map_singleton, number]
  spaced := by
    refine List.isChain_append.mpr ⟨h.spaced, .singleton c, fun b hb d hd => ?_⟩
    cases hd
    exact due b hb

theorem Row.attempt_eq (h : Row policy mine) {i : Nat} (hi : mine[i]? = some c) : c.attempt = i + 1 := by
  obtain ⟨bound, -⟩ := List.getElem?_eq_some_iff.mp hi
  have here : (mine.map (·.attempt))[i]? = some c.attempt := by rw [List.getElem?_map, hi]; rfl
  rw [h.numbered, List.getElem?_map, List.getElem?_range bound] at here
  exact (Option.some.inj here).symm

theorem Row.of_concat (h : Row policy (mine ++ [c])) : Row policy mine ∧ c.attempt = mine.length + 1 := by
  have number : c.attempt = mine.length + 1 := h.attempt_eq (by simp)
  obtain ⟨numbered, spaced⟩ := h
  rw [List.map_append, List.length_append, List.length_singleton, List.range_succ,
    List.map_append] at numbered
  exact ⟨⟨(List.append_inj' numbered rfl).1, (List.isChain_append.mp spaced).1⟩, number⟩

theorem Open.nil : Open policy [] := ⟨.nil, fun c hc => by cases hc⟩

theorem Open.concat (h : Open policy mine) (row : Row policy (mine ++ [c]))
    (goesOn : ¬ c.isLast policy) : Open policy (mine ++ [c]) where
  row := row
  goesOn b hb := by
    rcases List.mem_append.mp hb with hb | hb
    · exact h.goesOn b hb
    · rwa [List.mem_singleton.mp hb]

theorem Open.paced (h : Open policy mine) :
    Paced policy .download mine.length (mine.flatMap (·.events policy)) ∧
      (mine.flatMap (·.events policy)).countP Event.isFetch = mine.length ∧
      ∀ ok, (mine.flatMap (·.events policy)).countP (Activity.downloaded ok) = 0 := by
  induction mine using List.reverseRecOn with
  | nil => exact ⟨.nil, rfl, fun _ => rfl⟩
  | append_singleton mine c ih =>
    obtain ⟨row, number⟩ := h.row.of_concat
    obtain ⟨paced, fetched, uncounted⟩ := ih ⟨row, fun b hb => h.goesOn b (List.mem_append_left _ hb)⟩
    have more : c.events policy =
        [.fetched c.target.url c.target.path c.answer.isOk] ++ pauseEvents policy .download (mine.length + 1) := by
      rw [Call.events, Call.sequel, if_neg (h.goesOn c (by simp)), number]
      rfl
    rw [List.flatMap_append, List.flatMap_singleton, more, List.length_append, List.length_singleton]
    refine ⟨?_, ?_, fun ok => ?_⟩
    · rw [← List.append_assoc]
      exact (paced.append ⟨by simp, rfl⟩).pause
    · rw [List.countP_append, fetched]
      rfl
    · rw [List.countP_append, uncounted]
      rfl

def Begins (answers : List (Except FetchError String)) (o : Nat → Except FetchError String) : Prop :=
  answers = (List.range answers.length).map fun i => o (i + 1)

theorem Begins.answer_eq {o : Nat → Except FetchError String} (h : Begins (mine.map (·.answer)) o)
    {i : Nat} (hi : mine[i]? = some c) : c.answer = o (i + 1) := by
  obtain ⟨bound, -⟩ := List.getElem?_eq_some_iff.mp hi
  have here : (mine.map (·.answer))[i]? = some c.answer := by rw [List.getElem?_map, hi]; rfl
  rw [h, List.getElem?_map, List.getElem?_range (by rwa [List.length_map])] at here
  exact (Option.some.inj here).symm

theorem Begins.concat {answers : List (Except FetchError String)}
    {o : Nat → Except FetchError String} (h : Begins answers o) (hr : r = o (answers.length + 1)) :
    Begins (answers ++ [r]) o := by
  rw [Begins, List.length_append, List.length_singleton, List.range_succ, List.map_append, ← h, hr]
  rfl

theorem isLast_of_open {front : List Call} {last : Call} (open_ : Open policy front)
    (number : last.attempt = front.length + 1) (final : last.isLast policy)
    {o : Nat → Except FetchError String} (begins : Begins ((front ++ [last]).map (·.answer)) o) :
    Attempts.IsLast FetchError.retryable o (policy.retries + 1) (front.length + 1) := by
  rw [Call.isLast, number, Bool.or_eq_true, decide_eq_true_eq] at final
  refine ⟨⟨Nat.succ_pos _, ?_⟩, ?_⟩
  · rw [← begins.answer_eq (List.getElem?_concat_length)]
    exact final
  · -- no call before the last one could have been the last
    rintro j ⟨pos, settled⟩
    by_contra sooner
    obtain ⟨i, rfl⟩ := Nat.exists_eq_succ_of_ne_zero pos.ne'
    have inside : i < front.length := by omega
    have hi : front[i]? = some front[i] := List.getElem?_eq_getElem inside
    have answered : front[i].answer = o (i + 1) :=
      begins.answer_eq (by rw [List.getElem?_append_left inside, hi])
    have goesOn := open_.goesOn front[i] (List.getElem_mem inside)
    rw [Call.isLast, Bool.or_eq_true, decide_eq_true_eq, open_.row.attempt_eq hi, answered] at goesOn
    exact goesOn settled

structure Finished (policy : RetryPolicy) (mine : List Call) (r : Except FetchError String) : Prop where
  /-- The law, for whatever sequence of outcomes begins with the answers. -/
  obeys : ∀ o, Begins (mine.map (·.answer)) o →
    Obeys policy .download FetchError.retryable o mine.length r (mine.flatMap (·.events policy))
  row : Row policy mine
  fetched : (mine.flatMap (·.events policy)).countP Event.isFetch = mine.length
  counted : ∀ ok, (mine.flatMap (·.events policy)).countP (Activity.downloaded ok) =
    if ok = r.isOk then 1 else 0

theorem Ended.finished (h : Ended policy mine r) : Finished policy mine r := by
  obtain ⟨front, last, rfl, open_, row, final, rfl⟩ := h
  obtain ⟨paced, fetched, uncounted⟩ := open_.paced
  let ends : List Event :=
    [.fetched last.target.url last.target.path last.answer.isOk, .downloaded last.answer.isOk]
  have events : (front ++ [last]).flatMap (·.events policy) =
      front.flatMap (·.events policy) ++ ends := by
    rw [List.flatMap_append, List.flatMap_singleton, Call.events, Call.sequel, if_pos final]
  have quiet : Unpaced .download ends := ⟨by simp [ends], rfl⟩
  refine ⟨fun o begins => ?_, row, ?_, fun ok => ?_⟩
  · have result : last.answer = o (front.length + 1) :=
      begins.answer_eq (List.getElem?_concat_length)
    rw [List.length_append, List.length_singleton, result, events]
    exact (isLast_of_open open_ row.of_concat.2 final begins).obeys (paced.append quiet)
  · rw [events, List.countP_append, fetched, List.length_append]
    rfl
  · rw [events, List.countP_append, uncounted]
    cases ok <;> cases hr : last.answer.isOk <;> simp [ends, hr, Activity.downloaded]

end

/-! ## The calls in a window -/

section
variable {σ : Type}

/-- From the world `w₀` on these calls were made, and nothing else was done. -/
inductive Called (f : Fetcher σ) (policy : RetryPolicy) (w₀ : World σ) : List Call → World σ → Prop
  | nil : Called f policy w₀ [] w₀
  | concat {calls : List Call} {w w' : World σ} (h : Called f policy w₀ calls w) (c : Call)
    (later : w.clock ≤ c.time)
    (answered : (f.fetch c.target).run { w with clock := c.time } = (c.answer, w')) :
    Called f policy w₀ (calls ++ [c]) (w'.noteAll (c.sequel policy))

variable {f : Fetcher σ} {policy : RetryPolicy} {limit : Nat} {w₀ w w' : World σ} {calls : List Call}
  {targets : List Target} {s s' : DownloadWindow × World σ}

theorem journal_fetch {t : Target} {answer : Except FetchError String}
    (h : (f.fetch t).run w = (answer, w')) :
    w'.journal = w.journal ++ [.fetched t.url t.path answer.isOk] := by
  obtain rfl : ((f.fetch t).run w).1 = answer := congrArg Prod.fst h
  obtain rfl : ((f.fetch t).run w).2 = w' := congrArg Prod.snd h
  rfl

theorem Called.journal (h : f.Called policy w₀ calls w) :
    w.journal = w₀.journal ++ calls.flatMap (·.events policy) := by
  induction h with
  | nil => exact (List.append_nil _).symm
  | concat h c later answered ih =>
    have fetched := journal_fetch answered
    change _ ++ c.sequel policy = _
    rw [fetched, List.flatMap_append, List.flatMap_singleton, Call.events]
    simp [ih]

/-- The lane after a call when `left` others could follow before it. -/
def Call.lane (policy : RetryPolicy) (c : Call) (left : Nat) : Lane :=
  if c.isLast policy then .settled c.answer
  else .running c.target (c.attempt + 1) (left - 1) (c.time + policy.delayFor c.attempt)

theorem run_attempt_call (k : Nat) (t : Target) {n left : Nat} (most : n + left = policy.retries + 1)
    (w : World σ) :
    (f.attempt policy t n left).run w =
      let (answer, w') := (f.fetch t).run w
      let c : Call := ⟨k, t, n, w.clock, answer⟩
      (c.lane policy left, w'.noteAll (c.sequel policy)) := by
  have clock : ((f.fetch t).run w).2.clock = w.clock := rfl
  rw [run_attempt]
  rcases hx : (f.fetch t).run w with ⟨e | path, w'⟩
  all_goals
    rw [hx] at clock
    dsimp only at clock
  · cases left with
    | zero =>
      have last : n = policy.retries + 1 := most
      simp [Call.lane, Call.sequel, Call.isLast, last, World.noteAll, World.note, Except.isOk, Except.toBool]
    | succ left =>
      have notLast : n ≠ policy.retries + 1 := by omega
      by_cases again : e.retryable
      · simp [Call.lane, Call.sequel, Call.isLast, Attempts.settles, notLast, again, World.noteAll, World.note,
          pauseEvents, clock]
      · simp [Call.lane, Call.sequel, Call.isLast, Attempts.settles, again, World.noteAll, World.note,
          Except.isOk, Except.toBool]
  · simp [Call.lane, Call.sequel, Call.isLast, Attempts.settles, World.noteAll, World.note, Except.isOk, Except.toBool]

/-- A lane, and the calls that were made for its target. -/
inductive Tells (policy : RetryPolicy) (mine : List Call) (t : Target) : Lane → Prop
  | running {left wake : Nat} (open_ : Open policy mine)
    (most : mine.length + 1 + left = policy.retries + 1)
    (due : ∀ c ∈ mine.getLast?, c.time + policy.delayFor c.attempt ≤ wake) :
    Tells policy mine t (.running t (mine.length + 1) left wake)
  | settled {r : Except FetchError String} (ended : Ended policy mine r) :
    Tells policy mine t (.settled r)

theorem tells_lane {mine : List Call} {c : Call} {left : Nat} (open_ : Open policy mine)
    (row : Row policy (mine ++ [c])) (most : mine.length + 1 + left = policy.retries + 1) :
    Tells policy (mine ++ [c]) c.target (c.lane policy left) := by
  have number := row.of_concat.2
  have longer : (mine ++ [c]).length = c.attempt := by simp [number]
  rw [Call.lane]
  split
  · rename_i final
    exact .settled ⟨mine, c, rfl, open_, row, final, rfl⟩
  · rename_i goesOn
    have more : left ≠ 0 := by
      rintro rfl
      rw [Call.isLast, number, Bool.or_eq_true, decide_eq_true_eq] at goesOn
      exact goesOn (.inr most)
    rw [← longer]
    refine .running (open_.concat row goesOn) (by omega) fun b hb => ?_
    rw [List.getLast?_concat] at hb
    obtain rfl := Option.some.inj hb
    rw [longer]

end

end Fetcher

def DownloadWindow.allLanes (win : DownloadWindow) : List Lane :=
  win.saved.map (fun path => .settled (.ok path)) ++ win.lanes

namespace Fetcher

section
variable {σ : Type}

structure Traces (f : Fetcher σ) (policy : RetryPolicy) (targets : List Target) (w₀ : World σ)
    (calls : List Call) (s : DownloadWindow × World σ) : Prop where
  called : f.Called policy w₀ calls s.2
  targeted : ∀ c ∈ calls, targets[c.index]? = some c.target ∧ c.index < s.1.allLanes.length
  waiting : s.1.waiting = targets.drop s.1.allLanes.length
  lanes : ∀ k lane, s.1.allLanes[k]? = some lane →
    ∃ t, targets[k]? = some t ∧ Tells policy (callsFor calls k) t lane

variable {f : Fetcher σ} {policy : RetryPolicy} {limit : Nat} {w₀ w w' : World σ} {calls : List Call}
  {targets : List Target} {s s' : DownloadWindow × World σ}

theorem traces_nil (f : Fetcher σ) (policy : RetryPolicy) (targets : List Target) (w₀ : World σ) :
    f.Traces policy targets w₀ [] ({ waiting := targets }, w₀) where
  called := .nil
  targeted c hc := by cases hc
  waiting := rfl
  lanes k lane hk := by simp [DownloadWindow.allLanes] at hk

theorem Traces.callsFor_eq_nil (h : f.Traces policy targets w₀ calls s) {k : Nat}
    (beyond : s.1.allLanes.length ≤ k) : callsFor calls k = [] := by
  refine List.filter_eq_nil_iff.mpr fun c hc => ?_
  have inside := (h.targeted c hc).2
  simp only [decide_eq_true_eq]
  omega

theorem allLanes_setLane (win : DownloadWindow) (i : Nat) (lane : Lane) :
    (win.setLane i lane).allLanes = win.allLanes.set (win.saved.length + i) lane := by
  simp [DownloadWindow.allLanes, DownloadWindow.setLane]

theorem Traces.call {win : DownloadWindow} {i n left wake : Nat} {t : Target}
    (h : f.Traces policy targets w₀ calls (win, w)) (hi : win.lanes[i]? = some (.running t n left wake)) :
    ∃ c, f.Traces policy targets w₀ (calls ++ [c]) ((f.stepLane policy win i).run w) := by
  obtain ⟨k, here⟩ : ∃ k, win.saved.length + i = k := ⟨_, rfl⟩
  have hk : win.allLanes[k]? = some (.running t n left wake) := by
    simp [DownloadWindow.allLanes, ← here, List.getElem?_append_right, hi]
  obtain ⟨bound, -⟩ := List.getElem?_eq_some_iff.mp hk
  obtain ⟨t', ht, tells⟩ := h.lanes k _ hk
  cases tells with
  | running open_ most due =>
    rw [run_stepLane hi, run_attempt_call k t most]
    rcases hx : (f.fetch t).run { w with clock := max w.clock wake } with ⟨answer, w'⟩
    let c : Call := ⟨k, t, (callsFor calls k).length + 1, max w.clock wake, answer⟩
    have row : Row policy (callsFor calls k ++ [c]) :=
      open_.row.concat rfl fun b hb => Nat.le_trans (due b hb) (Nat.le_max_right _ _)
    refine ⟨c, .concat h.called c (Nat.le_max_left _ _) hx, fun b hb => ?_, ?_, fun j lane hj => ?_⟩
    · rw [allLanes_setLane, List.length_set]
      rcases List.mem_append.mp hb with hb | hb
      · exact h.targeted b hb
      · rw [List.mem_singleton.mp hb]
        exact ⟨ht, bound⟩
    · rw [allLanes_setLane, List.length_set]
      exact h.waiting
    · rw [allLanes_setLane, here] at hj
      by_cases same : j = k
      · rw [same, List.getElem?_set_self bound] at hj
        obtain rfl := Option.some.inj hj
        rw [same]
        refine ⟨t, ht, ?_⟩
        rw [show callsFor (calls ++ [c]) k = callsFor calls k ++ [c] from callsFor_concat_self calls c]
        exact tells_lane open_ row most
      · rw [List.getElem?_set_ne (Ne.symm same)] at hj
        rw [callsFor_concat_ne calls (Ne.symm same : c.index ≠ j)]
        exact h.lanes j lane hj

theorem Turn.traces (turn : f.Turn policy limit s s') (h : f.Traces policy targets w₀ calls s) :
    ∃ calls', f.Traces policy targets w₀ calls' s' := by
  cases turn with
  | handOn waiting path rest saved w =>
    have same : DownloadWindow.allLanes ⟨waiting, rest, saved ++ [path]⟩ =
        DownloadWindow.allLanes ⟨waiting, .settled (.ok path) :: rest, saved⟩ := by
      simp [DownloadWindow.allLanes]
    refine ⟨calls, h.called, ?_, ?_, ?_⟩
    all_goals
      dsimp only
      rw [same]
    · exact h.targeted
    · exact h.waiting
    · exact h.lanes
  | @start t waiting lanes saved w room =>
    let win : DownloadWindow := ⟨t :: waiting, lanes, saved⟩
    have more : DownloadWindow.allLanes ⟨waiting, lanes ++ [.running t 1 policy.retries w.clock], saved⟩ =
        win.allLanes ++ [.running t 1 policy.retries w.clock] := by
      simp [DownloadWindow.allLanes, win]
    have next : t :: waiting = targets.drop win.allLanes.length := h.waiting
    have ht : targets[win.allLanes.length]? = some t := by
      rw [← List.head?_drop, ← next]
      rfl
    refine ⟨calls, h.called, ?_, ?_, ?_⟩
    all_goals
      dsimp only
      rw [more]
    · intro c hc
      rw [List.length_append]
      exact ⟨(h.targeted c hc).1, Nat.lt_succ_of_lt (h.targeted c hc).2⟩
    · rw [List.length_append, List.length_singleton, ← List.tail_drop, ← next]
      rfl
    · intro k lane hk
      by_cases inside : k < win.allLanes.length
      · rw [List.getElem?_append_left inside] at hk
        exact h.lanes k lane hk
      · obtain ⟨bound, -⟩ := List.getElem?_eq_some_iff.mp hk
        rw [List.length_append, List.length_singleton] at bound
        obtain rfl : k = win.allLanes.length := by omega
        rw [List.getElem?_concat_length] at hk
        obtain rfl := Option.some.inj hk
        have none : callsFor calls win.allLanes.length = [] := h.callsFor_eq_nil (Nat.le_refl _)
        refine ⟨t, ht, ?_⟩
        rw [none]
        exact .running .nil (by simp [Nat.add_comm]) (by simp)
  | @attempt win i n left wake t hi w =>
    obtain ⟨c, traces⟩ := h.call hi
    exact ⟨_, traces⟩

theorem Reaches.traces (h : f.Reaches policy limit targets w₀ s) :
    ∃ calls, f.Traces policy targets w₀ calls s := by
  induction h with
  | refl => exact ⟨[], traces_nil f policy targets w₀⟩
  | tail _ turn ih =>
    obtain ⟨calls, traces⟩ := ih
    exact turn.traces traces

/-! ## An account of all calls -/

structure Unfinished (policy : RetryPolicy) (mine : List Call) : Prop where
  goesOn : ∀ c ∈ mine, ∃ e, c.answer = .error e ∧ e.retryable
  fewer : mine.length < max 1 policy.maxAttempts
  row : Row policy mine
  paced : Paced policy .download mine.length (mine.flatMap (·.events policy))
  fetched : (mine.flatMap (·.events policy)).countP Event.isFetch = mine.length
  uncounted : ∀ ok, (mine.flatMap (·.events policy)).countP (Activity.downloaded ok) = 0

/-- An account of the downloads of some targets, which came to `r`. -/
structure Account (f : Fetcher σ) (policy : RetryPolicy) (targets : List Target) (w₀ : World σ)
    (calls : List Call) (r : Except FetchError (List String)) (w : World σ) : Prop where
  called : f.Called policy w₀ calls w
  journal : w.journal = w₀.journal ++ calls.flatMap (·.events policy)
  targeted : ∀ c ∈ calls, targets[c.index]? = some c.target
  each : ∀ k, Unfinished policy (callsFor calls k) ∨ ∃ r, Finished policy (callsFor calls k) r
  paths : ∀ paths, r = .ok paths → paths.length = targets.length ∧
    ∀ k path, paths[k]? = some path → Finished policy (callsFor calls k) (.ok path)
  failure : ∀ e, r = .error e → ∃ k < targets.length, Finished policy (callsFor calls k) (.error e) ∧
    ∀ j < k, ∃ path, Finished policy (callsFor calls j) (.ok path)

theorem Open.unfinished {mine : List Call} (h : Open policy mine) : Unfinished policy mine := by
  obtain ⟨paced, fetched, uncounted⟩ := h.paced
  refine ⟨fun c hc => ?_, ?_, h.row, paced, fetched, uncounted⟩
  · have goesOn := h.goesOn c hc
    rw [Call.isLast, Bool.or_eq_true, not_or] at goesOn
    cases answer : c.answer with
    | ok path => exact absurd (by rw [answer]; rfl) goesOn.1
    | error e => exact ⟨e, rfl, by simpa [answer, Attempts.settles] using goesOn.1⟩
  · -- the attempts are numbered, so the last one that is allowed would be among them
    rw [policy.max_attempts]
    by_contra many
    have hi : mine[policy.retries]? = some mine[policy.retries] := List.getElem?_eq_getElem (by omega)
    have goesOn := h.goesOn _ (List.mem_of_getElem? hi)
    rw [Call.isLast, Bool.or_eq_true, decide_eq_true_eq, h.row.attempt_eq hi] at goesOn
    exact goesOn (.inr rfl)

theorem Traces.each (h : f.Traces policy targets w₀ calls s) (k : Nat) :
    Unfinished policy (callsFor calls k) ∨ ∃ r, Finished policy (callsFor calls k) r := by
  by_cases inside : k < s.1.allLanes.length
  · obtain ⟨t, -, tells⟩ := h.lanes k _ (List.getElem?_eq_getElem inside)
    generalize s.1.allLanes[k] = lane at tells
    cases tells with
    | running open_ most due => exact .inl open_.unfinished
    | settled ended => exact .inr ⟨_, ended.finished⟩
  · rw [h.callsFor_eq_nil (Nat.le_of_not_lt inside)]
    exact .inl Open.nil.unfinished

theorem Traces.finished {win : DownloadWindow} (h : f.Traces policy targets w₀ calls (win, w)) {k : Nat}
    {r : Except FetchError String} (hk : win.allLanes[k]? = some (.settled r)) :
    k < targets.length ∧ Finished policy (callsFor calls k) r := by
  obtain ⟨t, ht, tells⟩ := h.lanes k _ hk
  cases tells with
  | settled ended => exact ⟨(List.getElem?_eq_some_iff.mp ht).1, ended.finished⟩

theorem Traces.account {win : DownloadWindow} {r : Except FetchError (List String)}
    (h : f.Traces policy targets w₀ calls (win, w)) (returns : win.Returns r) :
    f.Account policy targets w₀ calls r w := by
  refine ⟨h.called, h.called.journal, fun c hc => (h.targeted c hc).1, h.each, fun paths ok => ?_,
    fun e failed => ?_⟩
  · cases returns with
    | failed e => cases ok
    | done saved =>
      cases ok
      have lanes : DownloadWindow.allLanes ⟨[], [], paths⟩ = paths.map (fun path => .settled (.ok path)) :=
        List.append_nil _
      have finished : ∀ k path, paths[k]? = some path →
          k < targets.length ∧ Finished policy (callsFor calls k) (.ok path) := by
        intro k path hk
        apply h.finished
        rw [lanes, List.getElem?_map, hk]
        rfl
      have waiting := h.waiting
      rw [lanes, List.length_map] at waiting
      refine ⟨Nat.le_antisymm ?_ (List.drop_eq_nil_iff.mp waiting.symm), fun k path hk => (finished k path hk).2⟩
      by_contra more
      have last := (finished (paths.length - 1) paths[paths.length - 1]
        (List.getElem?_eq_getElem (by omega))).1
      omega
  · cases returns with
    | done saved => cases failed
    | @failed waiting saved rest e =>
      cases failed
      have first : DownloadWindow.allLanes ⟨waiting, .settled (.error e) :: rest, saved⟩ =
          saved.map (fun path => .settled (.ok path)) ++ .settled (.error e) :: rest := rfl
      obtain ⟨bound, finished⟩ := h.finished (k := saved.length) (r := .error e) (by
        rw [first, List.getElem?_append_right (by simp)]
        simp)
      refine ⟨saved.length, bound, finished, fun j hj => ⟨saved[j], (h.finished ?_).2⟩⟩
      rw [first, List.getElem?_append_left (by simpa using hj)]
      simp [hj]

/-! ## Every sequence of outcomes -/

/-- A fetcher that counts its calls for each target and answers call number `i` for `t` with
`o t i`. -/
def answering (o : Target → Nat → Except FetchError String) : Fetcher (Target → Nat) where
  name := "answering"
  save url path calls disk :=
    let t : Target := ⟨url, path⟩
    (o t (calls t + 1), fun u => if u = t then calls u + 1 else calls u, disk)

theorem begins_of_answering {o : Target → Nat → Except FetchError String}
    {w₀ w : World (Target → Nat)} {calls : List Call} (distinct : targets.Nodup)
    (fresh : ∀ t, w₀.own t = 0) (h : (answering o).Called policy w₀ calls w)
    (targeted : ∀ c ∈ calls, targets[c.index]? = some c.target) {k : Nat} {t : Target}
    (ht : targets[k]? = some t) :
    Begins ((callsFor calls k).map (·.answer)) (o t) ∧ w.own t = (callsFor calls k).length := by
  induction h with
  | nil => exact ⟨rfl, fresh t⟩
  | @concat calls w w' h c later answered ih =>
    obtain ⟨begins, count⟩ := ih fun b hb => targeted b (List.mem_append_left _ hb)
    have here := targeted c (by simp)
    have answer : c.answer = o c.target (w.own c.target + 1) := congrArg Prod.fst answered.symm
    have own : w'.own t = if t = c.target then w.own t + 1 else w.own t :=
      congrArg (fun p : _ × World (Target → Nat) => p.2.own t) answered.symm
    change _ ∧ w'.own t = _
    by_cases mine : c.index = k
    · subst mine
      obtain rfl := Option.some.inj (here.symm.trans ht)
      rw [own, if_pos rfl, callsFor_concat_self, count, List.map_append, List.length_append]
      rw [count] at answer
      exact ⟨begins.concat (by rw [List.length_map]; exact answer), rfl⟩
    · have other : t ≠ c.target := by
        rintro rfl
        obtain ⟨bound, -⟩ := List.getElem?_eq_some_iff.mp here
        exact mine ((List.getElem?_inj bound distinct).mp (here.trans ht.symm))
      rw [own, if_neg other, callsFor_concat_ne calls mine]
      exact ⟨begins, count⟩

end

end Fetcher

/-! ## The law -/

structure LawOfAttempts {σ : Type} (f : Fetcher σ) (c : Composer σ) : Prop where
  downloads : ∀ policy limit targets w, ∃ calls, f.Account policy targets w calls
    ((f.downloadAll policy limit targets).run w).1 ((f.downloadAll policy limit targets).run w).2
  orders : ∀ policy limit targets w₀ win w r, f.Reaches policy limit targets w₀ (win, w) →
    win.Returns r → ∃ calls, f.Account policy targets w₀ calls r w
  sequences : ∀ o policy targets w₀ calls r w, targets.Nodup → (∀ t, w₀.own t = 0) →
    (Fetcher.answering o).Account policy targets w₀ calls r w →
    ∀ (k : Nat) t, targets[k]? = some t →
      Fetcher.Begins ((Fetcher.callsFor calls k).map (·.answer)) (o t)
  renders : ∀ p w, ∃ n evs, c.RendersBy p w n ((c.renderWithRetry p 1 c.settings.retry.retries).run w).1
    ((c.renderWithRetry p 1 c.settings.retry.retries).run w).2 evs
  runnable : ∀ stamp r w p w', (c.prepare stamp r).exec w = (.ok p, w') → p.Runnable

/-- **The law of attempts**, whatever the outcomes are. -/
theorem law_of_attempts {σ : Type} (f : Fetcher σ) (c : Composer σ) : LawOfAttempts f c where
  downloads policy limit targets w := by
    obtain ⟨win, reaches, returns⟩ := f.downloadAll_reaches policy limit targets w
    obtain ⟨calls, traces⟩ := reaches.traces
    exact ⟨calls, traces.account returns⟩
  orders policy limit targets w₀ win w r reaches returns := by
    obtain ⟨calls, traces⟩ := reaches.traces
    exact ⟨calls, traces.account returns⟩
  sequences o policy targets w₀ calls r w distinct fresh account k t ht :=
    (Fetcher.begins_of_answering distinct fresh account.called account.targeted ht).1
  renders p w := c.renderWithRetry_by p w
  runnable _ _ _ _ _ h := Composer.runnable_of_prepare h

/-- Of two sources one is there at the third attempt, and the other one is not known. -/
theorem law_of_attempts_two :
    let c := Rehearsal.Crew.composer {} Rehearsal.Crew.recordStore "work"
    let crew : Rehearsal.Crew :=
      { downloads := { errors := [.http "a" 503, .http "b" 404, .http "a" 429] } }
    let downloaded := (c.fetcher.downloadAll {} 2 [⟨"a", "0"⟩, ⟨"b", "1"⟩]).run ⟨crew, {}, [], 0⟩
    LawOfAttempts c.fetcher c ∧ downloaded.1 = .error (.http "b" 404) ∧
      downloaded.2.journal = [.fetched "a" "0" false, .retried .download, .waited 500,
        .fetched "b" "1" false, .downloaded false, .fetched "a" "0" false, .retried .download,
        .waited 1000, .fetched "a" "0" true, .downloaded true] := by
  intro c crew downloaded
  exact ⟨law_of_attempts c.fetcher c, by decide +kernel⟩

end Montage
