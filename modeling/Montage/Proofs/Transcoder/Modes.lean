import Montage.Proofs.Number.Rounding
import Montage.Proofs.Transcoder.Reports

/-!
# Runs with and without a watcher

A program that writes the same lines and ends the same way is judged the same, whether it is watched
or not. Only its diagnostics differ, by lines that count as progress. What the watcher is sent are
percentages from zero to a hundred, whatever the total is and whatever times the lines report.
-/

namespace Montage

open TranscoderLine

variable {run : ChildRun} {limit : Nat} {lines : List String}

/-! ## Percentages -/

theorem measured_seconds (digits : List Char) : (seconds digits).Measured := by
  refine Scalar.Measured.div _ ?_ (by norm_num)
  unfold Decimal.toScalar
  simp only [Bool.false_eq_true, if_false]
  split_ifs
  · exact Scalar.measured_num.mpr (le_refl 0)
  · rfl
  · refine Scalar.measured_round _ ?_
    exact mul_nonneg (Nat.cast_nonneg _) (zpow_nonneg (by norm_num) _)

theorem measured_lastTime (lines : List String) : (lastTime lines).Measured := by
  induction lines using List.reverseRecOn with
  | nil => exact Scalar.measured_num.mpr (le_refl 0)
  | append_singleton lines s ih =>
    rw [lastTime_concat]
    cases read : time? s.toList with
    | none => exact ih
    | some t =>
      obtain ⟨digits, -, rfl⟩ := time?_eq_some read
      exact measured_seconds digits

/-- **A percentage is one**, for any total and any time that is not below zero. -/
theorem Progress.percentOf_bounds {time : Scalar} (h : time.Measured) (total : Option Scalar) :
    Scalar.zero.le (percentOf time total) ∧ (percentOf time total).le 100 := by
  have least : Scalar.zero.le .zero ∧ Scalar.zero.le 100 := by decide +kernel
  unfold percentOf
  cases total with
  | none => exact least
  | some t =>
    by_cases positive : Scalar.zero.lt t
    · simp only [if_pos positive]
      have share : (Scalar.mul .double (.div .double time t) 100).Measured ∨
          Scalar.mul .double (.div .double time t) 100 = .nan := by
        rcases h.div_or_nan .double positive with measured | nan
        · exact .inl (measured.mul _ (by norm_num))
        · exact .inr (by rw [nan]; rfl)
      rcases Scalar.min_cases (m := (100 : Nat)) (by norm_num) share with ⟨q, value, above, below⟩ | zero
      · obtain ⟨v, rounded, above, below⟩ :
            ∃ v, Precision.single.round q = .num v ∧ 0 ≤ v ∧ v ≤ (100 : Nat) :=
          Precision.round_le (by decide) (by decide) (by norm_num) above below
        have narrowed : ((Scalar.mul .double (.div .double time t) 100).min 100).narrow .single =
            .num v := (congrArg (Scalar.narrow .single) value).trans rounded
        rw [narrowed]
        exact ⟨Scalar.measured_num.mpr above, Scalar.le_num.mpr below⟩
      · have narrowed : ((Scalar.mul .double (.div .double time t) 100).min 100).narrow .single =
            .negZero := congrArg (Scalar.narrow .single) zero
        rw [narrowed]
        decide +kernel
    · simp only [if_neg positive]
      exact least

/-! ## Times -/

/-- The time that lines report last: zero if none does, and else the digits that the last one of
them has, as millionths of a second. -/
inductive LastTime : List String → Scalar → Prop
  | none {lines : List String} :
    (∀ line ∈ lines, ∀ digits, ¬ NamesTime digits line.toList) → LastTime lines .zero
  | some {front back : List String} {line : String} {digits : List Char} :
    NamesTime digits line.toList → (∀ later ∈ back, ∀ digits, ¬ NamesTime digits later.toList) →
      LastTime (front ++ line :: back) (seconds digits)

theorem lastTime_spec (lines : List String) : LastTime lines (lastTime lines) := by
  induction lines using List.reverseRecOn with
  | nil => exact .none (by simp)
  | append_singleton lines s ih =>
    rw [lastTime_concat]
    generalize lastTime lines = before at ih
    cases read : time? s.toList with
    | some t =>
      obtain ⟨digits, names, rfl⟩ := time?_eq_some read
      exact .some names (by simp)
    | none =>
      have silent : ∀ digits, ¬ NamesTime digits s.toList := by
        rw [← not_exists, ← isSome_time?, read]
        exact nofun
      simp only [Option.getD_none]
      cases ih with
      | none others => exact .none (by simpa [or_imp, forall_and] using ⟨others, silent⟩)
      | some names after =>
        rw [List.append_assoc, List.cons_append]
        exact .some names (by simpa [or_imp, forall_and] using ⟨after, silent⟩)

/-! ## Both modes -/

def diagnosticsOf : Except RenderError RunReport → Option String
  | .ok report => some report.diagnostics
  | .error e => e.diagnostics?

inductive Alike : Except RenderError RunReport → Except RenderError RunReport → Prop
  | ok {code : Option Int} {s t : String} : Alike (.ok ⟨code, s⟩) (.ok ⟨code, t⟩)
  | failed {code : Option Int} {s t : String} :
    Alike (.error (.processFailed code s)) (.error (.processFailed code t))

section
variable {ending : Ending} (ends : ending ≠ .hanging)
include ends

theorem alike_verdict (s t : String) : Alike (ending.verdict limit s) (ending.verdict limit t) := by
  cases ending with
  | exited code =>
    by_cases zero : code = 0
    · simp only [Ending.verdict, if_pos zero]
      exact .ok
    · simp only [Ending.verdict, if_neg zero]
      exact .failed
  | killed => exact .failed
  | hanging => exact absurd rfl ends

theorem diagnosticsOf_verdict (s : String) : diagnosticsOf (ending.verdict limit s) = some s := by
  cases ending with
  | exited code =>
    by_cases zero : code = 0
    · simp only [Ending.verdict, if_pos zero]
      rfl
    · simp only [Ending.verdict, if_neg zero]
      rfl
  | killed => rfl
  | hanging => exact absurd rfl ends

end

structure Agree {σ : Type} (lines : List String) (w : Watch) (plain watched : Ran σ) : Prop where
  outcomes : Alike plain.outcome watched.outcome
  all : diagnosticsOf plain.outcome = some (unlines lines)
  kept : diagnosticsOf watched.outcome =
    some (unlines (lines.filter fun line => !isProgress line.toList))
  removed : ∀ line ∈ lines, isProgress line.toList →
    (∃ digits, NamesTime digits line.toList) ∨ NamesSpeed line.toList ∨
      '=' ∈ line.toList ∧ ' ' ∉ line.toList
  messages : ∃ sent room, watched.watch = some ⟨w.total, room, w.mailbox.messages ++ sent⟩ ∧
    sent.length + room = w.mailbox.room ∧ ∀ p ∈ sent,
      (Scalar.zero.le p.percent ∧ p.percent.le 100) ∧ p.total = w.total ∧
        ∃ front line back, lines = front ++ line :: back ∧ LastTime (front ++ [line]) p.time

namespace Transcoder

variable {σ : Type} {launch : Launcher σ} {path : String} {arguments : List String} {w : Watch}
  {own own' other other' : σ} {d d' e e' : Disk}

/-- **Watching a run changes its diagnostics only**, by lines that count as progress. -/
theorem agree_of_started
    (plain : launch path (commandLine none arguments) own d = (.started run, own', d'))
    (watched : launch path (commandLine (some w) arguments) other e = (.started run, other', e'))
    (inTime : run.InTime limit) (tells : run.Tells lines) :
    Agree lines w ((ofProgram launch path limit).run arguments none own d)
      ((ofProgram launch path limit).run arguments (some w) other e) := by
  obtain ⟨heard, rfl, ends⟩ := ChildRun.exists_hears inTime tells
  have all := Reading.hears_unwatched heard (r := { watch := none }) rfl
  have follows := Reading.follows_hears w heard
  rw [run_started plain, run_started watched, ends none, ends (some w)]
  refine ⟨alike_verdict inTime.ends _ _, ?_, ?_, fun line _ => isProgress_iff.mp, ?_⟩
  · rw [diagnosticsOf_verdict inTime.ends]
    exact congrArg (some ∘ unlines) all
  · rw [diagnosticsOf_verdict inTime.ends]
    exact congrArg (some ∘ unlines) follows.kept
  · obtain ⟨sent, room, watch, rooms, speaks⟩ := follows.watch
    refine ⟨sent, room, watch, rooms, fun p mem => ?_⟩
    obtain ⟨front, line, back, same, time, total, percent⟩ := speaks p mem
    refine ⟨?_, total, front, line, back, same, time ▸ lastTime_spec _⟩
    rw [percent]
    exact Progress.percentOf_bounds (time ▸ measured_lastTime _) _

theorem agree_paced :
    Agree ["frame=1", "No such filter: 'blur'", "out_time_ms=500000", "speed= 1.5x", "progress=end"]
      observer ((ofProgram (always paced) "ffmpeg" 60).run [] none () {})
      ((ofProgram (always paced) "ffmpeg" 60).run [] (some observer) () {}) := by
  have started (watch : Option Watch) :
      always paced "ffmpeg" (commandLine watch []) () {} = (.started paced, (), {}) := rfl
  exact agree_of_started (started none) (started (some observer)) inTime_paced tells_paced

end Transcoder

end Montage
