import Montage.Proofs.Transcoder.Stream
import Montage.Transcoder.Child

/-!
# How runs of the transcoder end

A run that is in time is read to its end, line after line, if what the program wrote is text. Then
its exit code decides. If it is not text the run counts as one that could not be read, whatever the
exit code says.
-/

namespace Montage

variable {run : ChildRun} {limit : Nat} {code : Int} {text : String} {lines : List String}
  {outcome : Except RenderError RunReport}

/-! ## Reading -/

namespace Reading

variable {deadline : Nat} {ls : List (Nat × Bytes)}

def hears (r : Reading) (heard : List (Nat × String)) : Reading :=
  heard.foldl (fun r l => r.line l.1 l.2) r

theorem exists_hears (limit : Nat) (early : ∀ l ∈ ls, l.1 < deadline)
    (texts : (ls.map (·.2)).map Text.decode = lines.map .ok) :
    ∃ heard : List (Nat × String), heard.map (·.2) = lines ∧
      ∀ r, Reading.lines limit deadline r ls = (.ok (), r.hears heard) := by
  induction ls generalizing lines with
  | nil =>
    obtain rfl : lines = [] := by simpa using texts
    exact ⟨[], rfl, fun _ => rfl⟩
  | cons l ls ih =>
    cases lines with
    | nil => cases texts
    | cons s lines =>
      obtain ⟨now, bytes⟩ := l
      obtain ⟨head, tail⟩ := List.cons.inj texts
      obtain ⟨first, others⟩ := List.forall_mem_cons.mp early
      obtain ⟨heard, rfl, reads⟩ := ih others tail
      refine ⟨(now, s) :: heard, rfl, fun r => ?_⟩
      rw [Reading.lines, if_neg (Nat.not_le.mpr first)]
      simp only at head
      rw [head]
      exact reads (r.line now s)

/-- A line that is no text is the end of the reading. -/
theorem lines_broken (limit : Nat) (early : ∀ l ∈ ls, l.1 < deadline)
    (broken : ¬ ∃ lines : List String, (ls.map (·.2)).map Text.decode = lines.map .ok)
    (r : Reading) :
    ∃ message, (Reading.lines limit deadline r ls).1 = .error (.io (.other message)) := by
  induction ls generalizing r with
  | nil => exact absurd ⟨[], rfl⟩ broken
  | cons l ls ih =>
    obtain ⟨now, bytes⟩ := l
    obtain ⟨first, others⟩ := List.forall_mem_cons.mp early
    rw [Reading.lines, if_neg (Nat.not_le.mpr first)]
    cases head : Text.decode bytes with
    | error e => exact ⟨e.message, rfl⟩
    | ok s =>
      refine ih others ?_ (r.line now s)
      rintro ⟨lines, tail⟩
      exact broken ⟨s :: lines, by simp [head, ← tail]⟩

end Reading

/-! ## Ending -/

def Ending.verdict (limit : Nat) (text : String) : Ending → Except RenderError RunReport
  | .exited code => if code = 0 then .ok ⟨some 0, text⟩ else .error (.processFailed (some code) text)
  | .killed => .error (.processFailed none text)
  | .hanging => .error (.timeout limit)

/-- **A run whose lines are text** is decided by how it ended. -/
theorem ChildRun.exists_hears (inTime : run.InTime limit) (tells : run.Tells lines) :
    ∃ heard : List (Nat × String), heard.map (·.2) = lines ∧
      ∀ watch, run.outcome limit watch =
        (run.ending.verdict limit (Reading.hears { watch } heard).text,
          (Reading.hears { watch } heard).watch) := by
  rw [Tells, ← errorLines_eq inTime.ends] at tells
  obtain ⟨heard, same, reads⟩ := Reading.exists_hears limit inTime.errorLines tells
  refine ⟨heard, same, fun watch => ?_⟩
  rw [outcome]
  simp only [reads, if_neg (Nat.not_le.mpr inTime.length)]
  cases run.ending <;> rfl

theorem ChildRun.outcome_broken (inTime : run.InTime limit) (broken : ¬ ∃ lines, run.Tells lines)
    (watch : Option Watch) :
    ∃ message, (run.outcome limit watch).1 = .error (.io (.other message)) := by
  simp only [Tells, ← errorLines_eq inTime.ends] at broken
  obtain ⟨message, stops⟩ := Reading.lines_broken limit inTime.errorLines broken { watch }
  refine ⟨message, ?_⟩
  rw [outcome]
  generalize Reading.lines limit (limit * 1000) { watch } run.errorLines = read at stops
  obtain ⟨end', r⟩ := read
  subst stops
  rfl

/-! ## Runs of a program -/

def Decided (code : Int) (outcome : Except RenderError RunReport) : Prop :=
  ∃ text, outcome = if code = 0 then .ok ⟨some 0, text⟩ else .error (.processFailed (some code) text)

theorem Decided.not_io {e : DiskError} : ¬ Decided code (.error (.io e)) := by
  rintro ⟨text, same⟩
  split at same <;> cases same

theorem Decided.not_retryable {e : RenderError} (h : Decided code (.error e)) :
    e.retryable = false := by
  obtain ⟨text, same⟩ := h
  split at same
  · cases same
  · cases same
    rfl

namespace Transcoder

variable {σ : Type} {launch : Launcher σ} {path : String} {arguments : List String}
  {watch : Option Watch} {own own' : σ} {d d' : Disk}

def commandLine (watch : Option Watch) (arguments : List String) : List String :=
  (if watch.isSome then progressFlags else []) ++ arguments

theorem run_started (started : launch path (commandLine watch arguments) own d = (.started run, own', d')) :
    (ofProgram launch path limit).run arguments watch own d =
      ⟨(run.outcome limit watch).1, (run.outcome limit watch).2, run.length, own', d'⟩ := by
  rw [commandLine] at started
  simp only [ofProgram, started]

/-- **The exit code decides** if what the program wrote is text, and only then. If it is not, the
run fails as one that could not be read, and that is a failure to try again. -/
theorem decided_iff_text
    (started : launch path (commandLine watch arguments) own d = (.started run, own', d'))
    (inTime : run.InTime limit) (exited : run.ending = .exited code) :
    let outcome := ((ofProgram launch path limit).run arguments watch own d).outcome
    let isText := ∃ s, Text.decode run.written = .ok s
    (Decided code outcome ↔ isText) ∧
      (∀ e, outcome = .error e → (e.retryable = true ↔ ¬ isText)) ∧
      (¬ isText → ∃ message, outcome = .error (.io (.other message))) := by
  rw [run_started started, ← ChildRun.exists_tells_iff]
  simp only
  by_cases told : ∃ lines, run.Tells lines
  · obtain ⟨lines, tells⟩ := told
    obtain ⟨heard, -, ends⟩ := ChildRun.exists_hears inTime tells
    have decided : Decided code (run.outcome limit watch).1 := by
      rw [ends, exited]
      exact ⟨_, rfl⟩
    refine ⟨iff_of_true decided ⟨lines, tells⟩, fun e failed => ?_, absurd ⟨lines, tells⟩⟩
    rw [failed] at decided
    simp only [decided.not_retryable, Bool.false_eq_true, false_iff, not_not]
    exact ⟨lines, tells⟩
  · obtain ⟨message, unread⟩ := ChildRun.outcome_broken inTime told watch
    rw [unread]
    refine ⟨iff_of_false Decided.not_io told, ?_, fun _ => ⟨message, rfl⟩⟩
    rintro e ⟨⟩
    exact iff_of_true rfl told

def always (run : ChildRun) : Launcher Unit := fun _ _ own d => (.started run, own, d)

def paced : ChildRun where
  errors := [(600, Text.encode "frame=1\nNo such filter: 'blur'\nout_time_ms=50"),
    (1200, Text.encode "0000\nspeed= 1.5x\n"), (1300, Text.encode "progress=end")]
  length := 1400
  ending := .exited 1

theorem inTime_paced : paced.InTime 60 := ⟨by decide, by decide, by decide +kernel⟩

theorem decided_iff_text_paced :
    Decided 1 ((ofProgram (always paced) "ffmpeg" 60).run [] none () {}).outcome := by
  have text : Text.decode paced.written = .ok
      "frame=1\nNo such filter: 'blur'\nout_time_ms=500000\nspeed= 1.5x\nprogress=end" := by
    decide +kernel
  have started : always paced "ffmpeg" (commandLine none []) () {} = (.started paced, (), {}) := rfl
  exact (decided_iff_text started inTime_paced rfl).1.mpr ⟨_, text⟩

/-- One octet that is no text hides how the program ended. -/
theorem undecided_octet : ¬ ∀ (run : ChildRun) (limit : Nat) (code : Int) (watch : Option Watch),
    run.InTime limit → run.ending = .exited code →
      Decided code ((ofProgram (always run) "ffmpeg" limit).run [] watch () {}).outcome := by
  intro claimed
  have decided := claimed { errors := [(0, [0x61, 0xff, 0x0a])], ending := .exited 1 } 60 1 none
    ⟨by decide, by decide, by decide⟩ rfl
  exact Decided.not_io decided

end Transcoder

end Montage
