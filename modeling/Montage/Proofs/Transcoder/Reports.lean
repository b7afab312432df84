import Montage.Proofs.Transcoder.Watching

/-!
# Reports and diagnostics

The diagnostics of a run that is watched are its lines without those that count as progress. Reports
and diagnostics are told apart just as long as no line is taken for what it is not.
-/

namespace Montage

open TranscoderLine

variable {run : ChildRun} {limit : Nat} {lines : List String} {heard : List (Nat × String)}

/-! ## Lines as one text -/

def unlines (lines : List String) : String := String.join (lines.map (· ++ "\n"))

theorem unlines_cons (line : String) (lines : List String) :
    (unlines (line :: lines)).toList = line.toList ++ '\n' :: (unlines lines).toList := by
  simp [unlines, String.toList_join]

theorem splitOn_unlines (free : ∀ line ∈ lines, '\n' ∉ line.toList) :
    (unlines lines).toList.splitOn '\n' = lines.map String.toList ++ [[]] := by
  induction lines with
  | nil => rfl
  | cons line lines ih =>
    obtain ⟨head, tail⟩ := List.forall_mem_cons.mp free
    rw [unlines_cons, splitOn_line head, ih tail]
    rfl

theorem unlines_inj {others : List String} (free : ∀ line ∈ lines, '\n' ∉ line.toList)
    (free' : ∀ line ∈ others, '\n' ∉ line.toList) : unlines lines = unlines others ↔ lines = others := by
  refine ⟨fun same => ?_, congrArg unlines⟩
  have parts := splitOn_unlines free
  rw [same, splitOn_unlines free', List.append_cancel_right_eq] at parts
  exact (List.map_injective_iff.mpr (fun _ _ => String.toList_injective) parts).symm

theorem filter_eq_filter_iff {α : Type} {p q : α → Bool} {l : List α} :
    l.filter p = l.filter q ↔ ∀ a ∈ l, p a = q a := by
  refine ⟨fun same a mem => ?_, List.filter_congr⟩
  have both : a ∈ l.filter p ↔ a ∈ l.filter q := same ▸ Iff.rfl
  rw [List.mem_filter, List.mem_filter] at both
  simpa [mem] using both

/-! ## Runs of a program -/

namespace Transcoder

variable {σ : Type} {launch : Launcher σ} {path : String} {arguments : List String} {w : Watch}
  {own own' : σ} {d d' : Disk}

/-- **The diagnostics of a run that is watched** are the lines that do not count as progress. They
are the lines that are no reports exactly if none of the lines is taken for what it is not. -/
theorem told_apart_iff
    (started : launch path (commandLine (some w) arguments) own d = (.started run, own', d'))
    (inTime : run.InTime limit) (tells : run.Tells lines) :
    ∃ text, ((ofProgram launch path limit).run arguments (some w) own d).outcome =
        run.ending.verdict limit text ∧
      text = unlines (lines.filter fun line => !isProgress line.toList) ∧
      (text = unlines (lines.filter fun line => ¬ IsReport line.toList) ↔
        ∀ line ∈ lines, ¬ Mistaken line.toList) := by
  have free (p : String → Bool) : ∀ line ∈ lines.filter p, '\n' ∉ line.toList :=
    fun line mem => tells.free line (List.mem_of_mem_filter mem)
  obtain ⟨heard, rfl, ends⟩ := ChildRun.exists_hears inTime tells
  have text : (Reading.hears { watch := some w } heard).text =
      unlines ((heard.map (·.2)).filter fun line => !isProgress line.toList) :=
    congrArg unlines (Reading.follows_hears w heard).kept
  refine ⟨_, ?_, text, ?_⟩
  · rw [run_started started, ends]
  · rw [text, unlines_inj (free _) (free _), filter_eq_filter_iff]
    refine forall₂_congr fun line _ => ?_
    rw [mistaken_iff, not_not]
    cases isProgress line.toList <;> simp

theorem tells_paced : paced.Tells
    ["frame=1", "No such filter: 'blur'", "out_time_ms=500000", "speed= 1.5x", "progress=end"] := by
  unfold ChildRun.Tells
  decide +kernel

def observer : Watch := ⟨some 10, ⟨4, []⟩⟩

theorem told_apart_paced :
    ((ofProgram (always paced) "ffmpeg" 60).run [] (some observer) () {}).outcome =
      .error (.processFailed (some 1) "No such filter: 'blur'\n") := by
  have started : always paced "ffmpeg" (commandLine (some observer) []) () {} =
      (.started paced, (), {}) := rfl
  obtain ⟨text, ends, -, apart⟩ := told_apart_iff started inTime_paced tells_paced
  have none : ∀ line ∈
      ["frame=1", "No such filter: 'blur'", "out_time_ms=500000", "speed= 1.5x", "progress=end"],
      ¬ Mistaken line.toList := by
    simp only [mistaken_iff]
    decide +kernel
  rw [ends, apart.mpr none]
  decide +kernel

/-- A report with a blank in its value is kept, and a complaint that mentions a speed is lost. -/
theorem complaint_swapped : ¬ ∀ (run : ChildRun) (limit : Nat) (lines : List String) (w : Watch),
    run.InTime limit → run.Tells lines →
      ((ofProgram (always run) "ffmpeg" limit).run [] (some w) () {}).outcome =
        run.ending.verdict limit (unlines (lines.filter fun line => ¬ IsReport line.toList)) := by
  intro claimed
  have tells : ChildRun.Tells
      { errors := [(0, Text.encode "bitrate= 812.3kbits/s\nfilter at speed=2x failed\n")] }
      ["bitrate= 812.3kbits/s", "filter at speed=2x failed"] := by
    unfold ChildRun.Tells
    decide +kernel
  have apart := claimed _ 60 _ observer ⟨by decide, by decide, by decide +kernel⟩ tells
  revert apart
  decide +kernel

end Transcoder

end Montage
