import Montage.Proofs.Disk.Files
import Montage.Proofs.Pipeline.Sessions
import Montage.Rehearsal.Media

/-!
# What a run leaves behind

A run touches the disk at two times of its own: before the transcoder it makes the directory of
the output, and after a failure it takes the name of the output away. So a failure costs no file
but the one to which the path of the output leads, and that one whatever it is. After a good end
of the transcoder it is enough that something stands at the output, so a success is one of this
run if nothing stood there before.
-/

namespace Montage

/-- A path that is read for the streams of a pipeline: a source, or an image over one. -/
def Board.Reads (b : Board) (id : PipelineId) (path : String) : Prop :=
  ∃ ids, b.flatten id = .ok ids ∧ ∃ i ∈ ids,
    b.input? i = some path ∨ ∃ region, .overlay path region ∈ b.edits i

namespace Engine

variable {σ : Type} {e : Engine σ} {id : PipelineId} {output : String} {s t u : Session σ}

/-! ## Failures -/

theorem ready_retains {r : Except RenderError Graph} (h : (e.ready id output).exec s = (r, u)) :
    s.world.disk.Retains u.world.disk := by
  rcases (ready_prepares h).disk with same | ⟨-, made⟩
  · rw [same]
    exact .refl _
  · rw [made]
    exact Disk.retains_createDirectories _ _

theorem disk_endedAt_of_not_ok {r : Except RenderError RenderResult} (bad : ¬ r.isOk) (start : Nat)
    (s : Session σ) :
    (endedAt output start r s).world.disk = s.world.disk.removeFileIfAny output := by
  simp only [endedAt, if_neg bad]
  rfl

variable (e id output s) in
def Gentle : Prop :=
  ∀ g u, (e.ready id output).exec s = (.ok g, u) →
    u.world.disk.Retains (e.ranOn output g u).disk

section
variable (master : (s.board.get id).isMaster) (bound : s.board.isBound id)
include master bound

/-- After a failure nothing is missing but what goes with the name of the output. -/
theorem disk_of_failed (gentle : e.Gentle id output s) (failed : ¬ ((e.run id output).exec s).1.isOk) :
    ∃ d, s.world.disk.Retains d ∧
      ((e.run id output).exec s).2.world.disk = d.removeFileIfAny output := by
  have goes := e.run_goes id output s
  generalize (e.run id output).exec s = ended at goes failed ⊢
  cases goes with
  | refused no _ => exact absurd ⟨master, bound⟩ no
  | @unready u err _ _ hr => exact ⟨u.world.disk, ready_retains hr, disk_endedAt_of_not_ok failed _ _⟩
  | @called u g _ _ hr =>
    exact ⟨(e.ranOn output g u).disk, (ready_retains hr).trans (gentle g u hr),
      disk_endedAt_of_not_ok failed _ _⟩

/-- **What survives a failure.** A file that was there before the run is there after it, with the same
octets, just if the path of the output does not lead to it. -/
theorem survives_iff (gentle : e.Gentle id output s) (failed : ¬ ((e.run id output).exec s).1.isOk)
    {path : String} {content : Bytes} (there : s.world.disk.read path = .ok content) :
    ((e.run id output).exec s).2.world.disk.read path = .ok content ↔
      ((e.run id output).exec s).2.world.disk.resolve output ≠ s.world.disk.resolve path := by
  obtain ⟨d, retains, after⟩ := disk_of_failed master bound gentle failed
  obtain ⟨p, hr, -⟩ := Disk.read_eq_ok.mp there
  rw [after, hr, ← retains.resolve hr]
  exact Disk.read_removeFileIfAny_iff (retains.read there)

end

/-! ### A transcoder that touches nothing -/

def still (outcome : Except RenderError RunReport) : Engine Unit where
  probe := Rehearsal.Media.probe (fun _ => {}) fun path => path
  transcoder := { name := "still", run := fun _ watch own disk => ⟨outcome, watch, 0, own, disk⟩ }

def refusing : Engine Unit := still (.error (.processFailed (some 1) "Error initializing filters"))

theorem gentle_still (outcome : Except RenderError RunReport) (id : PipelineId) (output : String)
    (s : Session Unit) : (still outcome).Gentle id output s := fun _ _ _ => .refl _

def shelf : World Unit where
  own := ()
  disk :=
    { entries := [(["a.mp4"], .file 0), (["b.mp4"], .file 1), (["film.mp4"], .file 2)]
      contents := [(0, Text.encode "a"), (1, Text.encode "b"), (2, Text.encode "film")]
      nextFile := 3 }

def splicing : List (Deed Unit) :=
  [.act (.new ⟨1080, 1920⟩ true), .act (.new ⟨1080, 1920⟩ false), .act (.call 0 (.init "a.mp4")),
    .act (.call 1 (.init "b.mp4")), .act (.call 0 (.concat 1))]

theorem survives_beside_film :
    let s := refusing.afterAll shelf splicing
    let t := ((refusing.run 0 "film.mp4").exec s).2
    ¬ ((refusing.run 0 "film.mp4").exec s).1.isOk ∧
      s.world.disk.read "b.mp4" = .ok (Text.encode "b") ∧
      t.world.disk.read "b.mp4" = .ok (Text.encode "b") := by
  intro s t
  have failed : ¬ ((refusing.run 0 "film.mp4").exec s).1.isOk := by decide +kernel
  have there : s.world.disk.read "b.mp4" = .ok (Text.encode "b") := by decide +kernel
  have survives := survives_iff (by decide +kernel) (by decide +kernel) (gentle_still _ 0 "film.mp4" s)
    failed there
  refine ⟨failed, there, survives.mpr ?_⟩
  decide +kernel

/-- A source that is given as the output goes with the first failure. -/
theorem source_gone_as_output : ¬ ∀ (e : Engine Unit) (w : World Unit) (deeds : List (Deed Unit))
    (id : PipelineId) (output path : String) (content : Bytes),
    let s := e.afterAll w deeds
    (s.board.get id).isMaster → s.board.isBound id → e.Gentle id output s →
    ¬ ((e.run id output).exec s).1.isOk → s.board.Reads id path →
    s.world.disk.read path = .ok content →
    ((e.run id output).exec s).2.world.disk.read path = .ok content := by
  intro claimed
  have reads : (refusing.afterAll shelf splicing).board.Reads 0 "b.mp4" :=
    ⟨[0, 1], by decide +kernel, 1, by simp, .inl (by decide +kernel)⟩
  have left := claimed refusing shelf splicing 0 "b.mp4" "b.mp4" (Text.encode "b") (by decide +kernel)
    (by decide +kernel) (gentle_still _ _ _ _) (by decide +kernel) reads (by decide +kernel)
  revert left
  decide +kernel

/-! ## Successes -/

section
variable (e output) in
/-- The call of the transcoder brought something to the output, where nothing was. -/
def Brings (g : Graph) (u : Session σ) : Prop :=
  ¬ u.world.disk.has output ∧ (e.ranOn output g u).disk.has output

variable (e id output s) in
def Vacant : Prop := ∀ g u, (e.ready id output).exec s = (.ok g, u) → ¬ u.world.disk.has output

/-- Getting ready puts nothing at a free place, unless the path to it leads up. -/
theorem vacant_of_free (down : ".." ∉ Path.names output)
    (free : s.world.disk.occupant? (s.world.disk.place output) = none) : e.Vacant id output s := by
  intro g u hr
  apply Disk.not_has_of_free
  rw [Disk.place_congr (ready_retains hr).home]
  rcases (ready_prepares hr).disk with same | ⟨ne, made⟩
  · rw [same]
    exact free
  · rw [made]
    exact Disk.free_createDirectories_parent ne down free

variable (master : (s.board.get id).isMaster) (bound : s.board.isBound id)
include master bound

theorem isOk_iff :
    ((e.run id output).exec s).1.isOk ↔ ∃ g u, (e.ready id output).exec s = (.ok g, u) ∧
      (e.ranOn output g u).outcome.isOk ∧ (e.ranOn output g u).disk.has output := by
  rcases hr : (e.ready id output).exec s with ⟨err | g, u⟩
  · rw [exec_run_unready master bound hr]
    simp [Except.isOk, Except.toBool]
  · rw [exec_run_ready master bound hr]
    simp [verdict_isOk]

/-- **What a success means.** If nothing stood at the output when the transcoder was called, then a run
is good just if the transcoder ended well and brought something there, and a good end that brings
nothing is a failure with exit code 0. -/
theorem isOk_iff_brings (vacant : e.Vacant id output s) :
    (((e.run id output).exec s).1.isOk ↔ ∃ g u, (e.ready id output).exec s = (.ok g, u) ∧
      (e.ranOn output g u).outcome.isOk ∧ e.Brings output g u) ∧
    ∀ g u, (e.ready id output).exec s = (.ok g, u) → (e.ranOn output g u).outcome.isOk →
      ¬ e.Brings output g u → ((e.run id output).exec s).1 = .error .noOutput := by
  constructor
  · rw [isOk_iff master bound]
    constructor
    · rintro ⟨g, u, hr, ended, has⟩
      exact ⟨g, u, hr, ended, vacant g u hr, has⟩
    · rintro ⟨g, u, hr, ended, -, has⟩
      exact ⟨g, u, hr, ended, has⟩
  · intro g u hr ended nothing
    rw [exec_run_ready master bound hr]
    apply verdict_of_noFile ended
    intro has
    exact nothing ⟨vacant g u hr, has⟩

end

def contented : Engine Unit := still (.ok ⟨some 0, ""⟩)

theorem nothing_brought_anew :
    let s := contented.afterAll shelf splicing
    contented.Vacant 0 "new.mp4" s ∧
      ((contented.run 0 "new.mp4").exec s).1 = .error .noOutput := by
  intro s
  have vacant : contented.Vacant 0 "new.mp4" s := vacant_of_free (by decide +kernel) (by decide +kernel)
  obtain ⟨-, silent⟩ := isOk_iff_brings (by decide +kernel) (by decide +kernel) vacant
  refine ⟨vacant, ?_⟩
  have prepared : ((contented.ready 0 "new.mp4").exec s).1.isOk := by decide +kernel
  rcases hr : (contented.ready 0 "new.mp4").exec s with ⟨err | g, u⟩
  · rw [hr] at prepared
    cases prepared
  · apply silent g u hr rfl
    rintro ⟨none, some⟩
    exact none some

/-- What stood at the output before is taken for the work of a transcoder that wrote nothing. -/
theorem earlier_film_passes : ¬ ∀ (e : Engine Unit) (w : World Unit) (deeds : List (Deed Unit))
    (id : PipelineId) (output : String),
    let s := e.afterAll w deeds
    (s.board.get id).isMaster → s.board.isBound id → ((e.run id output).exec s).1.isOk →
    ∃ g u, (e.ready id output).exec s = (.ok g, u) ∧
      (e.ranOn output g u).disk ≠ u.world.disk := by
  intro claimed
  obtain ⟨g, u, -, wrote⟩ := claimed contented shelf splicing 0 "film.mp4" (by decide +kernel)
    (by decide +kernel) (by decide +kernel)
  exact wrote rfl

end Engine

end Montage
