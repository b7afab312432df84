import Montage.Proofs.Compose.Course
import Montage.Proofs.Compose.Naming
import Montage.Proofs.Compose.Upholding
import Montage.Proofs.Disk.Sparing

/-!
# The conduct of a job

A job that is turned down does nothing at all. Any other one goes through its steps
in order and clears up behind itself: when everyone it works with keeps to the
directory that was made for it, then the root holds in the end what it held at the
beginning.
-/

namespace Montage

open Montage.Path (IsName)

/-! ## What a job does to the disk -/

namespace Composer

variable {σ : Type}

structure Abides (c : Composer σ) (dir : String) (r : Request) (R : Disk → Disk → Prop) : Prop where
  refl : ∀ d, R d d
  trans : ∀ {d d' d''}, R d d' → R d' d'' → R d d''
  fetch : ∀ t ∈ targets r.scenario dir, ∀ own d, R d (c.fetcher.save t.url t.path own d).2.2
  prepare : ∀ d, R d (d.createDirectories (Path.parent (Workspace.file dir "output.mp4"))).2
  transcode : ∀ (g : Graph) watch own d, R d (c.engine.transcoder.run
    (g.arguments (Workspace.file dir "output.mp4") c.engine.settings) watch own d).disk
  cleanUp : ∀ d, R d (d.removeFileIfAny (Workspace.file dir "output.mp4"))
  upload : ∀ name own d, R d
    (c.artifacts.upload (Workspace.file dir "output.mp4") name own d).2.2

namespace Abides

variable {c : Composer σ} {dir : String} {stamp : Stamp} {r : Request} {R : Disk → Disk → Prop}
  (h : c.Abides dir r R)
include h

theorem upholds (d₀ : Disk) : c.Upholds dir r fun _ d => R d₀ d where
  fetch t ht own d before := h.trans before (h.fetch t ht own d)
  engine :=
    { inspect := fun _ _ _ before => before
      prepare := fun _ d before => h.trans before (h.prepare d)
      transcode := fun g watch own d before => h.trans before (h.transcode g watch own d)
      cleanUp := fun _ d before => h.trans before (h.cleanUp d) }

theorem deliver {p : Prepared} (hp : p.dir = dir) {render : Except RenderError RenderResult}
    {w w' : World σ} {res : Except ComposeError Outcome}
    (hx : (c.deliver p render).exec w = (res, w')) : R w.disk w'.disk := by
  rcases (deliver_spec hx).2 with same | uploaded
  · rw [same]
    exact h.refl _
  · rw [uploaded, Prepared.output, hp]
    exact h.upload _ _ _

end Abides

variable {c : Composer σ} {stamp : Stamp} {r : Request} {R : Disk → Disk → Prop}

/-- **The disk of a job**: when its directory cannot be made, that is the end, and otherwise the
directory is removed in the end. -/
theorem Abides.compose (h : c.Abides (c.dirOf stamp r) r R) (valid : r.validate = .ok ())
    (w : World σ) :
    let made := Workspace.create w.disk (c.dirOf stamp r)
    let disk := ((c.compose stamp r).run w).2.disk
    (¬ made.1.isOk → disk = made.2) ∧
      (made.1.isOk → ∃ d, R made.2 d ∧ disk = Workspace.remove d (c.dirOf stamp r)) := by
  dsimp only
  have goes := c.compose_goes stamp r w
  generalize ((c.compose stamp r).run w).2 = w' at goes ⊢
  generalize ((c.compose stamp r).run w).1 = res at goes
  cases goes with
  | rejected invalid => cases valid.symm.trans invalid
  | unopened _ made =>
    rw [made]
    exact ⟨fun _ => rfl, fun ok => (by cases ok)⟩
  | @ungathered _ _ w₁ _ made hg =>
    rw [made]
    exact ⟨fun no => absurd rfl no, fun _ =>
      ⟨w₁.disk, (h.upholds _).steps (gather_spec hg).1 (h.refl _), rfl⟩⟩
  | @delivered _ p render res w₁ w₂ w₃ _ made hg hx hd =>
    obtain ⟨steps, gathered⟩ := gather_spec hg
    obtain ⟨-, hp, -⟩ := gathered p rfl
    have fetched := (h.upholds _).steps steps (h.refl _)
    have rendered := (h.upholds w₁.disk).renderWithRetry hp 1 c.settings.retry.retries (h.refl _)
    rw [hx] at rendered
    rw [made]
    exact ⟨fun no => absurd rfl no, fun _ =>
      ⟨w₃.disk, h.trans fetched (h.trans rendered (h.deliver hp hd)), rfl⟩⟩

/-! ## Clearing up -/

theorem below_dirOf (c : Composer σ) (named : IsName (dirName stamp r)) :
    Path.Below (c.dirOf stamp r) c.root (dirName stamp r) := Path.below_join c.root named.noSlash

/-- Whoever a job works with leaves alone what is in the root beside the directory of the job. -/
structure Considerate (c : Composer σ) (stamp : Stamp) (r : Request) : Prop where
  fetch : ∀ t ∈ targets r.scenario (c.dirOf stamp r), ∀ own (d : Disk),
    d.Spares c.root (dirName stamp r) (c.fetcher.save t.url t.path own d).2.2
  transcode : ∀ (g : Graph) watch own (d : Disk), d.Spares c.root (dirName stamp r)
    (c.engine.transcoder.run (g.arguments (Workspace.file (c.dirOf stamp r) "output.mp4")
      c.engine.settings) watch own d).disk
  upload : ∀ name own (d : Disk), d.Spares c.root (dirName stamp r)
    (c.artifacts.upload (Workspace.file (c.dirOf stamp r) "output.mp4") name own d).2.2

theorem Considerate.abides (h : c.Considerate stamp r) (named : IsName (dirName stamp r)) :
    c.Abides (c.dirOf stamp r) r (Disk.Spares c.root (dirName stamp r)) := by
  have output : IsName "output.mp4" := ⟨by decide, by decide, by decide⟩
  have dir := below_dirOf c named
  have file : Path.Below (Workspace.file (c.dirOf stamp r) "output.mp4") (c.dirOf stamp r)
    "output.mp4" := Path.below_join _ output.noSlash
  refine ⟨.refl _ _, fun h k => h.trans k, h.fetch, fun d => ?_, h.transcode, fun d => ?_, h.upload⟩
  · exact Disk.createDirectories_spares (Path.below_parent file dir output.step named) named
  · apply Disk.removeFileIfAny_spares named
    rw [Disk.place_below file output, Disk.place_below dir named]

section
variable (valid : r.validate = .ok ()) (plain : '/' ∉ stamp.suffix.toList)
  (considerate : c.Considerate stamp r) (w : World σ)
include valid plain considerate

/-- **A root that is there** holds in the end what it held before, if the directory of the job had a
new name. -/
theorem root_of_isDirectory (there : w.disk.isDirectory c.root)
    (free : ¬ w.disk.Holds c.root (dirName stamp r)) :
    ((c.compose stamp r).run w).2.disk.isDirectory c.root ∧
      ∀ name, ((c.compose stamp r).run w).2.disk.Holds c.root name ↔ w.disk.Holds c.root name := by
  have named := isName_dirName valid plain
  have dir := below_dirOf c named
  have reached := (Disk.isDirectory_iff_reached.mp there).2
  have vacant : w.disk.occupant? (w.disk.place c.root ++ [dirName stamp r]) = none := by
    rw [Disk.holds_iff, not_and] at free
    simpa using free there
  obtain ⟨unmade, made⟩ := (considerate.abides named).compose valid w
  by_cases ok : (Workspace.create w.disk (c.dirOf stamp r)).1.isOk
  · obtain ⟨d, later, removed⟩ := made ok
    have spared := (Disk.createDirectories_spares dir named).trans later there
    have found := (Disk.reached_createDirectories dir named ok).2
    have noFile : ¬ d.isFile (c.dirOf stamp r) := by
      intro file
      obtain ⟨p, id, hr, ho⟩ := Disk.isFile_iff.mp (spared.noFile file)
      have here := (Disk.place_of_resolve hr).trans (Disk.place_below dir named)
      rw [here, vacant] at ho
      cases ho
    rw [removed]
    refine ⟨Disk.isDirectory_removeAll dir named spared.home reached vacant spared.there,
      fun name => ⟨fun holds => ?_, fun holds => ?_⟩⟩
    · obtain ⟨ne, holds⟩ := Disk.holds_of_holds_removeAll dir named found noFile holds
      exact (spared.others name ne).mp holds
    · have ne : name ≠ dirName stamp r := fun same => free (same ▸ holds)
      exact Disk.holds_removeAll_of_holds dir named spared.home reached vacant
        ((spared.others name ne).mpr holds) ne
  · have unchanged : (Workspace.create w.disk (c.dirOf stamp r)).2 = w.disk := by
      rw [Workspace.create, Disk.createDirectories_below dir named reached] at ok ⊢
      exact (w.disk.ensureDirectory_makes _).2.2 ok
    rw [unmade ok, unchanged]
    exact ⟨there, fun _ => Iff.rfl⟩

/-- **A root that was missing** holds nothing in the end. -/
theorem root_of_missing (missing : ¬ w.disk.isDirectory c.root) (sound : w.disk.Sound)
    (down : ".." ∉ Path.names c.root) (name : String) :
    ¬ ((c.compose stamp r).run w).2.disk.Holds c.root name := by
  have named := isName_dirName valid plain
  have dir := below_dirOf c named
  obtain ⟨unmade, made⟩ := (considerate.abides named).compose valid w
  intro holds
  by_cases ok : (Workspace.create w.disk (c.dirOf stamp r)).1.isOk
  · obtain ⟨d, later, removed⟩ := made ok
    obtain ⟨reached, found⟩ := Disk.reached_createDirectories dir named ok
    -- the root is a path that can be read, for it is read in the end
    have readable := (Disk.isDirectory_iff_reached.mp (Disk.holds_iff.mp holds).1).1
    have spared := later (Disk.isDirectory_iff_reached.mpr ⟨readable, reached⟩)
    have noFile : ¬ d.isFile (c.dirOf stamp r) := by
      intro file
      obtain ⟨p, id, hr, ho⟩ := Disk.isFile_iff.mp (spared.noFile file)
      obtain ⟨q, hq, hd⟩ := Disk.isDirectory_iff.mp
        (Disk.isDirectory_createDirectories (dir.ne_empty named.step) ok)
      obtain rfl := Except.ok.inj (hr.symm.trans hq)
      cases ho.symm.trans hd
    rw [removed] at holds
    obtain ⟨ne, holds⟩ := Disk.holds_of_holds_removeAll dir named found noFile holds
    exact ne (Disk.holds_createDirectories dir named sound down missing
      ((spared.others name ne).mp holds)).1
  · rw [unmade ok] at holds
    exact ok (Disk.holds_createDirectories dir named sound down missing holds).2

end

/-- What is to be said of a job with request `r` that began in the world `w` and led to the result
`res` and the world `w'`. -/
structure Conduct (c : Composer σ) (stamp : Stamp) (r : Request) (w : World σ)
    (res : Except ComposeError Outcome) (w' : World σ) : Prop where
  rejected : ∀ e, r.validate = .error e → (∃ reason, e = .validation reason) ∧ res = .error e ∧
    w' = w.note (.jobEnded r.scenario.name .rejected)
  ordered : r.validate = .ok () → ∃ evs, w'.journal = w.journal ++ evs ∧
    c.Orderly (c.dirOf stamp r) r evs res
  /-- However it ends, the root holds what it held before, if nothing in it had the name of the
  job's directory. -/
  clean : r.validate = .ok () → '/' ∉ stamp.suffix.toList → c.Considerate stamp r →
    w.disk.isDirectory c.root → ¬ w.disk.Holds c.root (dirName stamp r) →
    w'.disk.isDirectory c.root ∧ ∀ name, w'.disk.Holds c.root name ↔ w.disk.Holds c.root name
  /-- A root that had to be made first, at a path that does not lead up, holds nothing. -/
  fresh : r.validate = .ok () → '/' ∉ stamp.suffix.toList → c.Considerate stamp r →
    ¬ w.disk.isDirectory c.root → w.disk.Sound → ".." ∉ Path.names c.root →
    ∀ name, ¬ w'.disk.Holds c.root name

theorem conduct (c : Composer σ) (stamp : Stamp) (r : Request) (w : World σ) :
    c.Conduct stamp r w ((c.compose stamp r).run w).1 ((c.compose stamp r).run w).2 where
  rejected e invalid := by
    have reason : ∃ reason, e = .validation reason := by
      rw [Request.validate] at invalid
      split at invalid
      · exact ⟨_, (Except.error.inj invalid).symm⟩
      · cases invalid
    rw [run_compose, exec_prepare, invalid]
    exact ⟨reason, rfl, rfl⟩
  ordered valid := by
    obtain ⟨downloads, renders, delivery, ending, render, noted, course⟩ := c.compose_course valid w
    exact ⟨_, noted, course.orderly⟩
  clean valid plain considerate there free := root_of_isDirectory valid plain considerate w there free
  fresh valid plain considerate missing sound down :=
    root_of_missing valid plain considerate w missing sound down

end Composer

end Montage
