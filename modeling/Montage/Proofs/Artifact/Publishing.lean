import Montage.Proofs.Artifact.Finishing

/-!
# Publishing all or nothing

An upload writes into its hidden file alone, and only when that is complete does it take over the
name of the artifact. Whoever looks at the name meanwhile, and however the upload ends, finds what
was there before or the whole source, and every other file is as it was.
-/

namespace Montage

open Relation

namespace Upload

variable {u : Upload} {d₀ d d' : Disk} {a a' : UploadStage} {p : Place} {content : Bytes}

/-! ## One step -/

theorem Moves.numbered (h : u.Moves d a a' d') (numbered : d.Numbered) : d'.Numbered := by
  cases h with
  | readied _ =>
    obtain ⟨-, next, files⟩ := Cleans.files (u := u) (d := d) (.spared .directories)
    exact numbered.of_files next files
  | opened _ => exact numbered
  | created made => exact numbered.create made
  | written c _ => exact numbered
  | finished c _ => exact numbered
  | published renamed =>
    obtain ⟨-, noDirectory, t, file, rfl⟩ := Disk.renameFile_eq_ok renamed
    exact numbered.moveFile file (Disk.ne_nil_of_occupant? rfl noDirectory)
  | failed fails =>
    obtain ⟨-, next, files⟩ := fails.cleans.files
    exact numbered.of_files next files
  | rested => exact numbered

theorem Moves.apart (h : u.Moves d a a' d') (valid : ArtifactName.isValid u.name)
    (numbered : d.Numbered) (apart : d.Apart p (d.place u.partialFile)) :
    d'.Apart p (d.place u.partialFile) := by
  cases h with
  | readied _ => exact apart.of_files (d.files_of_createDirectories u.store.dir)
  | opened _ => exact apart
  | created made => exact apart.create numbered made
  | written c _ => exact apart
  | finished c _ => exact apart
  | published renamed =>
    obtain ⟨t, there, -, gone, others⟩ := published_renamed valid renamed
    obtain ⟨-, -, t', file, rfl⟩ := Disk.renameFile_eq_ok renamed
    obtain rfl : t' = t := by cases file.symm.trans there; rfl
    by_cases same : d.occupant? (d.place u.destination) = some (.file t')
    · rwa [Disk.moveFile_of_same same]
    · refine ⟨apart.1, fun id _ hides => gone same id ?_⟩
      rwa [Hides, Disk.place_congr others.home]
  | failed fails => exact apart.of_files fails.cleans.files.2.2
  | rested => exact apart

/-- **A step is seen nowhere else**: only the hidden file is written, and only a good end shows under
the name. -/
theorem Moves.fileAt? (h : u.Moves d a a' d') (numbered : d.Numbered)
    (hides : ∀ source t seen, a = .copying source t seen → u.Hides d t)
    (apart : d.Apart p (d.place u.partialFile))
    (unpublished : p ≠ d.place u.destination ∨ ∀ st, a' ≠ .ended (.ok st)) :
    d'.fileAt? p = d.fileAt? p := by
  cases h with
  | readied _ => exact d.fileAt?_createDirectories u.store.dir p
  | opened _ => rfl
  | created made => exact apart.fileAt?_create numbered made
  | written c _ => exact apart.fileAt?_setBytes (hides _ _ _ rfl) _
  | finished c _ => rfl
  | published renamed =>
    obtain ⟨-, noDirectory, t, file, rfl⟩ := Disk.renameFile_eq_ok renamed
    apply Disk.fileAt?_congr
    · rw [Disk.occupant?_moveFile file (Disk.ne_nil_of_occupant? rfl noDirectory), if_neg,
        if_neg fun gone => apart.1 gone.1]
      exact unpublished.resolve_right fun unended => unended _ rfl
    · exact fun id _ => d.bytes_moveFile _ _ _ id
  | failed fails =>
    cases fails.cleans with
    | spared spares =>
      cases spares with
      | nothing => rfl
      | directories => exact d.fileAt?_createDirectories u.store.dir p
    | removed =>
      apply Disk.fileAt?_removeFileIfAny
      intro hr
      exact apart.1 (Disk.place_of_resolve hr)
  | rested => rfl

theorem Progress.hides (h : u.Progress d₀ a d) (source : Entry) (t : FileId) (seen : Bytes)
    (copying : a = .copying source t seen) : u.Hides d t := by
  subst copying
  cases h with
  | copying _ _ _ holds => exact holds.there

/-! ## Stages -/

/-- The system may let an upload take this step, or let it fail there and even keep it from removing
what it leaves. -/
def Ventures (u : Upload) (x y : UploadStage × Disk) : Prop :=
  u.Leads x y ∨ (∀ r, x.1 ≠ .ended r) ∧ ∃ e, y = (.ended (.error e), x.2)

/-- The source of an upload is a file of its own, and not the hidden one under another name. -/
structure Takes (u : Upload) (d : Disk) (content : Bytes) : Prop where
  read : d.read u.path = .ok content
  unhidden : d.Apart (d.place u.path) (d.place u.partialFile)
  unpublished : d.place u.path ≠ d.place u.destination

structure Intact (u : Upload) (d₀ : Disk) (content : Bytes) (a : UploadStage) (d : Disk) : Prop where
  progress : u.Progress d₀ a d
  numbered : d.Numbered
  home : d.home = d₀.home
  apart : ∀ p, d₀.Apart p (d₀.place u.partialFile) → d.Apart p (d₀.place u.partialFile)
  source : ∃ id, d.look u.path = .ok (.file id) ∧ d.bytes id = content ∧ a.Reads id content
  others : ∀ p, p ≠ d₀.place u.destination → d₀.Apart p (d₀.place u.partialFile) →
    d.fileAt? p = d₀.fileAt? p
  before : d₀.Apart (d₀.place u.destination) (d₀.place u.partialFile) →
    (∀ st, a ≠ .ended (.ok st)) →
    d.fileAt? (d₀.place u.destination) = d₀.fileAt? (d₀.place u.destination)
  after : ∀ st, a = .ended (.ok st) → d.read u.destination = .ok content ∧ st = u.stored content

theorem Intact.start (numbered : d₀.Numbered) (takes : u.Takes d₀ content) :
    u.Intact d₀ content .requested d₀ where
  progress := .requested
  numbered := numbered
  home := rfl
  apart _ apart := apart
  source := by
    obtain ⟨id, look, bytes⟩ := Disk.read_eq.mp takes.read
    exact ⟨id, look, bytes, trivial⟩
  others _ _ _ := rfl
  before _ _ := rfl
  after := nofun

/-- Nothing more is seen of an upload that is broken off. -/
theorem Intact.broken (h : u.Intact d₀ content a d) (unended : ∀ r, a ≠ .ended r) (e : ArtifactError) :
    u.Intact d₀ content (.ended (.error e)) d where
  progress := .ended (h.progress.ends (.inr ⟨unended, e, rfl⟩))
  numbered := h.numbered
  home := h.home
  apart := h.apart
  source := by
    obtain ⟨id, look, bytes, -⟩ := h.source
    exact ⟨id, look, bytes, trivial⟩
  others := h.others
  before unlinked _ := h.before unlinked fun st => unended (.ok st)
  after := nofun

theorem Intact.next (h : u.Intact d₀ content a d) (valid : ArtifactName.isValid u.name)
    (takes : u.Takes d₀ content) (m : u.Moves d a a' d') (progress : u.Progress d₀ a' d') :
    u.Intact d₀ content a' d' := by
  have home := (m.preserves valid).1
  have places := Disk.place_congr h.home
  have frame := fun p => m.fileAt? (p := p) h.numbered h.progress.hides
  have apart := fun p => m.apart (p := p) valid h.numbered
  rw [places, places] at frame
  rw [places] at apart
  refine ⟨progress, m.numbered h.numbered, home.trans h.home, fun p far => apart p (h.apart p far),
    ?_, ?_, ?_, ?_⟩
  · obtain ⟨id, look, rfl, reads⟩ := h.source
    have unhidden : d.place u.path ≠ d.place u.partialFile := by
      rw [places, places]
      exact takes.unhidden.1
    have unpublished : d.place u.path ≠ d.place u.destination := by
      rw [places, places]
      exact takes.unpublished
    have look' := m.look valid look unhidden unpublished
    obtain ⟨q, hr, file⟩ := Disk.look_eq.mp look
    obtain ⟨q', hr', file'⟩ := Disk.look_eq.mp look'
    -- the path leads where it led, and there the octets are the same
    obtain rfl : q' = q := by
      rw [Disk.place_of_resolve hr', Disk.place_of_resolve hr, Disk.place_congr home]
    have here : q' = d₀.place u.path := (Disk.place_of_resolve hr).trans (places u.path)
    have same := frame q' (by rw [here]; exact h.apart _ takes.unhidden)
      (.inl (by rw [here]; exact takes.unpublished))
    rw [Disk.fileAt?_of_file file, Disk.fileAt?_of_file file'] at same
    exact ⟨id, look', Option.some.inj same, m.reads look reads⟩
  · intro p unpublished far
    exact (frame p (h.apart p far) (.inl unpublished)).trans (h.others p unpublished far)
  · intro unlinked unended
    refine (frame _ (h.apart _ unlinked) (.inr unended)).trans (h.before unlinked fun st ended => ?_)
    subst ended
    exact unended st m.of_ended.1
  · intro st ended
    subst ended
    cases m with
    | @published seen _ renamed =>
      obtain ⟨id, -, -, rfl⟩ := h.source
      obtain ⟨j, hides, shows, -, -⟩ := published_renamed valid renamed
      have progress := h.progress
      cases progress with
      | copied _ _ holds =>
        rw [holds.eq_of_hides hides, holds.bytes] at shows
        exact ⟨shows, rfl⟩
    | rested => exact h.after st rfl

theorem Intact.ventures {x y : UploadStage × Disk} (h : u.Intact d₀ content x.1 x.2)
    (valid : ArtifactName.isValid u.name) (takes : u.Takes d₀ content) (step : u.Ventures x y) :
    u.Intact d₀ content y.1 y.2 := by
  rcases step with ⟨c, rfl⟩ | ⟨unended, e, rfl⟩
  · exact h.next valid takes (u.moves_step c x.1 x.2) (h.progress.step c)
  · exact h.broken unended e

theorem intact_of_ventures (valid : ArtifactName.isValid u.name) (numbered : d₀.Numbered)
    (takes : u.Takes d₀ content) {x : UploadStage × Disk}
    (run : ReflTransGen u.Ventures (.requested, d₀) x) : u.Intact d₀ content x.1 x.2 := by
  induction run with
  | refl => exact .start numbered takes
  | tail _ step ih => exact ih.ventures valid takes step

/-- What can be seen of an upload at a stage, when it began on the disk `d₀` with a source. -/
structure Shows (u : Upload) (d₀ : Disk) (content : Bytes) (a : UploadStage) (d : Disk) : Prop where
  /-- Up to a good end the name has what it had, unless it is a name of a hidden file that was there. -/
  before : d₀.Apart (d₀.place u.destination) (d₀.place u.partialFile) →
    (∀ st, a ≠ .ended (.ok st)) →
    d.fileAt? (d₀.place u.destination) = d₀.fileAt? (d₀.place u.destination)
  after : ∀ st, a = .ended (.ok st) → d.read u.destination = .ok content ∧ st = u.stored content
  others : ∀ p, p ≠ d₀.place u.destination → d₀.Apart p (d₀.place u.partialFile) →
    d.fileAt? p = d₀.fileAt? p
  source : d.read u.path = .ok content

theorem Intact.shows (h : u.Intact d₀ content a d) : u.Shows d₀ content a d where
  before := h.before
  after := h.after
  others := h.others
  source := by
    obtain ⟨id, look, bytes, -⟩ := h.source
    exact Disk.read_eq.mpr ⟨id, look, bytes⟩

/-- **All or nothing**, at every moment of an upload, whatever reads it takes and whichever steps fail,
and so for one that nobody disturbs. The source is not a hidden file that is there. -/
theorem all_or_nothing (valid : ArtifactName.isValid u.name) (numbered : d₀.Numbered)
    (takes : u.Takes d₀ content) :
    (∀ a d, ReflTransGen u.Ventures (.requested, d₀) (a, d) → u.Shows d₀ content a d) ∧
      u.Shows d₀ content (.ended (u.run d₀).1) (u.run d₀).2 := by
  have any : ∀ a d, ReflTransGen u.Ventures (.requested, d₀) (a, d) → u.Shows d₀ content a d :=
    fun a d run => (intact_of_ventures valid numbered takes run).shows
  have led : ReflTransGen u.Ventures (.requested, d₀) (.ended (u.run d₀).1, (u.run d₀).2) :=
    (u.leads_run d₀).lift id fun _ _ leads => .inl leads
  exact ⟨any, any _ _ led⟩

def film : Upload := ⟨⟨"store", "http://cdn"⟩, "out.mp4", "job-1.mp4"⟩

/-- A store with an older film under the name, and what is left of an upload that was broken off. -/
def shelves : Disk where
  entries := [(["out.mp4"], .file 0), (["store"], .directory), (["store", "job-1.mp4"], .file 1),
    (["store", ".job-1.mp4.part"], .file 2)]
  contents := [(0, Text.encode "film"), (1, Text.encode "older film"), (2, Text.encode "fi")]
  nextFile := 3

theorem files_shelves (p : Place) (id : FileId) (file : shelves.occupant? p = some (.file id)) :
    p = ["out.mp4"] ∧ id = 0 ∨ p = ["store", "job-1.mp4"] ∧ id = 1 ∨
      p = ["store", ".job-1.mp4.part"] ∧ id = 2 := by
  simp only [Disk.occupant?, shelves, Disk.lookup_cons_ite, List.lookup_nil] at file
  split_ifs at file <;> cases file <;> simp_all

theorem numbered_shelves : shelves.Numbered := by
  intro p id file
  rcases files_shelves p id file with ⟨-, rfl⟩ | ⟨-, rfl⟩ | ⟨-, rfl⟩ <;> decide

theorem apart_shelves {p q : Place} (ne : p ≠ q) : shelves.Apart p q := by
  refine ⟨ne, fun id hp hq => ?_⟩
  have first := files_shelves p id hp
  have second := files_shelves q id hq
  rcases first with ⟨rfl, rfl⟩ | ⟨rfl, rfl⟩ | ⟨rfl, rfl⟩ <;> simp_all

/-- An upload that takes the older one's place, and one that is broken off after one octet. -/
theorem all_or_nothing_replacing :
    let half := film.steps ⟨1, none⟩ 4 .requested shelves
    film.Takes shelves (Text.encode "film") ∧ (film.run shelves).1.isOk ∧
      film.Shows shelves (Text.encode "film") (.ended (film.run shelves).1) (film.run shelves).2 ∧
      half.2.fileAt? ["store", ".job-1.mp4.part"] = some (Text.encode "f") ∧
      half.2.fileAt? ["store", "job-1.mp4"] = some (Text.encode "older film") := by
  intro half
  have takes : film.Takes shelves (Text.encode "film") :=
    ⟨by decide +kernel, apart_shelves (by decide +kernel), by decide +kernel⟩
  have whole := all_or_nothing (by decide) numbered_shelves takes
  have led : ReflTransGen film.Ventures (.requested, shelves) half :=
    (film.leads_steps ⟨1, none⟩ 4 .requested shelves).lift id fun _ _ leads => .inl leads
  have broken : ReflTransGen film.Ventures (.requested, shelves)
      (.ended (.error (.io .isADirectory)), half.2) := by
    refine led.tail (.inr ⟨fun r ended => ?_, _, rfl⟩)
    cases ended
  have unlinked := apart_shelves (p := shelves.place film.destination)
    (q := shelves.place film.partialFile) (by decide +kernel)
  have kept := (whole.1 _ _ broken).before unlinked nofun
  have place : shelves.place film.destination = ["store", "job-1.mp4"] := by decide +kernel
  rw [place] at kept
  exact ⟨takes, by decide +kernel, whole.2, by decide +kernel, kept.trans (by decide +kernel)⟩

/-- A store in which a hidden file was left that is another name of the published film, or of the film
that is to be published. -/
def linked (source published : FileId) : Disk where
  entries := [(["out.mp4"], .file source), (["store"], .directory),
    (["store", "job-1.mp4"], .file published), (["store", ".job-1.mp4.part"], .file 2)]
  contents := [(0, Text.encode "film"), (1, Text.encode "older film"), (2, Text.encode "linked")]
  nextFile := 3

theorem numbered_linked {source published : FileId} (hs : source < 3) (hp : published < 3) :
    (linked source published).Numbered := by
  intro p id file
  simp only [Disk.occupant?, linked, Disk.lookup_cons_ite, List.lookup_nil] at file
  split_ifs at file <;> cases file <;> first | assumption | exact Nat.lt_succ_self 2

/-- Paths that differ are not enough. If the hidden file has another name, what is written into it is
seen at once under the name of the artifact, or the source is emptied before it is read. The source
is also emptied if its path leads to the hidden file in another way. -/
theorem spoilt_under_other_names :
    (¬ ∀ (u : Upload) (d₀ : Disk) (content : Bytes), ArtifactName.isValid u.name → d₀.Numbered →
      d₀.read u.path = .ok content → d₀.place u.path ≠ d₀.place u.destination →
      d₀.place u.path ≠ d₀.place u.partialFile → ∀ a d,
      ReflTransGen u.Ventures (.requested, d₀) (a, d) →
        d.fileAt? (d₀.place u.destination) = d₀.fileAt? (d₀.place u.destination) ∨
          d.fileAt? (d₀.place u.destination) = some content) ∧
    (¬ ∀ (u : Upload) (d₀ : Disk) (content : Bytes), ArtifactName.isValid u.name → d₀.Numbered →
      d₀.read u.path = .ok content → d₀.place u.path ≠ d₀.place u.destination →
      d₀.place u.path ≠ d₀.place u.partialFile → (u.run d₀).2.read u.path = .ok content) ∧
    ¬ ∀ (u : Upload) (d₀ : Disk) (content : Bytes), ArtifactName.isValid u.name → d₀.Numbered →
      d₀.read u.path = .ok content → u.path ≠ u.destination → u.path ≠ u.partialFile →
      (u.run d₀).2.read u.path = .ok content := by
  refine ⟨?_, ?_, ?_⟩
  · intro claimed
    let half := film.steps ⟨1, none⟩ 4 .requested (linked 0 2)
    have led : ReflTransGen film.Ventures (.requested, linked 0 2) half :=
      (film.leads_steps ⟨1, none⟩ 4 .requested (linked 0 2)).lift id fun _ _ leads => .inl leads
    have whole := claimed film (linked 0 2) (Text.encode "film") (by decide)
      (numbered_linked (by decide) (by decide)) (by decide +kernel) (by decide +kernel)
      (by decide +kernel) _ _ led
    revert whole
    decide +kernel
  · intro claimed
    have kept := claimed film (linked 2 1) (Text.encode "linked") (by decide)
      (numbered_linked (by decide) (by decide)) (by decide +kernel) (by decide +kernel)
      (by decide +kernel)
    revert kept
    decide +kernel
  · intro claimed
    have kept := claimed { film with path := "store/../store/.job-1.mp4.part" } shelves
      (Text.encode "fi") (by decide) numbered_shelves (by decide +kernel) (by decide +kernel)
      (by decide +kernel)
    revert kept
    decide +kernel

end Upload

end Montage
