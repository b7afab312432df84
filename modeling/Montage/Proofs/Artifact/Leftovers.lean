import Montage.Proofs.Artifact.Finishing

/-!
# What a failed upload leaves

An upload that fails takes its hidden file with it, as long as the copy is not complete. A
complete copy that does not get the name of the artifact stays under the hidden name, and nothing
removes it; without faults of the system this is so when a directory has the name.
-/

namespace Montage

open Relation
open Montage.Path (IsName)

/-! ## A shorter name in the same directory -/

theorem Path.join_eq_append (dir : String) :
    ∃ front, ∀ name : String, '/' ∉ name.toList → Path.join dir name = front ++ name := by
  by_cases closed : dir = "" ∨ dir.toList.getLast? = some '/'
  · refine ⟨dir, fun name plain => ?_⟩
    rw [Path.join, Path.not_isAbsolute_of_noSlash plain, if_neg (by simp), if_pos closed]
  · refine ⟨dir ++ "/", fun name plain => ?_⟩
    rw [Path.join, Path.not_isAbsolute_of_noSlash plain, if_neg (by simp), if_neg closed]

theorem Disk.textFault?_eq_none {path : String} : Disk.textFault? path = none ↔
    '\x00' ∉ path.toList ∧ path ≠ "" ∧ path.utf8ByteSize < Disk.pathLimit := by
  unfold Disk.textFault?
  split_ifs <;> simp_all

theorem Disk.nameFault?_eq_none {path name : String} : Disk.nameFault? path name = none ↔
    Disk.textFault? path = none ∧ name.utf8ByteSize ≤ Disk.longestName := by
  unfold Disk.nameFault?
  cases Disk.textFault? path <;> simp

namespace Upload

variable {u : Upload} {d₀ d d' : Disk} {a a' : UploadStage} {e : ArtifactError}

theorem nameFault?_destination (valid : ArtifactName.isValid u.name)
    (fine : Disk.nameFault? u.partialFile (ArtifactName.hidden u.name) = none) :
    Disk.nameFault? u.destination u.name = none := by
  have named := ArtifactName.isName_of_isValid valid
  obtain ⟨front, joined⟩ := Path.join_eq_append u.store.dir
  have visible : u.destination = front ++ u.name := joined u.name named.noSlash
  have hidden : u.partialFile = front ++ ArtifactName.hidden u.name :=
    joined _ (ArtifactName.isName_hidden valid).noSlash
  obtain ⟨text, short⟩ := Disk.nameFault?_eq_none.mp fine
  obtain ⟨noZero, -, below⟩ := Disk.textFault?_eq_none.mp text
  have longer : (ArtifactName.hidden u.name).utf8ByteSize = u.name.utf8ByteSize + 6 := by
    rw [ArtifactName.hidden, String.utf8ByteSize_append, String.utf8ByteSize_append]
    have one : ".".utf8ByteSize = 1 := by decide
    have five : ".part".utf8ByteSize = 5 := by decide
    omega
  rw [hidden, String.utf8ByteSize_append] at below
  rw [hidden, String.toList_append, ArtifactName.toList_hidden] at noZero
  apply Disk.nameFault?_eq_none.mpr
  refine ⟨Disk.textFault?_eq_none.mpr ⟨?_, ?_, ?_⟩, by omega⟩
  · rw [visible, String.toList_append]
    simp_all
  · exact (Path.below_join u.store.dir named.noSlash).ne_empty named.step
  · rw [visible, String.utf8ByteSize_append]
    omega

/-! ## The hidden file -/

def Lingers (u : Upload) (d : Disk) : Prop := (d.fileAt? (d.place u.partialFile)).isSome

instance (u : Upload) (d : Disk) : Decidable (u.Lingers d) := inferInstanceAs (Decidable (_ = true))

theorem lingers_iff : u.Lingers d ↔ ∃ t, u.Hides d t := by
  unfold Lingers Hides
  rw [Option.isSome_iff_exists]
  constructor
  · rintro ⟨content, there⟩
    obtain ⟨t, file, -⟩ := Disk.fileAt?_eq_some.mp there
    exact ⟨t, file⟩
  · rintro ⟨t, file⟩
    exact ⟨_, Disk.fileAt?_of_file file⟩

theorem Cleans.lingers (h : u.Cleans d d') (lingers : u.Lingers d') : u.Lingers d := by
  obtain ⟨t, hides⟩ := lingers_iff.mp lingers
  obtain ⟨home, -, files⟩ := h.files
  unfold Hides at hides
  rw [Disk.place_congr home] at hides
  exact lingers_iff.mpr ⟨t, files _ t hides⟩

structure Made (u : Upload) (d : Disk) : Prop where
  found : d.resolve u.partialFile = .ok (d.place u.partialFile)
  lingers : u.Lingers d

theorem Made.removed (h : u.Made d) : ¬ u.Lingers (d.removeFileIfAny u.partialFile) := by
  have home := (d.files_removeFileIfAny u.partialFile).1
  rw [Lingers, Disk.place_congr home, Disk.fileAt?_removeFileIfAny_self h.found]
  exact Bool.false_ne_true

theorem Moves.found (h : u.Moves d a a' d') (home : d'.home = d.home)
    (found : d.resolve u.partialFile = .ok (d.place u.partialFile)) :
    d'.resolve u.partialFile = .ok (d'.place u.partialFile) := by
  have keeps : d.KeepsDirectories d' := fun q there => h.stays there (.inl rfl)
  rw [Disk.place_congr home]
  exact keeps.resolve home found

/-- **The name is refused** to a complete copy by the system, or because a directory has it. -/
theorem Made.refused {c : Chance} {e : DiskError} (h : u.Made d)
    (valid : ArtifactName.isValid u.name)
    (failed : attempt c (d.renameFile u.partialFile u.destination) = .error e) :
    c.fault ≠ none ∨ d.isDirectory u.destination := by
  obtain ⟨t, hides⟩ := lingers_iff.mp h.lingers
  have found := h.found
  by_cases fault : c.fault = none
  · right
    have named := ArtifactName.isName_of_isValid valid
    have hidden : Path.Below u.partialFile u.store.dir (ArtifactName.hidden u.name) :=
      Path.below_join _ (ArtifactName.isName_hidden valid).noSlash
    have visible : Path.Below u.destination u.store.dir u.name := Path.below_join _ named.noSlash
    obtain ⟨reached, fine⟩ := Disk.reached_of_resolve_below hidden found
    have target : d.resolve u.destination = .ok (d.place u.store.dir ++ [u.name]) := by
      have := Disk.resolve_below visible named reached
      rwa [nameFault?_destination valid fine] at this
    refine Disk.isDirectory_iff.mpr ⟨_, target, ?_⟩
    by_contra noDirectory
    unfold Hides at hides
    rw [attempt, fault] at failed
    simp only [Disk.renameFile, found, target, bind, Except.bind, hides] at failed
    cases failed
  · exact .inl fault

/-! ## Steps and runs -/

/-- The copy was complete, and then it was refused the name: by the system, or because a directory
has it. -/
def Unnamed (u : Upload) (d₀ : Disk) (e : ArtifactError) (d : Disk) : Prop :=
  ∃ seen c, ReflTransGen u.Leads (.requested, d₀) (.copied seen, d) ∧
    u.step c (.copied seen) d = (.ended (.error e), d) ∧ (c.fault ≠ none ∨ d.isDirectory u.destination)

theorem refused_of_step {c : Chance} {seen : Bytes}
    (h : u.step c (.copied seen) d = (.ended (.error e), d')) :
    d' = d ∧ ∃ e', attempt c (d.renameFile u.partialFile u.destination) = .error e' := by
  unfold step at h
  cases refused : attempt c (d.renameFile u.partialFile u.destination) with
  | ok d' => simp [refused] at h
  | error e' =>
    simp only [refused, Prod.mk.injEq] at h
    exact ⟨h.2.symm, e', rfl⟩

/-- What is known of the hidden file at each stage of an upload that began on the disk `d₀`. -/
inductive Tracks (u : Upload) (d₀ : Disk) : UploadStage → Disk → Prop
  | waits {a : UploadStage} {d : Disk} : a.Waits → (u.Lingers d → u.Lingers d₀) → Tracks u d₀ a d
  | copies {a : UploadStage} {d : Disk} {t : FileId} {seen : Bytes} : a.Copies t seen →
    u.Made d → Tracks u d₀ a d
  | unnamed {e : ArtifactError} {d : Disk} : u.Lingers d → u.Unnamed d₀ e d →
    Tracks u d₀ (.ended (.error e)) d
  | published {st : StoredArtifact} {d : Disk} : Tracks u d₀ (.ended (.ok st)) d

theorem Progress.valid {t : FileId} {seen : Bytes} (h : u.Progress d₀ a d) (copies : a.Copies t seen) :
    ArtifactName.isValid u.name := by
  cases copies with
  | copying =>
    cases h with
    | copying _ valid _ _ => exact valid
  | copied =>
    cases h with
    | copied valid _ _ => exact valid

theorem Tracks.next (h : u.Tracks d₀ a d) (run : ReflTransGen u.Leads (.requested, d₀) (a, d))
    {c : Chance} (step : u.step c a d = (a', d')) : u.Tracks d₀ a' d' := by
  have m := u.moves_step c a d
  have progress := progress_of_leads run
  have progress' := progress.step c
  rw [step] at m progress'
  cases h with
  | waits waits kept =>
    rcases m.of_waits waits with ⟨waits', spares⟩ | ⟨e, rfl, cleans⟩ | ⟨t, copies, made⟩
    · exact .waits waits' fun lingers => kept (Cleans.lingers (.spared spares) lingers)
    · exact .waits trivial fun lingers => kept (cleans.lingers lingers)
    · have valid := progress'.valid copies
      have home := (m.preserves valid).1
      have there := (holds_created valid made).there
      exact .copies copies ⟨m.found home (Disk.create_eq_ok made).1, lingers_iff.mpr ⟨t, there⟩⟩
  | copies copies made =>
    have valid := progress.valid copies
    have home := (m.preserves valid).1
    rcases m.of_copies copies with ⟨seen', more, writes⟩ | ⟨e, rfl, fails⟩ | ⟨-, rfl, -⟩
    · obtain ⟨t, hides⟩ := lingers_iff.mp made.lingers
      exact .copies more ⟨m.found home made.found, lingers_iff.mpr ⟨t, writes.hides_iff.mpr hides⟩⟩
    · cases fails with
      | uncopied => exact .waits trivial fun lingers => absurd lingers made.removed
      | @unnamed seen =>
        obtain ⟨-, e', refused⟩ := refused_of_step step
        exact .unnamed made.lingers ⟨seen, c, run, step, made.refused valid refused⟩
      | _ => cases copies
    · exact .published
  | unnamed lingers unnamed =>
    obtain ⟨rfl, rfl⟩ := m.of_ended
    exact .unnamed lingers unnamed
  | published =>
    obtain ⟨rfl, rfl⟩ := m.of_ended
    exact .published

theorem tracks_of_leads {x : UploadStage × Disk} (run : ReflTransGen u.Leads (.requested, d₀) x) :
    u.Tracks d₀ x.1 x.2 := by
  induction run with
  | refl => exact .waits trivial fun lingers => lingers
  | tail run leads ih =>
    obtain ⟨c, step⟩ := leads
    exact ih.next run step

/-- **A failed upload leaves no hidden file** that was not there, whichever step fails, unless it is
the last one, which leaves the complete copy. -/
theorem no_leftover_unless_unnamed
    (run : ReflTransGen u.Leads (.requested, d₀) (.ended (.error e), d)) :
    (u.Lingers d → u.Lingers d₀) ∨ u.Lingers d ∧ u.Unnamed d₀ e d := by
  cases tracks_of_leads run with
  | waits _ kept => exact .inl kept
  | copies copies _ => cases copies
  | unnamed lingers unnamed => exact .inr ⟨lingers, unnamed⟩

def occupied : Disk where
  entries := [(["out.mp4"], .file 0), (["clips"], .directory), (["store"], .directory),
    (["store", "job-1.mp4"], .directory)]
  contents := [(0, Text.encode "film")]
  nextFile := 1

/-- A directory is opened, and can only not be read. -/
theorem no_leftover_of_directory :
    let u : Upload := ⟨⟨"store", "http://cdn"⟩, "clips", "job-2.mp4"⟩
    (u.run occupied).1 = .error (.io .isADirectory) ∧ ¬ u.Lingers (u.run occupied).2 := by
  intro u
  have failed : (u.run occupied).1 = .error (.io .isADirectory) := by decide +kernel
  have run := u.leads_run occupied
  rw [failed] at run
  refine ⟨failed, fun lingers => ?_⟩
  rcases no_leftover_unless_unnamed run with kept | ⟨-, seen, c, -, -, -⟩
  · have before : ¬ u.Lingers occupied := by decide +kernel
    exact before (kept lingers)
  · revert lingers
    decide +kernel

/-- The complete copy stays when a directory has the name. -/
theorem left_under_directory : ¬ ∀ (u : Upload) (d₀ : Disk), ¬ (u.run d₀).1.isOk →
    u.Lingers (u.run d₀).2 → u.Lingers d₀ := by
  intro claimed
  have left := claimed ⟨⟨"store", "http://cdn"⟩, "out.mp4", "job-1.mp4"⟩ occupied
  revert left
  decide +kernel

end Upload

end Montage
