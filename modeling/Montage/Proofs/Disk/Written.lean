import Montage.Proofs.Disk.Files

/-!
# Files that are written

A file that was written whole can be read, under its own name and under the one that it is given
then. Neither takes a directory away, and at every place that is no name of the file stands what
stood there.
-/

namespace Montage.Disk

variable {d d' : Disk} {path source target : String} {p : Place} {content : Bytes}

/-! ## Writing -/

theorem write_eq_ok : d.write path content = .ok d' ↔
    ∃ id d₁, d.create path = .ok (id, d₁) ∧ d' = d₁.setBytes id content := by
  rw [write]
  cases d.create path with
  | error e => simp [bind, Except.bind]
  | ok opened =>
    obtain ⟨id, d₁⟩ := opened
    simp [bind, Except.bind, pure, Except.pure, eq_comm]

theorem home_write (h : d.write path content = .ok d') : d'.home = d.home := by
  obtain ⟨-, -, home, -⟩ := write_changes h
  exact home

theorem keepsDirectories_write (h : d.write path content = .ok d') : d.KeepsDirectories d' := by
  obtain ⟨p, -, -, noDirectory, same⟩ := write_changes h
  intro q there
  rw [same q, there]
  rintro rfl
  exact noDirectory there

theorem occupant?_write (h : d.write path content = .ok d') (other : p ≠ d.place path) :
    d'.occupant? p = d.occupant? p := by
  obtain ⟨q, hr, -, -, same⟩ := write_changes h
  obtain rfl := place_of_resolve hr
  exact same p other

theorem found_write (h : d.write path content = .ok d') :
    d'.resolve path = .ok (d.place path) ∧ d'.fileAt? (d.place path) = some content := by
  have keeps := keepsDirectories_write h
  have home := home_write h
  obtain ⟨id, d₁, made, rfl⟩ := write_eq_ok.mp h
  refine ⟨keeps.resolve home (create_eq_ok made).1, fileAt?_eq_some.mpr ⟨id, (opened_create made).1, ?_⟩⟩
  rw [bytes_setBytes, if_pos rfl]

/-- **What was written can be read.** -/
theorem read_write (h : d.write path content = .ok d') : d'.read path = .ok content := by
  obtain ⟨hr, there⟩ := found_write h
  exact read_eq_ok.mpr ⟨_, hr, there⟩

theorem fileAt?_write (numbered : d.Numbered) (h : d.write path content = .ok d')
    (apart : d.Apart p (d.place path)) : d'.fileAt? p = d.fileAt? p := by
  obtain ⟨id, d₁, made, rfl⟩ := write_eq_ok.mp h
  have apart₁ := apart.create numbered made
  rw [apart₁.fileAt?_setBytes (opened_create made).1, apart.fileAt?_create numbered made]

/-! ## Copying -/

/-- A copy is the whole file, unless it is copied onto itself: then it is emptied. -/
theorem copyFile_eq_ok (numbered : d.Numbered) {size : Nat}
    (h : d.copyFile source target = .ok (size, d')) :
    ∃ octets content, d.read source = .ok octets ∧ d.write target content = .ok d' ∧
      content.length = size ∧ (d.look source ≠ d.look target → content = octets) ∧
      (d.look source = d.look target → content = []) := by
  rw [copyFile] at h
  cases found : d.look source with
  | error e =>
    rw [found] at h
    cases h
  | ok entry =>
    cases entry with
    | directory =>
      rw [found] at h
      cases h
    | file id =>
      simp only [found, bind, Except.bind] at h
      cases made : d.create target with
      | error e =>
        rw [made] at h
        cases h
      | ok opened =>
        obtain ⟨copy, d₁⟩ := opened
        rw [made] at h
        cases h
        refine ⟨_, _, read_eq.mpr ⟨id, found, rfl⟩, write_eq_ok.mpr ⟨copy, d₁, made, rfl⟩, rfl, ?_⟩
        obtain ⟨hr, ⟨there, rfl⟩ | ⟨vacant, rfl, rfl⟩⟩ := create_eq_ok made
        · rw [look_eq.mpr ⟨_, hr, there⟩, bytes_setBytes]
          by_cases same : id = copy
          · simp [same]
          · simp [same]
        · -- what is copied has a number that was given out, the copy a new one
          obtain ⟨q, -, ho⟩ := look_eq.mp found
          rw [bytes_addFile, if_neg (Nat.ne_of_lt (numbered q id ho))]
          refine ⟨fun _ => rfl, fun same => ?_⟩
          obtain ⟨q', hr', ho'⟩ := look_eq.mp same.symm
          cases hr.symm.trans hr'
          cases vacant.symm.trans ho'

example : copyFile { entries := [(["a"], .file 0)], contents := [(0, [7])], nextFile := 1 } "a" "a" =
    .ok (0, { entries := [(["a"], .file 0)], contents := [(0, [])], nextFile := 1 }) := rfl

/-! ## Giving a name -/

theorem keepsDirectories_renameFile (h : d.renameFile source target = .ok d') :
    d.KeepsDirectories d' := by
  obtain ⟨-, noDirectory, id, file, rfl⟩ := renameFile_eq_ok h
  intro q there
  rw [occupant?_moveFile file (ne_nil_of_occupant? rfl noDirectory), if_neg, if_neg, there]
  · rintro ⟨rfl, -⟩
    cases there.symm.trans file
  · rintro rfl
    exact noDirectory there

/-- **A file can be read under the name that it is given.** -/
theorem read_renameFile (h : d.renameFile source target = .ok d')
    (there : d.fileAt? (d.place source) = some content) : d'.read target = .ok content := by
  have keeps := keepsDirectories_renameFile h
  obtain ⟨hr, noDirectory, id, file, rfl⟩ := renameFile_eq_ok h
  refine read_eq_ok.mpr ⟨_, keeps.resolve (d.files_moveFile _ _ _).1 hr,
    fileAt?_eq_some.mpr ⟨id, ?_, ?_⟩⟩
  · rw [occupant?_moveFile file (ne_nil_of_occupant? rfl noDirectory), if_pos rfl]
  · obtain ⟨id', file', bytes⟩ := fileAt?_eq_some.mp there
    cases file.symm.trans file'
    exact (d.bytes_moveFile _ _ _ _).trans bytes

end Montage.Disk
