import Montage.Proofs.Disk.Keeping

/-!
# Files by place

Whatever number a file goes by, what matters of it is where it stands and what is in it.
Reading a path is following it and taking the file at its end. A disk retains another one when
everything that was there is still there. Writing a file is seen at no place but those that are
names of it, and taking a name away spares every file to which that name does not lead.
-/

namespace Montage.Disk

variable {d d' d'' : Disk} {path other : String} {p q : Place} {content : Bytes}

def fileAt? (d : Disk) (p : Place) : Option Bytes :=
  match d.occupant? p with
  | some (.file id) => some (d.bytes id)
  | _ => none

theorem fileAt?_of_file {id : FileId} (h : d.occupant? p = some (.file id)) :
    d.fileAt? p = some (d.bytes id) := by rw [fileAt?, h]

theorem fileAt?_eq_some :
    d.fileAt? p = some content ↔ ∃ id, d.occupant? p = some (.file id) ∧ d.bytes id = content := by
  unfold fileAt?
  rcases d.occupant? p with _ | _ | id <;> simp

theorem fileAt?_congr (occupant : d'.occupant? p = d.occupant? p)
    (bytes : ∀ id, d.occupant? p = some (.file id) → d'.bytes id = d.bytes id) :
    d'.fileAt? p = d.fileAt? p := by
  unfold fileAt?
  rw [occupant]
  rcases h : d.occupant? p with _ | _ | id
  · rfl
  · rfl
  · exact congrArg some (bytes id h)

theorem read_eq_ok :
    d.read path = .ok content ↔ ∃ p, d.resolve path = .ok p ∧ d.fileAt? p = some content := by
  rw [read_eq]
  constructor
  · rintro ⟨id, hl, hc⟩
    obtain ⟨p, hr, ho⟩ := look_eq.mp hl
    exact ⟨p, hr, fileAt?_eq_some.mpr ⟨id, ho, hc⟩⟩
  · rintro ⟨p, hr, hf⟩
    obtain ⟨id, ho, hc⟩ := fileAt?_eq_some.mp hf
    exact ⟨id, look_eq.mpr ⟨p, hr, ho⟩, hc⟩

theorem isFile_of_fileAt? (hr : d.resolve path = .ok p) (hf : d.fileAt? p = some content) :
    d.isFile path := by
  obtain ⟨id, ho, -⟩ := fileAt?_eq_some.mp hf
  exact isFile_iff.mpr ⟨p, id, hr, ho⟩

/-! ## Places of different files -/

/-- Two places, and no two names of one file. -/
def Apart (d : Disk) (p q : Place) : Prop :=
  p ≠ q ∧ ∀ id, d.occupant? p = some (.file id) → d.occupant? q ≠ some (.file id)

namespace Apart

theorem of_files (apart : d.Apart p q)
    (files : ∀ p id, d'.occupant? p = some (.file id) → d.occupant? p = some (.file id)) :
    d'.Apart p q :=
  ⟨apart.1, fun id hp hq => apart.2 id (files p id hp) (files q id hq)⟩

theorem fileAt?_setBytes (apart : d.Apart p q) {id : FileId} (there : d.occupant? q = some (.file id))
    (content : Bytes) : (d.setBytes id content).fileAt? p = d.fileAt? p := by
  apply fileAt?_congr
  · rfl
  · intro j here
    rw [bytes_setBytes, if_neg]
    rintro rfl
    exact apart.2 j here there

section
variable {id : FileId} (apart : d.Apart p (d.place path)) (numbered : d.Numbered)
  (made : d.create path = .ok (id, d'))
include apart numbered made

theorem fileAt?_create : d'.fileAt? p = d.fileAt? p := by
  obtain ⟨-, ⟨there, rfl⟩ | ⟨vacant, rfl, rfl⟩⟩ := create_eq_ok made
  · exact apart.fileAt?_setBytes there []
  · apply fileAt?_congr
    · rw [occupant?_addFile vacant, if_neg apart.1]
    · intro j here
      rw [bytes_addFile, if_neg (Nat.ne_of_lt (numbered p j here))]

theorem create : d'.Apart p (d.place path) := by
  obtain ⟨-, ⟨-, rfl⟩ | ⟨vacant, rfl, rfl⟩⟩ := create_eq_ok made
  · exact apart
  · refine ⟨apart.1, fun j hp hq => ?_⟩
    rw [occupant?_addFile vacant, if_neg apart.1] at hp
    rw [occupant?_addFile vacant, if_pos rfl] at hq
    cases hq
    exact Nat.lt_irrefl _ (numbered p _ hp)

end

end Apart

theorem Numbered.create {id : FileId} (numbered : d.Numbered) (made : d.create path = .ok (id, d')) :
    d'.Numbered := by
  obtain ⟨-, ⟨-, rfl⟩ | ⟨vacant, rfl, rfl⟩⟩ := create_eq_ok made
  · exact numbered
  · exact numbered.addFile vacant

/-! ## Everything still there -/

/-- Between two disks nothing was removed and nothing rewritten. -/
structure Retains (d d' : Disk) : Prop where
  home : d'.home = d.home
  directories : d.KeepsDirectories d'
  files : ∀ p content, d.fileAt? p = some content → d'.fileAt? p = some content

namespace Retains

theorem refl (d : Disk) : d.Retains d := ⟨rfl, fun _ h => h, fun _ _ h => h⟩

theorem trans (h : d.Retains d') (k : d'.Retains d'') : d.Retains d'' :=
  ⟨k.home.trans h.home, fun p hp => k.directories p (h.directories p hp),
    fun p content hf => k.files p content (h.files p content hf)⟩

theorem resolve (h : d.Retains d') (hr : d.resolve path = .ok p) : d'.resolve path = .ok p :=
  h.directories.resolve h.home hr

theorem read (h : d.Retains d') (there : d.read path = .ok content) :
    d'.read path = .ok content := by
  obtain ⟨p, hr, hf⟩ := read_eq_ok.mp there
  exact read_eq_ok.mpr ⟨p, h.resolve hr, h.files p content hf⟩

end Retains

theorem occupant?_createDirectories (d : Disk) (path : String) (p : Place) :
    (d.createDirectories path).2.occupant? p = d.occupant? p ∨
      d.occupant? p = none ∧ (d.createDirectories path).2.occupant? p = some .directory := by
  rcases (d.ensureAll_makes (Path.ancestors path)).makes.occupant p with same | ⟨-, free, made⟩
  · exact .inl same
  · exact .inr ⟨free, made⟩

theorem files_of_createDirectories (d : Disk) (path : String) (p : Place) (id : FileId)
    (there : (d.createDirectories path).2.occupant? p = some (.file id)) :
    d.occupant? p = some (.file id) := by
  rcases d.occupant?_createDirectories path p with same | ⟨-, made⟩
  · exact same.symm.trans there
  · cases made.symm.trans there

theorem fileAt?_createDirectories (d : Disk) (path : String) (p : Place) :
    (d.createDirectories path).2.fileAt? p = d.fileAt? p := by
  rcases d.occupant?_createDirectories path p with same | ⟨free, made⟩
  · apply fileAt?_congr same
    intro id _
    rw [bytes, (d.files_createDirectories path).1, bytes]
  · rw [fileAt?, fileAt?, made, free]

theorem retains_createDirectories (d : Disk) (path : String) :
    d.Retains (d.createDirectories path).2 where
  home := (d.ensureAll_makes (Path.ancestors path)).makes.home
  directories p hp := by
    rcases d.occupant?_createDirectories path p with same | ⟨-, made⟩
    · rw [same]
      exact hp
    · exact made
  files p content hf := by
    rw [fileAt?_createDirectories]
    exact hf

/-! ## The directory of a file -/

theorem mem_ancestors_parent {above : String} (ne : Path.parent path ≠ "")
    (h : above ∈ Path.ancestors (Path.parent path)) :
    Path.isAbsolute above = Path.isAbsolute path ∧
      ∃ k, k < (Path.names path).length ∧ Path.names above = (Path.names path).take k := by
  have plain : ∀ n ∈ (Path.names path).dropLast, '/' ∉ n.toList ∧ Path.isStep n :=
    fun n hn => Path.mem_names (List.dropLast_subset _ hn)
  have some : (Path.names path).dropLast ≠ [] := by
    intro none
    have short : (Path.names path).length ≤ 1 := by
      have := congrArg List.length none
      simp only [List.length_dropLast, List.length_nil] at this
      omega
    apply ne
    simp [Path.parent, Path.ofNames, none, show ¬ 2 ≤ (Path.names path).length by omega]
  have long : 2 ≤ (Path.names path).length := by
    have := List.length_pos_iff.mpr some
    rw [List.length_dropLast] at this
    omega
  have absolute : Path.isAbsolute (Path.parent path) = Path.isAbsolute path := by
    rw [Path.parent, Path.isAbsolute_ofNames plain]
    simp [long]
  have names : Path.names (Path.parent path) = (Path.names path).dropLast := by
    rw [Path.parent, Path.names_ofNames plain some]
  rw [ancestors_eq ne] at h
  rcases List.mem_cons.mp h with rfl | h
  · refine ⟨absolute, (Path.names path).length - 1, by omega, ?_⟩
    rw [names, List.dropLast_eq_take]
  · obtain ⟨k, hk, same, taken⟩ := Path.mem_ancestors_tail h
    rw [names, List.length_dropLast] at hk
    refine ⟨same.trans absolute, k, by omega, ?_⟩
    rw [taken, names, List.dropLast_eq_take, List.take_take, Nat.min_eq_left (by omega)]

/-- Making the directory of a file puts nothing at the place of the file, unless its path leads up. -/
theorem free_createDirectories_parent (ne : Path.parent path ≠ "") (down : ".." ∉ Path.names path)
    (free : d.occupant? (d.place path) = none) :
    (d.createDirectories (Path.parent path)).2.occupant? (d.place path) = none := by
  rcases (d.ensureAll_makes (Path.ancestors (Path.parent path))).makes.occupant (d.place path) with
    same | ⟨⟨above, mem, same⟩, -, -⟩
  · exact same.trans free
  · obtain ⟨absolute, k, hk, taken⟩ := mem_ancestors_parent ne mem
    have down' : ".." ∉ Path.names above := by
      rw [taken]
      exact fun up => down (List.mem_of_mem_take up)
    have begin : d.start above = d.start path := by rw [start, start, absolute]
    rw [place_down down, place_down down', begin] at same
    have length := congrArg List.length (List.append_cancel_left same)
    rw [taken, List.length_take] at length
    omega

theorem not_has_of_free (free : d.occupant? (d.place path) = none) : ¬ d.has path := by
  intro there
  rw [has] at there
  cases hl : d.look path with
  | error e =>
    rw [hl] at there
    cases there
  | ok entry =>
    obtain ⟨p, hr, ho⟩ := look_eq.mp hl
    obtain rfl := place_of_resolve hr
    cases free.symm.trans ho

/-! ## Removing a name -/

theorem files_of_removeFileIfAny (d : Disk) (path : String) (p : Place) (id : FileId)
    (there : (d.removeFileIfAny path).occupant? p = some (.file id)) :
    d.occupant? p = some (.file id) := by
  rcases d.occupant?_removeFileIfAny path p with same | ⟨-, -, gone⟩
  · exact same.symm.trans there
  · cases gone.symm.trans there

theorem fileAt?_removeFileIfAny (ne : d.resolve path ≠ .ok p) :
    (d.removeFileIfAny path).fileAt? p = d.fileAt? p := by
  rcases d.occupant?_removeFileIfAny path p with same | ⟨hr, -, -⟩
  · apply fileAt?_congr same
    intro id _
    rw [bytes, (d.files_removeFileIfAny path).2.1, bytes]
  · exact absurd hr ne

theorem fileAt?_removeFileIfAny_self (hr : d.resolve path = .ok p) :
    (d.removeFileIfAny path).fileAt? p = none := by
  have home := (d.files_removeFileIfAny path).1
  have led := (d.keepsDirectories_removeFileIfAny path).resolve home hr
  cases left : (d.removeFileIfAny path).fileAt? p with
  | none => rfl
  | some content => exact absurd (isFile_of_fileAt? led left) (d.isFile_removeFileIfAny path)

/-- **What is left when a name was taken away** is every file to which that name does not lead. -/
theorem read_removeFileIfAny_iff (there : d.read path = .ok content) :
    (d.removeFileIfAny other).read path = .ok content ↔
      (d.removeFileIfAny other).resolve other ≠ d.resolve path := by
  obtain ⟨p, hr, hf⟩ := read_eq_ok.mp there
  have keeps := d.keepsDirectories_removeFileIfAny other
  have home := (d.files_removeFileIfAny other).1
  rw [hr]
  constructor
  · intro left same
    obtain ⟨q, hq, hf'⟩ := read_eq_ok.mp left
    cases hq.symm.trans (keeps.resolve home hr)
    exact d.isFile_removeFileIfAny other (isFile_of_fileAt? same hf')
  · intro ne
    refine read_eq_ok.mpr ⟨p, keeps.resolve home hr, ?_⟩
    rw [fileAt?_removeFileIfAny, hf]
    intro same
    exact ne (keeps.resolve home same)

end Montage.Disk
