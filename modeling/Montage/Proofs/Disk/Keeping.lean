import Montage.Proofs.Disk.Sparing

/-!
# Files that stay as they are

A file in a directory can still be read when what happens elsewhere is over. For this the
way to the directory has to stay free, and no other name may lead to the file, since
whoever writes under the one name would change what is read under the other.
-/

namespace Montage.Disk

open Montage.Path (Below IsName)

variable {d d' d'' : Disk} {path dir name : String} {p q : Place} {id : FileId} {content : Bytes}
  {P : String → Prop}

def Numbered (d : Disk) : Prop := ∀ p id, d.occupant? p = some (.file id) → id < d.nextFile

theorem Numbered.of_files (numbered : d.Numbered) (next : d'.nextFile = d.nextFile)
    (files : ∀ p id, d'.occupant? p = some (.file id) → d.occupant? p = some (.file id)) :
    d'.Numbered := by
  intro p id hp
  rw [next]
  exact numbered p id (files p id hp)

structure Tidy (d : Disk) (dir : String) : Prop where
  given : ∀ p id, d.occupant? p = some (.file id) → id < d.nextFile
  single : ∀ name q id, d.occupant? (d.place dir ++ [name]) = some (.file id) →
    d.occupant? q = some (.file id) → q = d.place dir ++ [name]

theorem Tidy.of_files (tidy : d.Tidy dir) (home : d'.home = d.home) (next : d'.nextFile = d.nextFile)
    (files : ∀ p id, d'.occupant? p = some (.file id) → d.occupant? p = some (.file id)) :
    d'.Tidy dir := by
  constructor
  · exact Numbered.of_files tidy.given next files
  · intro name q id hn hq
    rw [place_congr home] at hn ⊢
    exact tidy.single name q id (files _ id hn) (files q id hq)

/-- **Reading a name in a directory.** -/
theorem read_iff (below : Below path dir name) (hname : IsName name) :
    d.read path = .ok content ↔ d.Reached dir ∧ nameFault? path name = none ∧
      ∃ id, d.occupant? (d.place dir ++ [name]) = some (.file id) ∧ d.bytes id = content := by
  rw [read_eq]
  constructor
  · intro h
    obtain ⟨id, hl, hc⟩ := h
    obtain ⟨p, hr, ho⟩ := look_eq.mp hl
    obtain ⟨reached, fine⟩ := reached_of_resolve_below below hr
    rw [place_of_resolve hr, place_below below hname] at ho
    exact ⟨reached, fine, id, ho, hc⟩
  · intro h
    obtain ⟨reached, fine, id, ho, hc⟩ := h
    have hr := resolve_below below hname reached
    rw [fine] at hr
    exact ⟨id, look_eq.mpr ⟨_, hr, ho⟩, hc⟩

/-- What could be read in a directory, under the names for which `P` holds, can be read as before. -/
structure Preserves (dir : String) (P : String → Prop) (d d' : Disk) : Prop where
  home : d'.home = d.home
  tidy : d.Tidy dir → d'.Tidy dir
  read : d.Tidy dir → ∀ name content, P name → d.read (Path.join dir name) = .ok content →
    d'.read (Path.join dir name) = .ok content

namespace Preserves

theorem refl (d : Disk) : d.Preserves dir P d := ⟨rfl, fun h => h, fun _ _ _ _ h => h⟩

theorem trans (h : d.Preserves dir P d') (k : d'.Preserves dir P d'') : d.Preserves dir P d'' := by
  refine ⟨k.home.trans h.home, fun tidy => k.tidy (h.tidy tidy), ?_⟩
  intro tidy name content hP hr
  exact k.read (h.tidy tidy) name content hP (h.read tidy name content hP hr)

theorem mono {Q : String → Prop} (h : d.Preserves dir P d') (imp : ∀ name, Q name → P name) :
    d.Preserves dir Q d' :=
  ⟨h.home, h.tidy, fun tidy name content hQ => h.read tidy name content (imp name hQ)⟩

end Preserves

section
variable (hP : ∀ name, P name → IsName name)
include hP

/-- It is enough that the way to the directory stays free and that its files stay where they are with
what is in them. -/
theorem preserves_of_files (home : d'.home = d.home) (tidy : d.Tidy dir → d'.Tidy dir)
    (free : ∀ s ∈ way (d.start dir) (Path.names dir), d.occupant? s = some .directory →
      d'.occupant? s = some .directory)
    (files : d.Tidy dir → ∀ name id, P name → d.occupant? (d.place dir ++ [name]) = some (.file id) →
      d'.occupant? (d.place dir ++ [name]) = some (.file id) ∧ d'.bytes id = d.bytes id) :
    d.Preserves dir P d' := by
  refine ⟨home, tidy, ?_⟩
  intro neat name content hname hr
  have below := Path.below_join dir (hP name hname).noSlash
  obtain ⟨reached, fine, id, ho, hc⟩ := (read_iff below (hP name hname)).mp hr
  obtain ⟨there, same⟩ := files neat name id hname ho
  refine (read_iff below (hP name hname)).mpr ⟨⟨?_, reached.short⟩, fine, id, ?_, same.trans hc⟩
  · intro s hs
    rw [start_congr home] at hs
    exact free s hs (reached.passes s hs)
  · rw [place_congr home]
    exact there

/-! ## Directories -/

omit hP in
theorem files_createDirectories (d : Disk) (path : String) :
    (d.createDirectories path).2.contents = d.contents ∧
      (d.createDirectories path).2.nextFile = d.nextFile := by
  have one : ∀ (d : Disk) (path : String), (d.ensureDirectory path).2.contents = d.contents ∧
      (d.ensureDirectory path).2.nextFile = d.nextFile := by
    intro d path
    rcases d.ensureDirectory_cases path with ⟨e, -, h⟩ | ⟨-, h⟩ | ⟨p, -, -, h⟩
    all_goals
      rw [h]
      exact ⟨rfl, rfl⟩
  rw [createDirectories]
  induction Path.ancestors path with
  | nil => exact ⟨rfl, rfl⟩
  | cons path above ih =>
    rcases d.ensureAll_cons path above with h | ⟨-, h⟩ | h
    · rw [h]
      exact one d path
    · rw [h]
      exact ih
    · obtain ⟨contents, next⟩ := one (d.ensureAll above).2 path
      rw [h]
      exact ⟨contents.trans ih.1, next.trans ih.2⟩

theorem preserves_createDirectories (path : String) :
    d.Preserves dir P (d.createDirectories path).2 := by
  have made := (d.ensureAll_makes (Path.ancestors path)).makes
  rw [← createDirectories] at made
  obtain ⟨contents, next⟩ := d.files_createDirectories path
  have stays : ∀ q e, d.occupant? q = some e → (d.createDirectories path).2.occupant? q = some e := by
    intro q e hq
    rcases made.occupant q with same | ⟨-, free, -⟩
    · rw [same]
      exact hq
    · rw [free] at hq
      cases hq
  apply preserves_of_files hP made.home
  · intro tidy
    apply tidy.of_files made.home next
    intro q id hq
    rcases made.occupant q with same | ⟨-, -, new⟩
    · rw [← same]
      exact hq
    · rw [new] at hq
      cases hq
  · intro s _ hs
    exact stays s _ hs
  · intro _ name id _ hn
    refine ⟨stays _ _ hn, ?_⟩
    rw [bytes, contents, bytes]

/-- **Removing a directory** that the way to the other one does not lead through. -/
theorem preserves_removeAllIfAny
    (past : ∀ s ∈ way (d.start dir) (Path.names dir), ¬ d.place path <+: s) :
    d.Preserves dir P (d.removeAllIfAny path) := by
  rcases d.removeAllIfAny_cases path with ⟨same, -⟩ | ⟨p, hr, there, removed⟩
  · rw [same]
    exact .refl d
  · obtain rfl : p = d.place path := place_of_resolve hr
    have ne : d.place path ≠ [] := by
      intro root
      exact past _ (start_mem_way _ _) (root ▸ List.nil_prefix)
    have gone := d.occupant?_prune ne
    have outside : ¬ d.place path <+: d.place dir := past _ (end_mem_way _ _)
    rw [removed]
    apply preserves_of_files hP
    · rfl
    · intro tidy
      apply tidy.of_files (by rfl) (by rfl)
      intro q id hq
      rw [gone] at hq
      split at hq
      · cases hq
      · exact hq
    · intro s hs hd
      rw [gone, if_neg (past s hs)]
      exact hd
    · intro _ name id _ hn
      refine ⟨?_, rfl⟩
      rw [gone, if_neg, hn]
      -- a file stands there, and below the directory there would be nothing of the other one
      intro pre
      rcases List.prefix_concat_iff.mp pre with same | pre
      · rw [← same, there] at hn
        cases hn
      · exact outside pre

/-! ## Files elsewhere -/

section
variable (other : ∀ name, P name → d.place path ≠ d.place dir ++ [name])
include other

theorem preserves_removeFileIfAny : d.Preserves dir P (d.removeFileIfAny path) := by
  obtain ⟨home, contents, next⟩ := d.files_removeFileIfAny path
  apply preserves_of_files hP home
  · intro tidy
    apply tidy.of_files home next
    intro q id hq
    rcases d.occupant?_removeFileIfAny path q with same | ⟨-, -, gone⟩
    · exact same.symm.trans hq
    · cases gone.symm.trans hq
  · exact fun s _ => d.keepsDirectories_removeFileIfAny path s
  · intro _ name id hname hn
    refine ⟨?_, by rw [bytes, contents, bytes]⟩
    rcases d.occupant?_removeFileIfAny path (d.place dir ++ [name]) with same | ⟨hr, -, -⟩
    · exact same.trans hn
    · exact absurd (place_of_resolve hr).symm (other name hname)

end

end

/-! ## Writing -/

theorem bytes_setBytes (d : Disk) (id : FileId) (content : Bytes) (j : FileId) :
    (d.setBytes id content).bytes j = if j = id then content else d.bytes j := by
  rw [bytes, setBytes, lookup_cons_ite]
  by_cases same : j = id
  · rw [if_pos same, if_pos same, Option.getD_some]
  · rw [if_neg same, if_neg same, lookup_filter_ne, if_neg same, bytes]

theorem Tidy.setBytes (tidy : d.Tidy dir) (id : FileId) (content : Bytes) :
    (d.setBytes id content).Tidy dir := tidy.of_files rfl rfl fun _ _ h => h

def addFile (d : Disk) (place : Place) : Disk :=
  { (d.put place (.file d.nextFile)).setBytes d.nextFile [] with nextFile := d.nextFile + 1 }

theorem occupant?_addFile (vacant : d.occupant? p = none) (q : Place) :
    (d.addFile p).occupant? q = if q = p then some (.file d.nextFile) else d.occupant? q :=
  occupant?_put d _ q (ne_nil_of_occupant? vacant (by simp))

theorem bytes_addFile (d : Disk) (p : Place) (id : FileId) :
    (d.addFile p).bytes id = if id = d.nextFile then [] else d.bytes id :=
  bytes_setBytes _ _ _ _

theorem Numbered.addFile (numbered : d.Numbered) (vacant : d.occupant? p = none) :
    (d.addFile p).Numbered := by
  intro q id hq
  change id < d.nextFile + 1
  rw [occupant?_addFile vacant] at hq
  split at hq
  · cases hq
    exact Nat.lt_succ_self _
  · exact Nat.lt_succ_of_lt (numbered q id hq)

theorem Tidy.addFile (tidy : d.Tidy dir) (vacant : d.occupant? p = none) :
    (d.addFile p).Tidy dir := by
  constructor
  · exact Numbered.addFile tidy.given vacant
  · intro name q id hn hq
    rw [place_congr (show (d.addFile p).home = d.home from rfl)] at hn ⊢
    rw [occupant?_addFile vacant] at hn hq
    -- the new file has a number that no other one has
    split at hn <;> split at hq
    · simp_all
    · cases hn
      exact absurd (tidy.given q _ hq) (Nat.lt_irrefl _)
    · cases hq
      exact absurd (tidy.given _ _ hn) (Nat.lt_irrefl _)
    · exact tidy.single name q id hn hq

theorem create_eq_ok (h : d.create path = .ok (id, d')) :
    d.resolve path = .ok (d.place path) ∧
      ((d.occupant? (d.place path) = some (.file id) ∧ d' = d.setBytes id []) ∨
        (d.occupant? (d.place path) = none ∧ id = d.nextFile ∧ d' = d.addFile (d.place path))) := by
  rw [create] at h
  cases hr : d.resolve path with
  | error e =>
    rw [hr] at h
    cases h
  | ok p =>
    obtain rfl : p = d.place path := place_of_resolve hr
    refine ⟨rfl, ?_⟩
    simp only [hr, bind, Except.bind] at h
    cases ho : d.occupant? (d.place path) with
    | none =>
      rw [ho] at h
      cases h
      exact .inr ⟨rfl, rfl, rfl⟩
    | some entry =>
      cases entry with
      | directory =>
        rw [ho] at h
        cases h
      | file id =>
        rw [ho] at h
        cases h
        exact .inl ⟨rfl, rfl⟩

theorem opened_create (h : d.create path = .ok (id, d')) :
    d'.occupant? (d.place path) = some (.file id) ∧ d'.bytes id = [] := by
  obtain ⟨-, ⟨there, rfl⟩ | ⟨vacant, rfl, rfl⟩⟩ := create_eq_ok h
  · exact ⟨there, (bytes_setBytes ..).trans (if_pos rfl)⟩
  · exact ⟨(occupant?_addFile vacant _).trans (if_pos rfl), (bytes_addFile ..).trans (if_pos rfl)⟩

theorem moveFile_of_same (same : d.occupant? q = some (.file id)) (p : Place) :
    d.moveFile p q id = d := by
  rw [moveFile, if_pos same]

theorem moveFile_of_other (other : d.occupant? q ≠ some (.file id)) (p : Place) :
    d.moveFile p q id = (d.clear p).put q (.file id) := by
  rw [moveFile, if_neg other]

theorem files_moveFile (d : Disk) (p q : Place) (id : FileId) : (d.moveFile p q id).home = d.home ∧
    (d.moveFile p q id).contents = d.contents ∧ (d.moveFile p q id).nextFile = d.nextFile := by
  rw [moveFile]
  split
  · exact ⟨rfl, rfl, rfl⟩
  · exact ⟨rfl, rfl, rfl⟩

theorem bytes_moveFile (d : Disk) (p q : Place) (id j : FileId) :
    (d.moveFile p q id).bytes j = d.bytes j := by
  rw [bytes, (d.files_moveFile p q id).2.1, bytes]

theorem occupant?_moveFile (there : d.occupant? p = some (.file id)) (hq : q ≠ []) (s : Place) :
    (d.moveFile p q id).occupant? s = if s = q then some (.file id)
      else if s = p ∧ d.occupant? q ≠ some (.file id) then none else d.occupant? s := by
  by_cases same : d.occupant? q = some (.file id)
  · rw [moveFile_of_same same]
    by_cases here : s = q
    · rw [if_pos here, here, same]
    · rw [if_neg here, if_neg fun gone => gone.2 same]
  · rw [moveFile_of_other same, occupant?_put _ _ _ hq,
      occupant?_clear _ _ (ne_nil_of_occupant? there (by simp))]
    simp [same]

/-- A file behind the move is the moved one in its new place, or one that was there before. -/
theorem file_moveFile (there : d.occupant? p = some (.file id)) (hq : q ≠ []) {s : Place} {j : FileId}
    (h : (d.moveFile p q id).occupant? s = some (.file j)) :
    (s = q ∧ j = id) ∨ d.occupant? s = some (.file j) := by
  rw [occupant?_moveFile there hq] at h
  split at h
  · cases h
    exact .inl ⟨‹_›, rfl⟩
  · split at h
    · cases h
    · exact .inr h

/-- What has another name elsewhere still has it behind the move. -/
theorem ne_of_file_moveFile (there : d.occupant? p = some (.file id)) (hq : q ≠ [])
    (other : d.occupant? q ≠ some (.file id)) {s : Place} (hs : s ≠ q) {j : FileId}
    (h : (d.moveFile p q id).occupant? s = some (.file j)) : s ≠ p := by
  rintro rfl
  rw [occupant?_moveFile there hq, if_neg hs, if_pos ⟨rfl, other⟩] at h
  cases h

theorem Numbered.moveFile (numbered : d.Numbered) (there : d.occupant? p = some (.file id))
    (hq : q ≠ []) : (d.moveFile p q id).Numbered := by
  intro s j hs
  rw [(d.files_moveFile p q id).2.2]
  rcases file_moveFile there hq hs with ⟨-, rfl⟩ | was
  · exact numbered _ _ there
  · exact numbered s j was

theorem Tidy.moveFile {source : String} (tidy : d.Tidy dir)
    (there : d.occupant? (d.place dir ++ [source]) = some (.file id)) (hq : q ≠ []) :
    (d.moveFile (d.place dir ++ [source]) q id).Tidy dir := by
  by_cases same : d.occupant? q = some (.file id)
  · rw [moveFile_of_same same]
    exact tidy
  · constructor
    · exact Numbered.moveFile tidy.given there hq
    · intro name s j hn hs
      rw [place_congr (d.files_moveFile _ q id).1] at hn ⊢
      have away : ∀ {s j}, s ≠ q → (d.moveFile (d.place dir ++ [source]) q id).occupant? s =
          some (.file j) → s ≠ d.place dir ++ [source] :=
        fun elsewhere was => ne_of_file_moveFile there hq same elsewhere was
      -- of two names for one file, either both are the new one or the file had them before
      by_cases here : d.place dir ++ [name] = q
      · by_cases too : s = q
        · exact too.trans here.symm
        · exfalso
          rw [here, occupant?_moveFile there hq, if_pos rfl] at hn
          cases hn
          rcases file_moveFile there hq hs with ⟨rfl, -⟩ | was
          · exact too rfl
          · exact away too hs (tidy.single source s _ there was)
      · rcases file_moveFile there hq hn with ⟨rfl, -⟩ | was
        · exact absurd rfl here
        · rcases file_moveFile there hq hs with ⟨rfl, rfl⟩ | was'
          · exact absurd (tidy.single name _ _ was there).symm (away here hn)
          · exact tidy.single name s j was was'

/-- A file is renamed, and takes the place of a file at most. -/
theorem renameFile_eq_ok {source target : String} (h : d.renameFile source target = .ok d') :
    d.resolve target = .ok (d.place target) ∧ d.occupant? (d.place target) ≠ some .directory ∧
      ∃ id, d.occupant? (d.place source) = some (.file id) ∧
        d' = d.moveFile (d.place source) (d.place target) id := by
  rw [renameFile] at h
  cases ha : d.resolve source with
  | error e =>
    rw [ha] at h
    cases h
  | ok a =>
    cases hb : d.resolve target with
    | error e =>
      rw [ha, hb] at h
      cases h
    | ok b =>
      obtain rfl : a = d.place source := place_of_resolve ha
      obtain rfl : b = d.place target := place_of_resolve hb
      simp only [ha, hb, bind, Except.bind] at h
      split at h
      · cases h
      · cases h
      · cases h
      · rename_i id hid noDirectory
        cases h
        exact ⟨rfl, noDirectory, id, hid, rfl⟩

section
variable (hP : ∀ name, P name → IsName name)
  (other : ∀ name, P name → d.place path ≠ d.place dir ++ [name])
include hP other

theorem preserves_setBytes (there : d.occupant? (d.place path) = some (.file id)) (content : Bytes) :
    d.Preserves dir P (d.setBytes id content) := by
  apply preserves_of_files hP
  · rfl
  · intro tidy
    exact tidy.setBytes id content
  · intro s _ hs
    exact hs
  · intro tidy name j hname hn
    refine ⟨hn, ?_⟩
    rw [bytes_setBytes, if_neg]
    rintro rfl
    exact other name hname (tidy.single name _ _ hn there)

theorem preserves_create (h : d.create path = .ok (id, d')) : d.Preserves dir P d' := by
  obtain ⟨-, ⟨there, rfl⟩ | ⟨vacant, rfl, rfl⟩⟩ := create_eq_ok h
  · exact preserves_setBytes hP other there []
  · have added := fun q => occupant?_addFile vacant q
    apply preserves_of_files hP
    · rfl
    · intro tidy
      exact tidy.addFile vacant
    · intro s _ hs
      rw [added, if_neg, hs]
      rintro rfl
      rw [vacant] at hs
      cases hs
    · intro tidy name j hname hn
      rw [added, if_neg (Ne.symm (other name hname)), hn, bytes_addFile,
        if_neg (Nat.ne_of_lt (tidy.given _ j hn))]
      exact ⟨rfl, rfl⟩

theorem preserves_write {content : Bytes} (h : d.write path content = .ok d') :
    d.Preserves dir P d' := by
  rw [write] at h
  cases hc : d.create path with
  | error e =>
    rw [hc] at h
    cases h
  | ok opened =>
    obtain ⟨id, d₁⟩ := opened
    rw [hc] at h
    cases h
    have first := preserves_create hP other hc
    have there : d₁.occupant? (d₁.place path) = some (.file id) := by
      rw [place_congr first.home]
      exact (opened_create hc).1
    have other' : ∀ name, P name → d₁.place path ≠ d₁.place dir ++ [name] := by
      intro name hname
      rw [place_congr first.home, place_congr first.home]
      exact other name hname
    exact first.trans (preserves_setBytes hP other' there content)

/-- **A file that takes over a name** is read under that name, and under the others it is as before. -/
theorem preserves_renameFile {target name : String} (below : Below target dir name)
    (hname : IsName name) (inside : ∃ source, d.place path = d.place dir ++ [source])
    (there : d.occupant? (d.place path) = some (.file id)) (h : d.renameFile path target = .ok d') :
    d.Preserves dir (fun n => P n ∧ n ≠ name) d' ∧ d'.read target = .ok (d.bytes id) := by
  obtain ⟨hr, noDirectory, id', hid, rfl⟩ := renameFile_eq_ok h
  obtain rfl : id' = id := by
    rw [there] at hid
    cases hid
    rfl
  have here : d.place target = d.place dir ++ [name] := place_below below hname
  have hq : d.place target ≠ [] := ne_nil_of_occupant? rfl noDirectory
  have moved := fun s => occupant?_moveFile there hq s
  have free : ∀ s, d.occupant? s = some .directory →
      (d.moveFile (d.place path) (d.place target) id').occupant? s = some .directory := by
    intro s hs
    rw [moved, if_neg, if_neg, hs]
    · rintro ⟨rfl, -⟩
      rw [there] at hs
      cases hs
    · rintro rfl
      exact noDirectory hs
  obtain ⟨home, -, -⟩ := d.files_moveFile (d.place path) (d.place target) id'
  constructor
  · apply preserves_of_files (fun n hn => hP n hn.1)
    · exact home
    · intro tidy
      obtain ⟨source, hsource⟩ := inside
      rw [hsource] at there ⊢
      exact tidy.moveFile there hq
    · intro s _ hs
      exact free s hs
    · intro _ n j hn ho
      refine ⟨?_, d.bytes_moveFile _ _ _ _⟩
      rw [moved, if_neg, if_neg fun gone => other n hn.1 gone.1.symm, ho]
      rw [here]
      simpa using hn.2
  · obtain ⟨reached, fine⟩ := reached_of_resolve_below below hr
    refine (read_iff below hname).mpr ⟨reached.keep home free, fine, id', ?_, d.bytes_moveFile _ _ _ _⟩
    rw [place_congr home, ← here, moved, if_pos rfl]

end

end Montage.Disk
