import Montage.Proofs.Artifact.Uploading
import Montage.Proofs.Disk.Files

/-!
# What one step of an upload can be

A step readies, opens, creates, writes on, finishes, publishes or fails, and each of these
does one thing to the disk. What that leaves as it was is said here of every step, so that
nothing else has to look at how a step is taken.
-/

namespace Montage

namespace Upload

variable {u : Upload} {d d' : Disk} {a a' : UploadStage}

/-! ## What a step can be -/

inductive Spares (f : FileStore) (d : Disk) : Disk → Prop
  | nothing : Spares f d d
  | directories : Spares f d (d.createDirectories f.dir).2

inductive Cleans (u : Upload) (d : Disk) : Disk → Prop
  | spared {d' : Disk} : Spares u.store d d' → Cleans u d d'
  | removed : Cleans u d (d.removeFileIfAny u.partialFile)

/-- The steps with which an upload fails. They take the hidden file away, but for the first one and
the last one, with which the whole copy does not get its name. -/
inductive Fails (u : Upload) (d : Disk) : UploadStage → Disk → Prop
  | unready {d' : Disk} : Spares u.store d d' → Fails u d .requested d'
  | unopened : Fails u d .ready (d.removeFileIfAny u.partialFile)
  | uncreated {source : Entry} : Fails u d (.opened source) (d.removeFileIfAny u.partialFile)
  | uncopied {source : Entry} {t : FileId} {seen : Bytes} :
    Fails u d (.copying source t seen) (d.removeFileIfAny u.partialFile)
  | unnamed {seen : Bytes} : Fails u d (.copied seen) d

theorem Fails.cleans (h : u.Fails d a d') : u.Cleans d d' := by
  cases h with
  | unready spares => exact .spared spares
  | unopened => exact .removed
  | uncreated => exact .removed
  | uncopied => exact .removed
  | unnamed => exact .spared .nothing

theorem Fails.unended (h : u.Fails d a d') (r : Except ArtifactError StoredArtifact) :
    a ≠ .ended r := by
  rintro rfl
  cases h

inductive Moves (u : Upload) (d : Disk) : UploadStage → UploadStage → Disk → Prop
  | readied : ArtifactName.isValid u.name →
    Moves u d .requested .ready (d.createDirectories u.store.dir).2
  | opened {source : Entry} : d.look u.path = .ok source → Moves u d .ready (.opened source) d
  | created {source : Entry} {t : FileId} {d' : Disk} : d.create u.partialFile = .ok (t, d') →
    Moves u d (.opened source) (.copying source t []) d'
  | written {id t : FileId} {seen : Bytes} (c : Chance) : piece c (d.bytes id) seen ≠ [] →
    Moves u d (.copying (.file id) t seen) (.copying (.file id) t (seen ++ piece c (d.bytes id) seen))
      (d.writeAt t seen.length (piece c (d.bytes id) seen))
  | finished {id t : FileId} {seen : Bytes} (c : Chance) : piece c (d.bytes id) seen = [] →
    Moves u d (.copying (.file id) t seen) (.copied seen) d
  | published {seen : Bytes} {d' : Disk} : d.renameFile u.partialFile u.destination = .ok d' →
    Moves u d (.copied seen) (.ended (.ok (u.stored seen))) d'
  | failed {a : UploadStage} {e : ArtifactError} {d' : Disk} : Fails u d a d' →
    Moves u d a (.ended (.error e)) d'
  | rested {r : Except ArtifactError StoredArtifact} : Moves u d (.ended r) (.ended r) d

theorem moves_abandon (e : DiskError) (fails : u.Fails d a (d.removeFileIfAny u.partialFile)) :
    u.Moves d a (u.abandon e d).1 (u.abandon e d).2 := by
  unfold abandon
  exact .failed fails

theorem moves_step (u : Upload) (c : Chance) (a : UploadStage) (d : Disk) :
    u.Moves d a (u.step c a d).1 (u.step c a d).2 := by
  cases a with
  | requested =>
    unfold step
    by_cases valid : ArtifactName.isValid u.name
    · rcases hd : d.createDirectories u.store.dir with ⟨e | _, d'⟩
      all_goals
        have left : Spares u.store d d' := by
          have := Spares.directories (f := u.store) (d := d)
          rwa [hd] at this
      · cases hf : c.fault with
        | some e' => simpa [valid, hf] using .failed (.unready .nothing)
        | none => simpa [valid, hf] using .failed (.unready left)
      · cases hf : c.fault with
        | some e' => simpa [valid, hf] using .failed (.unready .nothing)
        | none =>
          have := Moves.readied (d := d) valid
          simpa [valid, hf, hd] using this
    · simpa [valid] using .failed (.unready .nothing)
  | ready =>
    unfold step
    cases h : attempt c (d.look u.path) with
    | ok source => exact .opened (attempt_eq_ok h)
    | error e =>
      cases e with
      | notFound => exact .failed .unopened
      | _ => exact moves_abandon _ .unopened
  | opened source =>
    unfold step
    cases h : attempt c (d.create u.partialFile) with
    | ok opened => exact .created (attempt_eq_ok h)
    | error e => exact moves_abandon e .uncreated
  | copying source t seen =>
    unfold step
    cases hf : c.fault with
    | some e => exact moves_abandon e .uncopied
    | none =>
      cases source with
      | directory => exact moves_abandon .isADirectory .uncopied
      | file id =>
        by_cases done : piece c (d.bytes id) seen = []
        · simpa [done] using .finished c done
        · simpa [done] using .written c done
  | copied seen =>
    unfold step
    cases h : attempt c (d.renameFile u.partialFile u.destination) with
    | ok d' => exact .published (attempt_eq_ok h)
    | error e => exact .failed .unnamed
  | ended r => exact .rested

/-! ## What a step does to the disk -/

def Hides (u : Upload) (d : Disk) (t : FileId) : Prop :=
  d.occupant? (d.place u.partialFile) = some (.file t)

theorem Spares.hides_iff (h : Spares u.store d d') (t : FileId) : u.Hides d' t ↔ u.Hides d t := by
  cases h with
  | nothing => exact Iff.rfl
  | directories =>
    have made := (d.ensureAll_makes (Path.ancestors u.store.dir)).makes
    unfold Hides
    rw [Disk.createDirectories, Disk.place_congr made.home]
    rcases made.occupant (d.place u.partialFile) with same | ⟨-, free, new⟩
    · rw [same]
    · rw [free, new]
      simp

theorem Spares.contents (h : Spares u.store d d') : d'.contents = d.contents := by
  cases h with
  | nothing => rfl
  | directories => exact (d.files_createDirectories u.store.dir).1

theorem Spares.holds (h : Spares u.store d d') {t : FileId} {seen : Bytes} (holds : u.Holds t seen d) :
    u.Holds t seen d' := by
  refine ⟨(h.hides_iff t).mpr holds.there, ?_⟩
  rw [Disk.bytes, h.contents]
  exact holds.bytes

theorem Holds.eq_of_hides {t j : FileId} {seen : Bytes} (h : u.Holds t seen d)
    (hides : u.Hides d j) : j = t := by
  unfold Hides at hides
  rw [h.there] at hides
  cases hides
  rfl

theorem removed_cases (u : Upload) (d : Disk) :
    d.removeFileIfAny u.partialFile = d ∨ ∀ t, ¬ u.Hides (d.removeFileIfAny u.partialFile) t := by
  rcases d.removeFileIfAny_cases u.partialFile with ⟨same, -⟩ | ⟨p, id, hr, -, -⟩
  · exact .inl same
  · right
    intro t hides
    have home := (d.files_removeFileIfAny u.partialFile).1
    -- the path leads where it led, and no file is left there
    have led := (d.keepsDirectories_removeFileIfAny u.partialFile).resolve home hr
    unfold Hides at hides
    rw [← Disk.place_of_resolve led] at hides
    exact d.isFile_removeFileIfAny u.partialFile (Disk.isFile_iff.mpr ⟨p, t, led, hides⟩)

theorem Cleans.files (h : u.Cleans d d') : d'.home = d.home ∧ d'.nextFile = d.nextFile ∧
    ∀ p id, d'.occupant? p = some (.file id) → d.occupant? p = some (.file id) := by
  cases h with
  | spared spares =>
    cases spares with
    | nothing => exact ⟨rfl, rfl, fun _ _ there => there⟩
    | directories =>
      have home := (d.retains_createDirectories u.store.dir).home
      have next := (d.files_createDirectories u.store.dir).2
      exact ⟨home, next, d.files_of_createDirectories u.store.dir⟩
  | removed =>
    obtain ⟨home, -, next⟩ := d.files_removeFileIfAny u.partialFile
    exact ⟨home, next, d.files_of_removeFileIfAny u.partialFile⟩

/-- Octets go into the open file, wherever its name is, or none do. -/
inductive Writes (t : FileId) (seen : Bytes) (d : Disk) : Bytes → Disk → Prop
  | none : Writes t seen d seen d
  | some (next : Bytes) : Writes t seen d (seen ++ next) (d.writeAt t seen.length next)

section
variable {t j : FileId} {seen seen' : Bytes} (h : Writes t seen d seen' d')
include h

theorem Writes.hides_iff : u.Hides d' j ↔ u.Hides d j := by
  cases h with
  | none => exact Iff.rfl
  | some next => exact Iff.rfl

theorem Writes.holds (holds : u.Holds t seen d) : u.Holds t seen' d' := by
  cases h with
  | none => exact holds
  | some next => exact holds.writeAt next

end

section
variable (valid : ArtifactName.isValid u.name)
include valid

theorem Cleans.keeps (h : u.Cleans d d') : u.store.Keeps d d' := by
  cases h with
  | spared h =>
    cases h with
    | nothing => exact .refl d
    | directories => exact Disk.preserves_createDirectories isName_valid u.store.dir
  | removed => exact keeps_removePartial valid (.refl d)

theorem Writes.keeps {t : FileId} {seen seen' : Bytes} (h : Writes t seen d seen' d')
    (hides : u.Hides d t) : u.store.Keeps d d' := by
  cases h with
  | none => exact .refl d
  | some next => exact Disk.preserves_setBytes isName_valid (partialFile_ne valid d) hides _

theorem keeps_created {t : FileId} (h : d.create u.partialFile = .ok (t, d')) :
    u.store.Keeps d d' :=
  Disk.preserves_create isName_valid (partialFile_ne valid d) h

theorem holds_created {t : FileId} (h : d.create u.partialFile = .ok (t, d')) :
    u.Holds t [] d' := by
  obtain ⟨there, empty⟩ := Disk.opened_create h
  refine ⟨?_, empty⟩
  rw [Disk.place_congr (keeps_created valid h).home]
  exact there

omit valid in
theorem created_eq {t j : FileId} (h : d.create u.partialFile = .ok (t, d'))
    (hides : u.Hides d j) : t = j := by
  unfold Hides at hides
  obtain ⟨-, ⟨there, -⟩ | ⟨vacant, -, -⟩⟩ := Disk.create_eq_ok h
  · rw [there] at hides
    cases hides
    rfl
  · rw [vacant] at hides
    cases hides

theorem ne_destination (d : Disk) : d.place u.partialFile ≠ d.place u.destination := by
  have here : d.place u.destination = d.place u.store.dir ++ [u.name] :=
    ArtifactName.place_destination valid u.store.dir d
  rw [here]
  exact partialFile_ne valid d u.name valid

theorem published_renamed (h : d.renameFile u.partialFile u.destination = .ok d') :
    ∃ t, u.Hides d t ∧ d'.read u.destination = .ok (d.bytes t) ∧
      (d.occupant? (d.place u.destination) ≠ some (.file t) → ∀ j, ¬ u.Hides d' j) ∧
      d.Preserves u.store.dir (fun n => ArtifactName.isValid n ∧ n ≠ u.name) d' := by
  have named := ArtifactName.isName_of_isValid valid
  obtain ⟨-, noDirectory, t, there, moved⟩ := Disk.renameFile_eq_ok h
  obtain ⟨others, here⟩ := Disk.preserves_renameFile isName_valid (partialFile_ne valid d)
    (Path.below_join u.store.dir named.noSlash) named ⟨_, place_partialFile valid d⟩ there h
  refine ⟨t, there, here, ?_, others⟩
  intro other j hides
  unfold Hides at hides
  rw [Disk.place_congr others.home, moved,
    Disk.occupant?_moveFile there (Disk.ne_nil_of_occupant? rfl noDirectory),
    if_neg (ne_destination valid d), if_pos ⟨rfl, other⟩] at hides
  cases hides

theorem gone_of_published (tidy : d.Tidy u.store.dir)
    (h : d.renameFile u.partialFile u.destination = .ok d') (j : FileId) : ¬ u.Hides d' j := by
  obtain ⟨t, hides, -, gone, -⟩ := published_renamed valid h
  refine gone (fun same => ?_) j
  have here : d.place u.destination = d.place u.store.dir ++ [u.name] :=
    ArtifactName.place_destination valid u.store.dir d
  rw [here] at same
  exact ne_destination valid d ((tidy.single u.name _ t same hides).trans here.symm)

end

end Upload

/-! ## Stages -/

def UploadStage.Waits : UploadStage → Prop
  | .requested | .ready | .opened _ | .ended (.error _) => True
  | .copying _ _ _ | .copied _ | .ended (.ok _) => False

inductive UploadStage.Copies : UploadStage → FileId → Bytes → Prop
  | copying {source : Entry} {t : FileId} {seen : Bytes} : Copies (.copying source t seen) t seen
  | copied {t : FileId} {seen : Bytes} : Copies (.copied seen) t seen

def UploadStage.Avoids (id : FileId) : UploadStage → Prop
  | .copying _ t _ => t ≠ id
  | .requested | .ready | .opened _ | .copied _ | .ended _ => True

namespace Upload

variable {u : Upload} {d d' : Disk} {a a' : UploadStage}

theorem Moves.of_ended {r : Except ArtifactError StoredArtifact}
    (h : u.Moves d (.ended r) a' d') : a' = .ended r ∧ d' = d := by
  cases h with
  | failed fails => exact absurd rfl (fails.unended r)
  | rested => exact ⟨rfl, rfl⟩

theorem Moves.of_waits (waits : a.Waits) (h : u.Moves d a a' d') :
    (a'.Waits ∧ Spares u.store d d') ∨ (∃ e, a' = .ended (.error e) ∧ u.Cleans d d') ∨
      ∃ t, a'.Copies t [] ∧ d.create u.partialFile = .ok (t, d') := by
  cases h with
  | readied _ => exact .inl ⟨trivial, .directories⟩
  | opened _ => exact .inl ⟨trivial, .nothing⟩
  | created made => exact .inr (.inr ⟨_, .copying, made⟩)
  | failed fails => exact .inr (.inl ⟨_, rfl, fails.cleans⟩)
  | rested => exact .inl ⟨waits, .nothing⟩
  | written _ => cases waits
  | finished _ _ => cases waits
  | published _ => cases waits

theorem Moves.of_copies {t : FileId} {seen : Bytes} (copies : a.Copies t seen)
    (h : u.Moves d a a' d') :
    (∃ seen', a'.Copies t seen' ∧ Writes t seen d seen' d') ∨
      (∃ e, a' = .ended (.error e) ∧ u.Fails d a d') ∨
      a = .copied seen ∧ a' = .ended (.ok (u.stored seen)) ∧
        d.renameFile u.partialFile u.destination = .ok d' := by
  cases h with
  | written c =>
    cases copies
    exact .inl ⟨_, .copying, .some _⟩
  | finished c _ =>
    cases copies
    exact .inl ⟨_, .copied, .none⟩
  | published renamed =>
    cases copies
    exact .inr (.inr ⟨rfl, rfl, renamed⟩)
  | failed fails => exact .inr (.inl ⟨_, rfl, fails⟩)
  | _ => cases copies

/-! ## Sources -/

variable {q : Place} {e : Entry} {id t : FileId}

theorem prefix_piece (c : Chance) {content seen : Bytes} (h : seen <+: content) :
    seen ++ piece c content seen <+: content := by
  obtain ⟨rest, rfl⟩ := h
  unfold piece
  rw [List.drop_left, List.prefix_append_right_inj]
  apply List.take_prefix

theorem eq_of_piece_nil {c : Chance} {content seen : Bytes} (h : seen <+: content)
    (none : piece c content seen = []) : seen = content := by
  obtain ⟨rest, rfl⟩ := h
  unfold piece at none
  rw [List.drop_left] at none
  have no : rest = [] := by
    rcases List.take_eq_nil_iff.mp none with zero | no
    · omega
    · exact no
  rw [no, List.append_nil]

theorem Spares.stays {f : FileStore} (h : Spares f d d') (there : d.occupant? q = some e) :
    d'.occupant? q = some e := by
  cases h with
  | nothing => exact there
  | directories =>
    rcases (d.ensureAll_makes (Path.ancestors f.dir)).makes.occupant q with same | ⟨-, free, -⟩
    · rw [Disk.createDirectories, same]
      exact there
    · rw [there] at free
      cases free

theorem Moves.stays (h : u.Moves d a a' d') (there : d.occupant? q = some e)
    (aside : e = .directory ∨ q ≠ d.place u.partialFile ∧ q ≠ d.place u.destination) :
    d'.occupant? q = some e := by
  cases h with
  | readied _ => exact Spares.stays .directories there
  | opened _ => exact there
  | created made =>
    obtain ⟨-, ⟨-, rfl⟩ | ⟨vacant, -, rfl⟩⟩ := Disk.create_eq_ok made
    · exact there
    · rw [Disk.occupant?_addFile vacant, if_neg, there]
      intro same
      rw [same, vacant] at there
      cases there
  | written c => exact there
  | finished c _ => exact there
  | published renamed =>
    obtain ⟨-, noDirectory, t, file, rfl⟩ := Disk.renameFile_eq_ok renamed
    rw [Disk.occupant?_moveFile file (Disk.ne_nil_of_occupant? rfl noDirectory), if_neg, if_neg, there]
    · rintro ⟨same, -⟩
      rcases aside with rfl | ⟨ne, -⟩
      · rw [same, file] at there
        cases there
      · exact ne same
    · intro same
      rcases aside with rfl | ⟨-, ne⟩
      · exact noDirectory (same ▸ there)
      · exact ne same
  | failed fails =>
    cases fails.cleans with
    | spared spares => exact spares.stays there
    | removed =>
      rcases d.occupant?_removeFileIfAny u.partialFile q with same | ⟨hr, ⟨t, file⟩, -⟩
      · exact same.trans there
      · rcases aside with rfl | ⟨ne, -⟩
        · cases file.symm.trans there
        · exact absurd (Disk.place_of_resolve hr) ne
  | rested => exact there

section
variable (valid : ArtifactName.isValid u.name)
include valid

theorem Moves.preserves (h : u.Moves d a a' d') : d'.home = d.home ∧
    (d.Tidy u.store.dir → d'.Tidy u.store.dir) := by
  cases h with
  | readied _ =>
    have keeps := Cleans.keeps (d := d) valid (.spared .directories)
    exact ⟨keeps.home, keeps.tidy⟩
  | opened _ => exact ⟨rfl, fun tidy => tidy⟩
  | created made =>
    have keeps := keeps_created valid made
    exact ⟨keeps.home, keeps.tidy⟩
  | written c => exact ⟨rfl, fun tidy => tidy.setBytes _ _⟩
  | finished c _ => exact ⟨rfl, fun tidy => tidy⟩
  | published renamed =>
    obtain ⟨-, -, -, -, others⟩ := published_renamed valid renamed
    exact ⟨others.home, others.tidy⟩
  | failed fails =>
    have keeps := fails.cleans.keeps valid
    exact ⟨keeps.home, keeps.tidy⟩
  | rested => exact ⟨rfl, fun tidy => tidy⟩

theorem Moves.look {path : String} (h : u.Moves d a a' d') (there : d.look path = .ok (.file id))
    (unhidden : d.place path ≠ d.place u.partialFile)
    (unpublished : d.place path ≠ d.place u.destination) : d'.look path = .ok (.file id) := by
  obtain ⟨p, hr, ho⟩ := Disk.look_eq.mp there
  obtain rfl := (Disk.place_of_resolve hr).symm
  have keeps : d.KeepsDirectories d' := fun q hq => h.stays hq (.inl rfl)
  apply Disk.look_eq.mpr
  exact ⟨_, keeps.resolve (h.preserves valid).1 hr, h.stays ho (.inr ⟨unhidden, unpublished⟩)⟩

theorem created_ne (tidy : d.Tidy u.store.dir) (made : d.create u.partialFile = .ok (t, d'))
    (there : d.occupant? q = some (.file id)) (unhidden : q ≠ d.place u.partialFile) :
    t ≠ id ∧ d'.bytes id = d.bytes id := by
  obtain ⟨-, ⟨here, rfl⟩ | ⟨-, rfl, rfl⟩⟩ := Disk.create_eq_ok made
  · have ne : t ≠ id := by
      intro same
      subst same
      rw [place_partialFile valid] at here unhidden
      exact unhidden (tidy.single _ q t here there)
    rw [Disk.bytes_setBytes, if_neg ne.symm]
    exact ⟨ne, rfl⟩
  · have older := tidy.given q id there
    rw [Disk.bytes_addFile, if_neg (Nat.ne_of_lt older)]
    exact ⟨Nat.ne_of_gt older, rfl⟩

theorem Moves.bytes (h : u.Moves d a a' d') (tidy : d.Tidy u.store.dir)
    (there : d.occupant? q = some (.file id)) (unhidden : q ≠ d.place u.partialFile)
    (apart : a.Avoids id) : d'.bytes id = d.bytes id ∧ a'.Avoids id := by
  have spared : ∀ {d'}, Cleans u d d' → d'.bytes id = d.bytes id := by
    intro d' cleans
    cases cleans with
    | spared spares => rw [Disk.bytes, spares.contents, Disk.bytes]
    | removed => rw [Disk.bytes, (d.files_removeFileIfAny u.partialFile).2.1, Disk.bytes]
  cases h with
  | readied _ => exact ⟨spared (.spared .directories), trivial⟩
  | opened _ => exact ⟨rfl, trivial⟩
  | created made =>
    obtain ⟨ne, same⟩ := created_ne valid tidy made there unhidden
    exact ⟨same, ne⟩
  | written c =>
    refine ⟨?_, apart⟩
    rw [Disk.writeAt, Disk.bytes_setBytes, if_neg (Ne.symm apart)]
  | finished c _ => exact ⟨rfl, trivial⟩
  | published renamed =>
    obtain ⟨-, -, t, -, rfl⟩ := Disk.renameFile_eq_ok renamed
    exact ⟨d.bytes_moveFile _ _ _ _, trivial⟩
  | failed fails => exact ⟨spared fails.cleans, trivial⟩
  | rested => exact ⟨rfl, trivial⟩

end

end Upload

def UploadStage.Reads (id : FileId) (content : Bytes) : UploadStage → Prop
  | .opened source => source = .file id
  | .copying source _ seen => source = .file id ∧ seen <+: content
  | .copied seen => seen = content
  | .requested | .ready | .ended _ => True

theorem Upload.Moves.reads {u : Upload} {d d' : Disk} {a a' : UploadStage} {id : FileId}
    (h : u.Moves d a a' d') (there : d.look u.path = .ok (.file id))
    (reads : a.Reads id (d.bytes id)) : a'.Reads id (d.bytes id) := by
  cases h with
  | readied _ => trivial
  | opened look =>
    rw [there] at look
    cases look
    rfl
  | created _ => exact ⟨reads, List.nil_prefix⟩
  | written c =>
    obtain ⟨same, sofar⟩ := reads
    cases same
    exact ⟨rfl, prefix_piece c sofar⟩
  | finished c none =>
    obtain ⟨same, sofar⟩ := reads
    cases same
    exact eq_of_piece_nil sofar none
  | published _ => trivial
  | failed _ => trivial
  | rested => trivial

end Montage
