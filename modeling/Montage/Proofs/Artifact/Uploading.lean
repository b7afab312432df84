import Mathlib.Logic.Relation
import Montage.Artifact.Upload
import Montage.Proofs.Disk.Keeping

/-!
# How an upload goes

An upload goes on in steps, and the system may let any of them fail. Up to the last one
the published files are what they were, for what is copied goes to a hidden name, and no
artifact has a hidden name. With the last step the hidden file takes over the name of the
artifact, and what it holds is what the upload reports on.
-/

namespace Montage

open Montage.Path (IsName)

/-! ## Names -/

namespace ArtifactName

variable {name other : String}

theorem isValid_iff : isValid name ↔ name ≠ "" ∧ name.toList.head? ≠ some '.' ∧
    '/' ∉ name.toList ∧ '\\' ∉ name.toList := by
  simp [isValid, and_assoc]

theorem isName_of_isValid (valid : isValid name) : IsName name := by
  obtain ⟨nonempty, visible, noSlash, -⟩ := isValid_iff.mp valid
  refine ⟨noSlash, ?_, ?_⟩
  · have ne : name ≠ "." := by
      rintro rfl
      exact visible rfl
    simp [Path.isStep, nonempty, ne]
  · rintro rfl
    exact visible rfl

def hidden (name : String) : String := "." ++ name ++ ".part"

theorem toList_hidden (name : String) :
    (hidden name).toList = '.' :: (name.toList ++ ".part".toList) := by
  rw [hidden, String.toList_append, String.toList_append]
  rfl

theorem isName_hidden (valid : isValid name) : IsName (hidden name) := by
  obtain ⟨-, -, noSlash, -⟩ := isValid_iff.mp valid
  have long : 5 < (hidden name).toList.length := by
    simp [toList_hidden]
  have ne : ∀ short : String, short.toList.length ≤ 5 → hidden name ≠ short := by
    intro short hs same
    rw [same] at long
    omega
  refine ⟨by simp [toList_hidden, noSlash], ?_, ne ".." (by decide)⟩
  simp [Path.isStep, ne "" (by decide), ne "." (by decide)]

section
variable (valid : isValid name)
include valid

theorem place_destination (dir : String) (d : Disk) :
    d.place (destination dir name) = d.place dir ++ [name] := by
  have named := isName_of_isValid valid
  exact Disk.place_below (Path.below_join dir named.noSlash) named

theorem place_partialFile (dir : String) (d : Disk) :
    d.place (partialFile dir name) = d.place dir ++ [hidden name] := by
  have named := isName_hidden valid
  exact Disk.place_below (Path.below_join dir named.noSlash) named

end

theorem ne_hidden (valid : isValid other) (name : String) : other ≠ hidden name := by
  rintro rfl
  obtain ⟨-, visible, -⟩ := isValid_iff.mp valid
  exact visible (by rw [toList_hidden]; rfl)

end ArtifactName

/-! ## What is published -/

abbrev FileStore.Keeps (f : FileStore) (d d' : Disk) : Prop :=
  d.Preserves f.dir (fun name => ArtifactName.isValid name) d'

namespace Upload

variable {u : Upload} {d₀ d d' : Disk} {stage : UploadStage}

theorem isName_valid : ∀ name, ArtifactName.isValid name → IsName name :=
  fun _ => ArtifactName.isName_of_isValid

theorem place_partialFile (valid : ArtifactName.isValid u.name) (d : Disk) :
    d.place u.partialFile = d.place u.store.dir ++ [ArtifactName.hidden u.name] :=
  ArtifactName.place_partialFile valid u.store.dir d

theorem partialFile_ne (valid : ArtifactName.isValid u.name) (d : Disk) (name : String)
    (h : ArtifactName.isValid name) : d.place u.partialFile ≠ d.place u.store.dir ++ [name] := by
  rw [place_partialFile valid]
  intro same
  have last : ArtifactName.hidden u.name = name := by simpa using same
  exact ArtifactName.ne_hidden h u.name last.symm

inductive Ends (u : Upload) (d d' : Disk) : Except ArtifactError StoredArtifact → Prop
  | failed (e : ArtifactError) (keeps : u.store.Keeps d d') : Ends u d d' (.error e)
  | published (content : Bytes) (valid : ArtifactName.isValid u.name)
    (others : d.Preserves u.store.dir (fun name => ArtifactName.isValid name ∧ name ≠ u.name) d')
    (here : d'.read u.destination = .ok content) : Ends u d d' (.ok (u.stored content))

namespace Ends

variable {r : Except ArtifactError StoredArtifact} {stored : StoredArtifact}

theorem home (h : u.Ends d d' r) : d'.home = d.home := by
  cases h with
  | failed _ keeps => exact keeps.home
  | published _ _ others _ => exact others.home

theorem of_ok (h : u.Ends d d' (.ok stored)) : ArtifactName.isValid u.name ∧
    d.Preserves u.store.dir (fun name => ArtifactName.isValid name ∧ name ≠ u.name) d' ∧
      ∃ content, stored = u.stored content ∧ d'.read u.destination = .ok content := by
  generalize hr : Except.ok stored = r at h
  cases h with
  | failed e _ => cases hr
  | published content valid others here =>
    exact ⟨valid, others, content, Except.ok.inj hr, here⟩

end Ends

structure Holds (u : Upload) (target : FileId) (seen : Bytes) (d : Disk) : Prop where
  there : d.occupant? (d.place u.partialFile) = some (.file target)
  bytes : d.bytes target = seen

inductive Progress (u : Upload) (d₀ : Disk) : UploadStage → Disk → Prop
  | requested : Progress u d₀ .requested d₀
  | ready {d : Disk} (valid : ArtifactName.isValid u.name) (keeps : u.store.Keeps d₀ d) :
    Progress u d₀ .ready d
  | opened {d : Disk} (source : Entry) (valid : ArtifactName.isValid u.name)
    (keeps : u.store.Keeps d₀ d) : Progress u d₀ (.opened source) d
  | copying {d : Disk} {target : FileId} {seen : Bytes} (source : Entry)
    (valid : ArtifactName.isValid u.name) (keeps : u.store.Keeps d₀ d)
    (holds : u.Holds target seen d) : Progress u d₀ (.copying source target seen) d
  | copied {d : Disk} {target : FileId} {seen : Bytes} (valid : ArtifactName.isValid u.name)
    (keeps : u.store.Keeps d₀ d) (holds : u.Holds target seen d) : Progress u d₀ (.copied seen) d
  | ended {d : Disk} {r : Except ArtifactError StoredArtifact} (ends : u.Ends d₀ d r) :
    Progress u d₀ (.ended r) d

/-! ## Steps -/

theorem progress_fail (e : ArtifactError) (keeps : u.store.Keeps d₀ d) :
    u.Progress d₀ (fail e) d := .ended (.failed e keeps)

theorem keeps_removePartial (valid : ArtifactName.isValid u.name) (keeps : u.store.Keeps d₀ d) :
    u.store.Keeps d₀ (d.removeFileIfAny u.partialFile) :=
  keeps.trans (Disk.preserves_removeFileIfAny isName_valid (partialFile_ne valid d))

theorem progress_abandon (valid : ArtifactName.isValid u.name) (keeps : u.store.Keeps d₀ d)
    (e : DiskError) : u.Progress d₀ (u.abandon e d).1 (u.abandon e d).2 :=
  progress_fail _ (keeps_removePartial valid keeps)

theorem attempt_eq_ok {α : Type} {c : Chance} {r : Except DiskError α} {a : α}
    (h : attempt c r = .ok a) : r = .ok a := by
  rw [attempt] at h
  split at h
  · cases h
  · exact h

theorem patch_end (seen next : Bytes) : Disk.patch seen seen.length next = seen ++ next := by
  simp [Disk.patch]

theorem Holds.writeAt {target : FileId} {seen : Bytes} (h : u.Holds target seen d) (next : Bytes) :
    u.Holds target (seen ++ next) (d.writeAt target seen.length next) := by
  refine ⟨h.there, ?_⟩
  rw [Disk.writeAt, Disk.bytes_setBytes, if_pos rfl, h.bytes, patch_end]

/-- **One step** of an upload. -/
theorem Progress.step (h : u.Progress d₀ stage d) (c : Chance) :
    u.Progress d₀ (u.step c stage d).1 (u.step c stage d).2 := by
  cases h with
  | requested =>
    simp only [Upload.step]
    by_cases valid : ArtifactName.isValid u.name
    · simp only [valid]
      have made : u.store.Keeps d₀ (d₀.createDirectories u.store.dir).2 :=
        Disk.preserves_createDirectories isName_valid u.store.dir
      rcases hd : d₀.createDirectories u.store.dir with ⟨e | _, d'⟩
      all_goals rw [hd] at made
      · cases c.fault with
        | some e => exact progress_fail _ (.refl d₀)
        | none => exact progress_fail _ made
      · cases c.fault with
        | some e => exact progress_fail _ (.refl d₀)
        | none => exact .ready valid made
    · simp only [valid]
      exact progress_fail _ (.refl d₀)
  | ready valid keeps =>
    simp only [Upload.step]
    split
    · exact .opened _ valid keeps
    · exact progress_fail _ (keeps_removePartial valid keeps)
    · exact progress_abandon valid keeps _
  | opened source valid keeps =>
    simp only [Upload.step]
    split
    · rename_i target d' made
      have created := attempt_eq_ok made
      have after := Disk.preserves_create isName_valid (partialFile_ne valid d) created
      obtain ⟨there, empty⟩ := Disk.opened_create created
      refine .copying source valid (keeps.trans after) ⟨?_, empty⟩
      rw [Disk.place_congr after.home]
      exact there
    · exact progress_abandon valid keeps _
  | @copying _ target seen source valid keeps holds =>
    cases hf : c.fault with
    | some e =>
      simp only [Upload.step, hf]
      exact progress_abandon valid keeps e
    | none =>
      cases source with
      | directory =>
        simp only [Upload.step, hf]
        exact progress_abandon valid keeps _
      | file id =>
        simp only [Upload.step, hf]
        split
        · exact .copied valid keeps holds
        · have written := Disk.preserves_setBytes isName_valid (partialFile_ne valid d) holds.there
            (Disk.patch (d.bytes target) seen.length (piece c (d.bytes id) seen))
          exact .copying _ valid (keeps.trans written) (holds.writeAt _)
  | copied valid keeps holds =>
    simp only [Upload.step]
    split
    · rename_i d' renamed
      have named := ArtifactName.isName_of_isValid valid
      obtain ⟨others, here⟩ := Disk.preserves_renameFile isName_valid (partialFile_ne valid d)
        (Path.below_join u.store.dir named.noSlash) named ⟨_, place_partialFile valid d⟩ holds.there
        (attempt_eq_ok renamed)
      rw [holds.bytes] at here
      exact .ended (.published _ valid ((keeps.mono fun _ => And.left).trans others) here)
    · exact progress_fail _ keeps
  | ended ends => exact .ended ends

/-! ## Runs -/

def Leads (u : Upload) (a b : UploadStage × Disk) : Prop := ∃ c, u.step c a.1 a.2 = b

/-- **A whole run**, in which any steps fail. -/
theorem progress_of_leads {a : UploadStage × Disk}
    (h : Relation.ReflTransGen u.Leads (.requested, d₀) a) : u.Progress d₀ a.1 a.2 := by
  induction h with
  | refl => exact .requested
  | tail _ leads ih =>
    obtain ⟨c, rfl⟩ := leads
    exact ih.step c

/-- The answer to an upload that got to a stage. One that was broken off has failed. -/
def Answers (stage : UploadStage) (r : Except ArtifactError StoredArtifact) : Prop :=
  stage = .ended r ∨ (∀ r', stage ≠ .ended r') ∧ ∃ e, r = .error e

theorem Progress.ends (h : u.Progress d₀ stage d) {r : Except ArtifactError StoredArtifact}
    (answers : Answers stage r) : u.Ends d₀ d r := by
  rcases answers with rfl | ⟨unended, e, rfl⟩
  · cases h with
    | ended ends => exact ends
  · cases h with
    | requested => exact .failed e (.refl _)
    | ready _ keeps => exact .failed e keeps
    | opened _ _ keeps => exact .failed e keeps
    | copying _ _ keeps _ => exact .failed e keeps
    | copied _ keeps _ => exact .failed e keeps
    | ended => exact absurd rfl (unended _)

theorem leads_steps (u : Upload) (c : Chance) (fuel : Nat) (stage : UploadStage) (d : Disk) :
    Relation.ReflTransGen u.Leads (stage, d) (u.steps c fuel stage d) := by
  induction fuel generalizing stage d with
  | zero => exact .refl
  | succ fuel ih =>
    have next : Relation.ReflTransGen u.Leads (stage, d)
        (u.steps c fuel (u.step c stage d).1 (u.step c stage d).2) :=
      .head ⟨c, rfl⟩ (ih _ _)
    cases stage with
    | ended r => exact .refl
    | requested => exact next
    | ready => exact next
    | opened source => exact next
    | copying source target seen => exact next
    | copied seen => exact next

end Upload

namespace FileStore

variable {σ : Type}

/-- A store in which every upload goes as those into the directory do, whatever steps fail. -/
def Carries (f : FileStore) (store : ArtifactStore σ) : Prop :=
  ∀ path name own d, ∃ stage,
    Relation.ReflTransGen (Upload.Leads ⟨f, path, name⟩) (.requested, d)
      (stage, (store.upload path name own d).2.2) ∧
    Upload.Answers stage (store.upload path name own d).1

theorem carries_store (f : FileStore) : f.Carries (f.store (σ := σ)) := by
  intro path name own d
  let u : Upload := ⟨f, path, name⟩
  have led := u.leads_steps ⟨Upload.bufferSize, none⟩ (Upload.stepBound d) .requested d
  simp only [store, Upload.run]
  rcases hs : u.steps ⟨Upload.bufferSize, none⟩ (Upload.stepBound d) .requested d with ⟨stage, d'⟩
  rw [hs] at led
  refine ⟨stage, ?_⟩
  cases stage with
  | ended r => exact ⟨led, .inl rfl⟩
  | _ => exact ⟨led, .inr ⟨fun _ => nofun, _, rfl⟩⟩

theorem Carries.ends {f : FileStore} {store : ArtifactStore σ} (h : f.Carries store)
    (path name : String) (own : σ) (d : Disk) :
    Upload.Ends ⟨f, path, name⟩ d (store.upload path name own d).2.2
      (store.upload path name own d).1 := by
  obtain ⟨stage, led, answers⟩ := h path name own d
  exact (Upload.progress_of_leads led).ends answers

end FileStore

end Montage
