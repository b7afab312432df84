import Montage.Proofs.Compose.Conduct
import Montage.Rehearsal.Crew
import Montage.Rehearsal.Requests

/-!
# Jobs in rehearsal

The stand-ins of a rehearsal keep to the directory of the job, so that a rehearsal
leaves the root as a job has to leave it.
-/

namespace Montage.Rehearsal

open Composer (dirName targets)
open Montage.Path (IsName)

variable {root job path file : String} {d d' : Disk}

section
variable (hjob : IsName job) (inside : d.place path = d.place root ++ [job] ++ [file])
include hjob inside

theorem Downloads.save_spares (downloads : Downloads) (url : String) :
    d.Spares root job (downloads.save url path d).2.2 := by
  rw [Downloads.save]
  split
  · exact .refl root job d
  · exact .refl root job d
  · split
    · rename_i hw
      exact Disk.write_spares hjob inside hw
    · exact .refl root job d

theorem Transcoding.writeTo_spares (arguments : List String) (content : String) :
    d.Spares root job (Transcoding.writeTo (arguments ++ [path]) content d).2 := by
  rw [Transcoding.writeTo, List.getLast?_concat]
  dsimp only
  split
  · rename_i hw
    exact Disk.write_spares hjob inside hw
  · exact .refl root job d

theorem Transcoding.perform_spares (t : Transcoding) (arguments : List String) :
    d.Spares root job (t.perform (arguments ++ [path]) d).2.2 := by
  have wrote : ∀ content r d', Transcoding.writeTo (arguments ++ [path]) content d = (r, d') →
      d.Spares root job d' := by
    intro content r d' h
    have := Transcoding.writeTo_spares hjob inside arguments content
    rwa [h] at this
  rw [Transcoding.perform]
  split
  · dsimp only
    split
    · split <;> exact wrote _ _ _ ‹_›
    · exact .refl root job d
  · split
    · split <;> exact wrote _ _ _ ‹_›
    · exact .refl root job d

end

section
variable (render : RenderSettings) (records : RecordStore Crew) (root : String)

theorem Crew.disk_save (url path : String) (own : Crew) (d : Disk) :
    ((composer render records root).fetcher.save url path own d).2.2 =
      (own.downloads.save url path d).2.2 := rfl

theorem Crew.disk_run (arguments : List String) (watch : Option Watch) (own : Crew) (d : Disk) :
    ((composer render records root).engine.transcoder.run arguments watch own d).disk =
      (own.transcoding.perform arguments d).2.2 := rfl

theorem Crew.disk_upload (path name : String) (own : Crew) (d : Disk) :
    ((composer render records root).artifacts.upload path name own d).2.2 = d := rfl

end

/-- **The stand-ins are considerate.** -/
theorem Crew.composer_considerate (render : RenderSettings) (records : RecordStore Crew)
    {stamp : Stamp} {r : Request} (valid : r.validate = .ok ()) (plain : '/' ∉ stamp.suffix.toList) :
    (composer render records root).Considerate stamp r := by
  have named := Composer.isName_dirName valid plain
  have dir := Path.below_join root named.noSlash
  have inside : ∀ {file : String} (d : Disk), IsName file →
      d.place (Workspace.file ((composer render records root).dirOf stamp r) file) =
        d.place root ++ [dirName stamp r] ++ [file] := by
    intro file d hfile
    have below := Path.below_join (Path.join root (dirName stamp r)) hfile.noSlash
    rw [← Disk.place_below dir named, ← Disk.place_below below hfile]
    rfl
  constructor
  · intro t ht own d
    obtain ⟨⟨source, i⟩, mem, rfl⟩ := List.mem_map.mp ht
    have hfile := Source.isName_fileName (List.fst_mem_of_mem_zipIdx mem) i
    rw [disk_save]
    exact Downloads.save_spares named (inside d hfile) _ _
  · intro g watch own d
    have output : IsName "output.mp4" := ⟨by decide, by decide, by decide⟩
    rw [disk_run]
    exact Transcoding.perform_spares named (inside d output) _ _
  · intro name own d
    rw [disk_upload]
    exact .refl _ _ d

/-- A root that was empty is empty after a job, and so is one that was missing. -/
theorem Crew.root_empty_again :
    let c := composer {} recordStore "work"
    let after := fun disk => ((c.compose (stamp 1) (shortifyRequest "job-1" 15)).run ⟨{}, disk, [], 0⟩).2
    let empty : Disk := { entries := [(["work"], .directory)] }
    (after empty).disk.isDirectory "work" ∧
      (∀ name, (after empty).disk.Holds "work" name ↔ empty.Holds "work" name) ∧
      ∀ name, ¬ (after {}).disk.Holds "work" name := by
  intro c after empty
  have valid : (shortifyRequest "job-1" 15).validate = .ok () := by decide +kernel
  have plain : '/' ∉ (stamp 1).suffix.toList := by decide +kernel
  have considerate : c.Considerate (stamp 1) (shortifyRequest "job-1" 15) :=
    composer_considerate {} recordStore valid plain
  have nothing : ∀ name, ¬ empty.Holds "work" name := by
    rintro name ⟨names, listed, mem⟩
    have none : empty.list "work" = .ok [] := by decide +kernel
    cases none.symm.trans listed
    cases mem
  have sound : ({} : Disk).Sound := by
    intro p name there
    cases p <;> cases there
  have present := (c.conduct (stamp 1) (shortifyRequest "job-1" 15) ⟨{}, empty, [], 0⟩).clean valid plain
    considerate (by decide +kernel) (nothing _)
  have missing := (c.conduct (stamp 1) (shortifyRequest "job-1" 15) ⟨{}, {}, [], 0⟩).fresh valid plain
    considerate (by decide +kernel) sound (by decide +kernel)
  exact ⟨present.1, present.2, missing⟩

end Montage.Rehearsal
