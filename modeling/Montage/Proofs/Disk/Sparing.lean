import Montage.Proofs.Disk.Changes

/-!
# Keeping to one directory

Whoever is given a directory of its own below a root may do there as it likes. It
spares the root when every other name in it stays or stays away, and no file takes
the place of that directory. Sparing goes on from one disk to the next, and in the
end the directory can be removed as if it had never been.
-/

namespace Montage.Disk

open Montage.Path (Below IsName)

variable {d d' d'' : Disk} {root job path file : String}

/-- Below a root that is there, nothing but what has the name `job` came or went. -/
structure Spared (root job : String) (d d' : Disk) : Prop where
  home : d'.home = d.home
  there : d'.isDirectory root
  others : ∀ name, name ≠ job → (d'.Holds root name ↔ d.Holds root name)
  noFile : d'.isFile (Path.join root job) → d.isFile (Path.join root job)

def Spares (root job : String) (d d' : Disk) : Prop := d.isDirectory root → d.Spared root job d'

theorem Spares.refl (root job : String) (d : Disk) : d.Spares root job d :=
  fun there => ⟨rfl, there, fun _ _ => Iff.rfl, id⟩

theorem Spares.trans (h : d.Spares root job d') (k : d'.Spares root job d'') :
    d.Spares root job d'' := by
  intro there
  have first := h there
  have second := k first.there
  exact ⟨second.home.trans first.home, second.there,
    fun name ne => (second.others name ne).trans (first.others name ne),
    fun file => first.noFile (second.noFile file)⟩

theorem spares_of_occupants (hjob : IsName job) (home : d'.home = d.home)
    (keeps : d.KeepsDirectories d')
    (others : ∀ name, name ≠ job →
      d'.occupant? (d.place root ++ [name]) = d.occupant? (d.place root ++ [name]))
    (noFile : ∀ id, d'.occupant? (d.place root ++ [job]) = some (.file id) →
      d.occupant? (d.place root ++ [job]) = some (.file id)) : d.Spares root job d' := by
  intro there
  obtain ⟨fine, reached⟩ := isDirectory_iff_reached.mp there
  have reached' := reached.keep home keeps
  have there' : d'.isDirectory root := isDirectory_iff_reached.mpr ⟨fine, reached'⟩
  have same := place_congr home root
  refine ⟨home, there', fun name ne => ?_, fun hf => ?_⟩
  · rw [holds_iff, holds_iff, same, others name ne]
    exact and_congr_left fun _ => iff_of_true there' there
  · have below := Path.below_join root hjob.noSlash
    obtain ⟨p, id, hr, ho⟩ := isFile_iff.mp hf
    -- the path of the directory leads to the same place on both disks
    rw [resolve_below below hjob reached', same, ← resolve_below below hjob reached] at hr
    have here : p = d.place root ++ [job] := (place_of_resolve hr).trans (place_below below hjob)
    rw [here] at ho
    exact isFile_iff.mpr ⟨p, id, hr, by rw [here]; exact noFile id ho⟩

/-! ## What a job does itself -/

theorem createDirectories_below (below : Below path root job) (hjob : IsName job)
    (reached : d.Reached root) : d.createDirectories path = d.ensureDirectory path := by
  have ne := below.ne_empty hjob.step
  apply createDirectories_eq ne
  have := nameFault?_ne_notFound job ne
  rw [resolve_below below hjob reached]
  cases hf : nameFault? path job with
  | none => simp
  | some e => simpa [hf] using this

theorem createDirectories_spares (below : Below path root job) (hjob : IsName job) :
    d.Spares root job (d.createDirectories path).2 := by
  intro there
  rw [createDirectories_below below hjob (isDirectory_iff_reached.mp there).2]
  rcases d.ensureDirectory_cases path with ⟨e, -, h⟩ | ⟨-, h⟩ | ⟨p, hr, free, h⟩
  · rw [h]
    exact Spares.refl root job d there
  · rw [h]
    exact Spares.refl root job d there
  · obtain rfl : p = d.place root ++ [job] := (place_of_resolve hr).trans (place_below below hjob)
    rw [h]
    have put : ∀ q, (d.put (d.place root ++ [job]) .directory).occupant? q =
        if q = d.place root ++ [job] then some .directory else d.occupant? q :=
      fun q => d.occupant?_put _ q (by simp)
    apply spares_of_occupants hjob (show (d.put _ _).home = d.home from rfl)
      (keepsDirectories_put free _) _ _ there
    · intro name ne
      rw [put, if_neg (by simpa using ne)]
    · intro id hid
      rw [put, if_pos rfl] at hid
      cases hid

/-! ## What happens in its directory -/

theorem write_changes {content : Bytes} (h : d.write path content = .ok d') :
    ∃ p, d.resolve path = .ok p ∧ d'.home = d.home ∧ d.occupant? p ≠ some .directory ∧
      ∀ q, q ≠ p → d'.occupant? q = d.occupant? q := by
  rw [write, create] at h
  cases hr : d.resolve path with
  | error e =>
    rw [hr] at h
    cases h
  | ok p =>
    simp only [hr, bind, Except.bind] at h
    cases ho : d.occupant? p with
    | none =>
      have ne : p ≠ [] := by
        rintro rfl
        cases ho
      simp only [ho] at h
      cases h
      exact ⟨p, rfl, rfl, by simp [ho], fun q other => (d.occupant?_put _ q ne).trans (if_neg other)⟩
    | some entry =>
      cases entry with
      | directory =>
        simp only [ho] at h
        cases h
      | file id =>
        -- only content changes, and not what stands where
        simp only [ho] at h
        cases h
        exact ⟨p, rfl, rfl, by simp [ho], fun q _ => rfl⟩

/-- A change at a place in its directory where no directory stands spares the root. -/
theorem spares_of_inside (hjob : IsName job) (home : d'.home = d.home)
    (noDirectory : d.occupant? (d.place root ++ [job] ++ [file]) ≠ some .directory)
    (same : ∀ q, q ≠ d.place root ++ [job] ++ [file] → d'.occupant? q = d.occupant? q) :
    d.Spares root job d' := by
  -- the place lies deeper than those in the root
  have deeper : ∀ name, d.place root ++ [name] ≠ d.place root ++ [job] ++ [file] := by
    intro name h
    have := congrArg List.length h
    simp at this
  apply spares_of_occupants hjob home
  · intro q hq
    rw [same q]
    · exact hq
    · rintro rfl
      exact noDirectory hq
  · exact fun name _ => same _ (deeper name)
  · intro id hid
    rwa [same _ (deeper job)] at hid

section
variable (hjob : IsName job) (inside : d.place path = d.place root ++ [job] ++ [file])
include hjob inside

theorem removeFileIfAny_spares : d.Spares root job (d.removeFileIfAny path) := by
  rcases d.removeFileIfAny_cases path with ⟨same, -⟩ | ⟨p, id, hr, hf, gone⟩
  · rw [same]
    exact Spares.refl root job d
  · obtain rfl : p = d.place root ++ [job] ++ [file] := (place_of_resolve hr).trans inside
    rw [gone]
    apply spares_of_inside hjob (show (d.clear _).home = d.home from rfl)
    · rw [hf]
      simp
    · intro q ne
      rw [d.occupant?_clear q (by simp), if_neg ne]

theorem write_spares {content : Bytes} (h : d.write path content = .ok d') :
    d.Spares root job d' := by
  obtain ⟨p, hr, home, noDirectory, same⟩ := write_changes h
  obtain rfl : p = d.place root ++ [job] ++ [file] := (place_of_resolve hr).trans inside
  exact spares_of_inside hjob home noDirectory same

end

end Montage.Disk
