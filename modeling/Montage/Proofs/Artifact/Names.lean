import Mathlib.Data.List.TakeWhile
import Montage.Proofs.Artifact.Uploading
import Montage.Proofs.Text.Percent

/-!
# Names, files and links

Every name that an artifact may have stands for a file of its own in the store, for a hidden file
of its own beside it, and for a link of its own, from which the name can be read.
-/

namespace Montage

/-! ## Files -/

namespace ArtifactName

variable {name other : String}

theorem hidden_inj (h : hidden name = hidden other) : name = other := by
  have same := congrArg String.toList h
  rw [toList_hidden, toList_hidden] at same
  exact String.toList_injective (List.append_cancel_right (List.cons.inj same).2)

structure Apart (d : Disk) (dir name other : String) : Prop where
  child : d.place (destination dir name) = d.place dir ++ [name]
  hiddenChild : d.place (partialFile dir name) = d.place dir ++ [hidden name]
  hiddenApart : d.place (partialFile dir name) ≠ d.place (destination dir other)
  files : name ≠ other → d.place (destination dir name) ≠ d.place (destination dir other)
  hiddenFiles : name ≠ other → d.place (partialFile dir name) ≠ d.place (partialFile dir other)

theorem apart_of_isValid (valid : isValid name) (also : isValid other) (d : Disk) (dir : String) :
    Apart d dir name other := by
  have file := place_destination valid dir d
  have part := place_partialFile valid dir d
  have otherFile := place_destination also dir d
  have otherPart := place_partialFile also dir d
  refine ⟨file, part, ?_, ?_, ?_⟩
  · rw [part, otherFile]
    intro same
    have names : hidden name = other := by simpa using same
    exact ne_hidden also name names.symm
  · rw [file, otherFile]
    intro ne same
    apply ne
    simpa using same
  · rw [part, otherPart]
    intro ne same
    apply ne
    apply hidden_inj
    simpa using same

/-! ## Links -/

theorem trimSlashes_spec (base : String) : ∃ slashes,
    base = trimSlashes base ++ String.ofList (List.replicate slashes '/') ∧
      (trimSlashes base).toList.getLast? ≠ some '/' := by
  have split := List.takeWhile_append_dropWhile (p := (· = '/')) (l := base.toList.reverse)
  have back := List.eq_replicate_of_mem (a := '/') (l := base.toList.reverse.takeWhile (· = '/'))
    fun c hc => by simpa using List.mem_takeWhile_imp hc
  have kept : (trimSlashes base).toList = (base.toList.reverse.dropWhile (· = '/')).reverse := by
    rw [trimSlashes, String.toList_ofList]
  refine ⟨(base.toList.reverse.takeWhile (· = '/')).length, ?_, ?_⟩
  · apply String.toList_injective
    rw [String.toList_append, kept, String.toList_ofList, ← List.reverse_replicate, ← back,
      ← List.reverse_append, split, List.reverse_reverse]
  · rw [kept, List.getLast?_reverse]
    intro slash
    have ends := List.head?_dropWhile_not (· = '/') base.toList.reverse
    rw [slash] at ends
    simp at ends

/-- A link that leads to a name below a base: the base without the slashes at its end, one slash, and a
segment that is read as the name. -/
inductive LeadsTo (base name : String) : String → Prop
  | intro {front segment : String} {slashes : Nat} :
    base = front ++ String.ofList (List.replicate slashes '/') →
    front.toList.getLast? ≠ some '/' → Text.IsSegment segment.toList →
    Text.percentDecode segment = .ok name → LeadsTo base name (front ++ "/" ++ segment)

theorem leadsTo_url (base name : String) : LeadsTo base name (url base name) := by
  obtain ⟨slashes, whole, ends⟩ := trimSlashes_spec base
  refine .intro whole ends ?_ (Text.percentDecode_percentEncode name)
  rw [Text.percentEncode, String.toList_ofList]
  exact Text.isSegment_octets _

theorem url_inj {base : String} (h : url base name = url base other) : name = other := by
  have same := congrArg String.toList h
  simp only [url, String.toList_append] at same
  exact Text.percentEncode_inj (String.toList_injective (List.append_cancel_left same))

/-- **Each name has its own** files and its own link, and can be read from the link. -/
theorem told_by_name (valid : isValid name) (also : isValid other) (d : Disk) (dir base : String) :
    Apart d dir name other ∧ (url base name = url base other → name = other) ∧
      ∀ any, LeadsTo base any (url base any) :=
  ⟨apart_of_isValid valid also d dir, url_inj, leadsTo_url base⟩

/-- Two names that are alike but for a blank and its code. -/
theorem told_by_name_blank :
    isValid "a b.mp4" ∧ isValid "a%20b.mp4" ∧
      Apart {} "store" "a b.mp4" "a%20b.mp4" ∧
        (url "http://cdn//" "a b.mp4" = url "http://cdn//" "a%20b.mp4" → "a b.mp4" = "a%20b.mp4") ∧
          ∀ any, LeadsTo "http://cdn//" any (url "http://cdn//" any) := by
  have first : isValid "a b.mp4" := by decide
  have second : isValid "a%20b.mp4" := by decide
  exact ⟨first, second, told_by_name first second {} "store" "http://cdn//"⟩

end ArtifactName

end Montage
