import Montage.Proofs.Artifact.Uploading
import Montage.Proofs.Disk.Paths
import Montage.Proofs.Text.Percent

/-!
# Addresses

A link holds a name in an encoding of its own. A name of plain characters stands in the link
of its artifact as it is, behind the last slash.
-/

namespace Montage

/-! ## Links -/

namespace ArtifactName

theorem split_url {name : String} (base : String) (plain : ∀ c ∈ name.toList, Text.isPlain c) :
    Path.split '/' (url base name) = Path.split '/' (trimSlashes base) ++ [name] := by
  have noSlash : '/' ∉ name.toList := fun slash => absurd (plain _ slash) (by decide)
  rw [url, Text.percentEncode_eq_self plain, Path.split_append_slash, Path.split_of_noSlash noSlash]

end ArtifactName

end Montage
