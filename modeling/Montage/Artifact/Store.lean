import Montage.Compose.Error
import Montage.Disk.Change

/-!
# Artifact stores

An artifact store publishes a file under a name and says where it is then found.
-/

namespace Montage

structure StoredArtifact where
  url : String
  sizeBytes : Nat
  /-- A hash of the content, if the store computes one. -/
  checksum : Option String
  deriving DecidableEq, Repr

structure ArtifactStore (σ : Type) where
  name : String
  /-- Publishes the file at a path under a name. -/
  upload : String → String → σ → Disk → Except ArtifactError StoredArtifact × σ × Disk

end Montage
