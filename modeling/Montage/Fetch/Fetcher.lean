import Montage.Compose.Error
import Montage.Disk.Change

/-!
# Fetchers

A fetcher saves what a link leads to.
-/

namespace Montage

structure Fetcher (σ : Type) where
  name : String
  /-- Saves the content of a link to a path and gives the path of the file. -/
  save : String → String → σ → Disk → Except FetchError String × σ × Disk

end Montage
