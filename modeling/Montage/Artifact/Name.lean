import Montage.Disk.Path
import Montage.Text.Percent

/-!
# Names of artifacts

The name of an artifact is one name in the store's directory and one segment of
its link. While a file is being copied it has a hidden name, and hidden names are
not allowed for artifacts, so that the two never meet.
-/

namespace Montage.ArtifactName

def isValid (name : String) : Bool :=
  let cs := name.toList
  !cs.isEmpty && cs.head? != some '.' && !cs.contains '/' && !cs.contains '\\'

def destination (dir name : String) : String := Path.join dir name

/-- The file that it is copied to at first. -/
def partialFile (dir name : String) : String := Path.join dir ("." ++ name ++ ".part")

def trimSlashes (url : String) : String :=
  String.ofList (url.toList.reverse.dropWhile (· = '/')).reverse

def url (base name : String) : String := trimSlashes base ++ "/" ++ Text.percentEncode name

end Montage.ArtifactName
