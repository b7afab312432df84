import Montage.Disk.Change

/-!
# Workspaces

Every job has a directory of its own below a common root, named after the job and
a suffix that no other job has. It is removed with all that is in it when the job
ends.
-/

namespace Montage.Workspace

def path (root jobId suffix : String) : String := Path.join root (jobId ++ "-" ++ suffix)

def file (dir name : String) : String := Path.join dir name

/-- Makes the directory of a job, and the root if it is missing. -/
def create (disk : Disk) (dir : String) : Except DiskError Unit × Disk :=
  disk.createDirectories dir

/-- Removes the directory of a job. One that is gone already, or has been replaced by
something else, is left alone. -/
def remove (disk : Disk) (dir : String) : Disk := disk.removeAllIfAny dir

end Montage.Workspace
