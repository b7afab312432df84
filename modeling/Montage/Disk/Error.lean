/-!
# Failures of the file system

Why an operation on files could not be carried out, with the words the operating
system has for it.
-/

namespace Montage

inductive DiskError
  | notFound
  | permissionDenied
  | fileExists
  | notADirectory
  | isADirectory
  | notEmpty
  | nameTooLong
  /-- A name with a zero character, which no system call can take. -/
  | zeroInName
  /-- A copy that does not start from a regular file. -/
  | notARegularFile
  | other (text : String)
  deriving DecidableEq, Repr

namespace DiskError

def message : DiskError → String
  | notFound => "No such file or directory (os error 2)"
  | permissionDenied => "Permission denied (os error 13)"
  | fileExists => "File exists (os error 17)"
  | notADirectory => "Not a directory (os error 20)"
  | isADirectory => "Is a directory (os error 21)"
  | notEmpty => "Directory not empty (os error 39)"
  | nameTooLong => "File name too long (os error 36)"
  | zeroInName => "file name contained an unexpected NUL byte"
  | notARegularFile => "the source path is neither a regular file nor a symlink to a regular file"
  | other text => text

end DiskError

end Montage
