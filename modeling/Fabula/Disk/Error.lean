import Fabula.Text.Basic

/-!
# Why the file system refuses an operation

Each cause has the wording and, where the system has one, the number under
which the system reports it.
-/

namespace Fabula

/-- **Why the file system refuses an operation.** -/
inductive DiskError where
  /-- A component of the path, or what it leads to, does not exist. -/
  | notFound
  /-- Something is there already. -/
  | exists
  /-- A component that should be a folder is none. -/
  | notFolder
  /-- What should be a file is a folder. -/
  | isFolder
  /-- What should have a name is the folder reached, or the one above it. -/
  | busy
  /-- A folder that should be empty is not. -/
  | notEmpty
  /-- Too many links were followed. -/
  | tooManyLinks
  /-- The bytes of the file are no text. -/
  | notText
deriving DecidableEq, Repr

namespace DiskError

/-- The message a user reads. -/
def message : DiskError → Text
  | notFound => "No such file or directory (os error 2)".toList
  | «exists» => "File exists (os error 17)".toList
  | notFolder => "Not a directory (os error 20)".toList
  | isFolder => "Is a directory (os error 21)".toList
  | busy => "Device or resource busy (os error 16)".toList
  | notEmpty => "Directory not empty (os error 39)".toList
  | tooManyLinks => "Too many levels of symbolic links (os error 40)".toList
  | notText => "stream did not contain valid UTF-8".toList

end DiskError

end Fabula
