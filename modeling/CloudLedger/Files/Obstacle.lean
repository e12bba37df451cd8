/-!
# Obstacles in the file system

What can stand in the way of reading, writing or renaming a file, worded as the operating system
words it.
-/

namespace CloudLedger.Files

/-- Why the file system refused an operation. -/
inductive Obstacle where
  /-- There is no such file or folder. -/
  | missing
  /-- A file stands where a folder is to be made. -/
  | occupied
  /-- A file stands where a folder is needed on the way. -/
  | notFolder
  /-- A folder stands where a file is needed. -/
  | isFolder
  /-- A name on the way, or the whole path, is too long. -/
  | tooLong
  /-- The path holds the character that ends a path for the operating system. -/
  | holdsNull
deriving DecidableEq

/-- The words of the operating system. -/
def Obstacle.message : Obstacle → String
  | .missing => "No such file or directory (os error 2)"
  | .occupied => "File exists (os error 17)"
  | .notFolder => "Not a directory (os error 20)"
  | .isFolder => "Is a directory (os error 21)"
  | .tooLong => "File name too long (os error 36)"
  | .holdsNull => "file name contained an unexpected NUL byte"

end CloudLedger.Files
