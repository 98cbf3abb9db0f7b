/-
  What can go wrong when a file, a stream or a child process is used, with the wording of the
  system.
-/
import KotlinHarness.Path

namespace KotlinHarness

/-- The cause of a failed operation on a file, a stream or a process. -/
inductive IoError where
  | notFound
  | permissionDenied
  | alreadyExists
  | notADirectory
  | isADirectory
  | nameTooLong
  /-- An executable file whose content is no program. -/
  | notAProgram
  /-- Text was asked for and the octets are not UTF-8. -/
  | notUtf8
  /-- A path holds the character NUL. -/
  | nulInPath
  /-- A child's argument or variable holds the character NUL. -/
  | nulInArgument
  /-- A stream took nothing of a non-empty write. -/
  | writeZero
  /-- A directory tree whose first existing ancestor cannot be found. -/
  | noAncestor
  /-- Any other cause, such as one raised by a caller's sink, in its own words. -/
  | other (text : String)
  deriving DecidableEq, Inhabited

namespace IoError

/-- The wording of a cause. -/
def message : IoError → String
  | notFound => "No such file or directory (os error 2)"
  | permissionDenied => "Permission denied (os error 13)"
  | alreadyExists => "File exists (os error 17)"
  | notADirectory => "Not a directory (os error 20)"
  | isADirectory => "Is a directory (os error 21)"
  | nameTooLong => "File name too long (os error 36)"
  | notAProgram => "Exec format error (os error 8)"
  | notUtf8 => "stream did not contain valid UTF-8"
  | nulInPath => "file name contained an unexpected NUL byte"
  | nulInArgument => "nul byte found in provided data"
  | writeZero => "failed to write whole buffer"
  | noAncestor => "failed to create whole tree"
  | other text => text

end IoError

/-- Why a file could not be read: directly, or while its directory was being listed. -/
inductive ReadError where
  | io (cause : IoError)
  | listing (path : Path) (cause : IoError)
  deriving DecidableEq, Inhabited

namespace ReadError

def message : ReadError → String
  | io cause => cause.message
  | listing path cause => "IO error for operation on " ++ path.text ++ ": " ++ cause.message

end ReadError

end KotlinHarness
