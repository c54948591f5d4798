/-!
# Faults of file access

Why a path could not be read, written or made, with the words that the system
has for it.
-/

namespace SchemaBinding.Files

inductive Fault where
  | notFound
  | alreadyThere
  | notDirectory
  | isDirectory
  /-- A path holds a NUL character, which no name can. -/
  | invalidName
  /-- A path or a name in it has too many bytes. -/
  | nameTooLong
  | notText
  /-- Another reason, in the words of the system. -/
  | other (reason : String)
deriving DecidableEq, Repr, Inhabited

/-- A fault in words, with the number that the system gives it. -/
def Fault.message : Fault → String
  | .notFound => "No such file or directory (os error 2)"
  | .alreadyThere => "File exists (os error 17)"
  | .notDirectory => "Not a directory (os error 20)"
  | .isDirectory => "Is a directory (os error 21)"
  | .invalidName => "file name contained an unexpected NUL byte"
  | .nameTooLong => "File name too long (os error 36)"
  | .notText => "stream did not contain valid UTF-8"
  | .other reason => reason

end SchemaBinding.Files
