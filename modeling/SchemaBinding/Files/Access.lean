import SchemaBinding.Files.Fault
import SchemaBinding.Files.Path

/-!
# Access to files and output

The commands reach files and the output through two classes, so what they do
is said once: it runs on the machine, and it runs on a file tree that is a
value, where every step can be reasoned about.  How directories are made along
a path is said here too, in terms of single directories.
-/

namespace SchemaBinding

open Files (Fault)

class FileAccess (m : Type → Type) where
  isPresent : Path → m Bool
  readText : Path → m (Except Fault String)
  writeText : Path → String → m (Except Fault Unit)
  makeDirectory : Path → m (Except Fault Unit)
  isDirectory : Path → m Bool
  watch : Path → m (Except Fault Unit)

class Output (m : Type → Type) where
  print : String → m Unit

namespace Files

variable {m : Type → Type} [Monad m] [FileAccess m]

/-- What a failed attempt to make a directory comes to: nothing is lost where there is one. -/
def unlessDirectory (path : Path) (fault : Fault) : m (Except Fault Unit) := do
  return if ← FileAccess.isDirectory path then .ok () else .error fault

/-- Makes the first of a list of paths, each the parent of the one before it.  Where its
parent is not there, that is made first.  What was made stays when a later step fails. -/
def makeFirst : List Path → m (Except Fault Unit)
  | [] => return .error (.other "failed to create whole tree")
  | path :: parents =>
    if path.text = "" then return .ok ()
    else do
      match ← FileAccess.makeDirectory path with
      | .ok () => return .ok ()
      | .error .notFound =>
        match ← makeFirst parents with
        | .error fault => return .error fault
        | .ok () =>
          match ← FileAccess.makeDirectory path with
          | .ok () => return .ok ()
          | .error fault => unlessDirectory path fault
      | .error fault => unlessDirectory path fault

def makeDirectories (path : Path) : m (Except Fault Unit) :=
  makeFirst path.ancestors

end Files

end SchemaBinding
