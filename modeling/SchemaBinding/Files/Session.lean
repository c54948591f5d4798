import SchemaBinding.Files.Access
import SchemaBinding.Files.Tree

/-!
# Sessions

A session is a file tree with what has been written to the output.  Programs
that run on sessions are functions: the same program from the same session
comes to the same end.
-/

namespace SchemaBinding.Files

/-- A file tree and what has been written to the output. -/
structure Session where
  tree : Tree := {}
  printed : String := ""
deriving Inhabited

abbrev SessionM := StateM Session

namespace Session

/-- Takes over a changed tree; where the change failed, the tree stays as it is. -/
def takeOver (session : Session) : Except Fault Tree → Except Fault Unit × Session
  | .ok tree => (.ok (), { session with tree })
  | .error fault => (.error fault, session)

end Session

instance : FileAccess SessionM where
  isPresent path := fun session => (session.tree.isPresent path, session)
  readText path := fun session => (session.tree.readText path, session)
  writeText path text := fun session =>
    session.takeOver (session.tree.write path text.toUTF8)
  makeDirectory path := fun session => session.takeOver (session.tree.makeDirectory path)
  isDirectory path := fun session => (session.tree.isDirectory path, session)
  watch path := fun session => ((session.tree.locate path).map fun _ => (), session)

instance : Output SessionM where
  print text := fun session => ((), { session with printed := session.printed ++ text })

end SchemaBinding.Files
