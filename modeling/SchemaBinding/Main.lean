import SchemaBinding.Command.Run

/-!
# The command line

The program on the machine: its files are those of the machine, its output is
the standard output, and failures go to the standard error.  A schema that is
watched is looked at twice a second.
-/

namespace SchemaBinding

open Files (Fault)

/-- The fault that an error of the machine is; some of its codes come negated. -/
def faultOf : IO.Error → Fault
  | .noFileOrDirectory .. => .notFound
  | .alreadyExists .. => .alreadyThere
  | .inappropriateType _ code _ =>
    if code = 21 ∨ code = 0 - 21 then .isDirectory else .notDirectory
  | error@(.invalidArgument _ code _) =>
    if code = 36 ∨ code = 0 - 36 then .nameTooLong else .other (toString error)
  | error => .other (toString error)

def attempt {α : Type} (action : IO α) : IO (Except Fault α) := do
  match ← action.toBaseIO with
  | .ok value => return .ok value
  | .error error => return .error (faultOf error)

/-- The result of an action on a path, which is not tried where no name can be as the path asks. -/
def attemptAt {α : Type} (path : Path) (action : IO α) : IO (Except Fault α) :=
  if path.hasNul then return .error .invalidName else attempt action

/-- The text of a file, if its bytes are one. -/
def textOf (bytes : ByteArray) : Except Fault String :=
  match String.fromUTF8? bytes with
  | some text => .ok text
  | none => .error .notText

instance : FileAccess IO where
  isPresent path := return (← attemptAt path (IO.FS.realPath path.text)).isOk
  readText path := return (← attemptAt path (IO.FS.readBinFile path.text)) >>= textOf
  writeText path text := attemptAt path (IO.FS.writeBinFile path.text text.toUTF8)
  makeDirectory path := attemptAt path (IO.FS.createDir path.text)
  isDirectory path := do
    match ← attemptAt path (IO.FS.realPath path.text) with
    | .ok there => there.isDir
    | .error _ => return false
  watch path := attemptAt path (discard (IO.FS.realPath path.text))

instance : Output IO where
  print text := do
    let output ← IO.getStdout
    output.putStr text
    output.flush

/-- Whether a variable is set to something else than zero; nothing where it is not set. -/
def isOn? (name : String) : IO (Option Bool) := do
  return (← IO.getEnv name).map (· != "0")

/-- Whether the output is styled: the environment decides, then the terminal. -/
def isStyled : IO Bool := do
  if (← isOn? "CLICOLOR_FORCE") = some true then return true
  else if (← isOn? "NO_COLOR").isSome then return false
  else if (← isOn? "CLICOLOR") = some false then return false
  else (← IO.getStdout).isTty

def finish (styled : Bool) : Except Failure Unit → IO UInt32
  | .ok () => return 0
  | .error failure => do
    IO.eprintln (Command.failureLine styled failure)
    return failure.exitCode.toUInt32

/-- The bytes of a file; nothing where it cannot be read. -/
def bytesAt? (path : Path) : IO (Option (Array UInt8)) := do
  return (← attemptAt path (IO.FS.readBinFile path.text)).toOption.map ByteArray.data

/-- Looks at a schema again and again, and answers each change. -/
partial def follow (styled preview : Bool) (settings : Settings) (last : Option (Array UInt8)) :
    ExceptT Failure IO Unit := do
  IO.sleep 500
  let now ← bytesAt? settings.schema
  if now = last then
    follow styled preview settings last
  else
    Command.respond styled preview settings now.isSome
    follow styled preview settings now

def runToEnd (styled : Bool) (command : Command) : ExceptT Failure IO Unit := do
  match ← command.run styled with
  | .nothing => return
  | .watching settings preview =>
    follow styled preview settings (← bytesAt? settings.schema)

def runArguments (arguments : List String) : IO UInt32 := do
  let styled ← isStyled
  match Command.ofArguments arguments with
  | .ok command => finish styled (← (runToEnd styled command).run)
  | .error .version => IO.println Command.versionLine; return 0
  | .error .help => IO.println Command.usageLine; return 0
  | .error .refused => IO.eprintln ("error: " ++ Command.usageLine); return 2

end SchemaBinding

def main (arguments : List String) : IO UInt32 :=
  SchemaBinding.runArguments arguments
