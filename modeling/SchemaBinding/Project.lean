import SchemaBinding.Binding.Document
import SchemaBinding.Failure
import SchemaBinding.Files.Access
import SchemaBinding.Settings
import SchemaBinding.Toml.Reader

/-!
# Projects

A project is a set of settings with the files that they name.  Its schema is
read before its options are looked at, so of two faults the one of the schema
is told.
-/

namespace SchemaBinding

variable {m : Type → Type} [Monad m] [FileAccess m]

/-- The configuration that is read when none is asked for. -/
def usualConfiguration : Path := ⟨"graphql-bindgen.toml"⟩

/-- The result of an access, with its fault as a failure of the run. -/
def orFail {α : Type} (failure : Files.Fault → Failure) (access : m (Except Files.Fault α)) :
    ExceptT Failure m α := do
  match ← access with
  | .ok value => return value
  | .error fault => throw (failure fault)

namespace Settings

def ofText (text : String) : Except Toml.Fault Settings := do
  let entries ← Toml.read text
  match unusable? entries with
  | some written => throw (.unusable written)
  | none => ofEntries entries

def readFrom (path : Path) : ExceptT Failure m Settings := do
  let text ← orFail (.settings ∘ .unreadable path) (FileAccess.readText path)
  match ofText text with
  | .ok settings => return settings
  | .error fault => throw (.settings (.invalidDocument path fault.message))

/-- Loads the settings from the configuration that is asked for, which has to be there.
When none is asked for, the usual one is read if it is there. -/
def load (path? : Option Path) : ExceptT Failure m Settings := do
  let path := path?.getD usualConfiguration
  if ← (FileAccess.isPresent path : m Bool) then
    readFrom path
  else if path?.isSome then
    throw (.settings (.notFound path))
  else
    return {}

def options (settings : Settings) : Except Failure Binding.Options :=
  match settings.options? with
  | some options => .ok options
  | none => .error (.settings (.invalidValue "generator.declaration_order"
      ("expected \"kind\" or \"name\", found \"" ++ settings.order ++ "\"")))

end Settings

/-- Loads the schema of an introspection result in a file. -/
def loadSchema (path : Path) : ExceptT Failure m Schema := do
  let text ← orFail (.unreadableSchema path) (FileAccess.readText path)
  match Introspection.loadText text with
  | .ok schema => return schema
  | .error error => throw (.invalidSchema path error)

/-- A binding that is ready to be written. -/
structure Product where
  path : Path
  content : String
  typeCount : Nat
deriving DecidableEq, Repr

def Settings.product (settings : Settings) (schema : Schema) : Except Failure Product := do
  let options ← settings.options
  return {
    path := settings.output
    content := Binding.document options settings.paths schema
    typeCount := schema.types.size }

/-- Loads the schema that the settings name and makes its binding. -/
def Settings.generate (settings : Settings) : ExceptT Failure m Product := do
  let schema ← loadSchema settings.schema
  settings.product schema

inductive Delivery where
  | written (bytes : Nat)
  | unchanged
  | previewed
deriving DecidableEq, Repr

/-- Makes the directory that a file goes to, where it is missing. -/
def prepareDirectory (path : Path) : ExceptT Failure m Unit := do
  match path.parent? with
  | none => return
  | some parent =>
    if parent.text = "" then return
    else if ← (FileAccess.isPresent parent : m Bool) then return
    else orFail (.writing ∘ .directory parent) (Files.makeDirectories parent)

/-- Whether a file can be read and is a given text. -/
def holds (path : Path) (content : String) : m Bool := do
  match ← FileAccess.readText path with
  | .ok text => return text = content
  | .error _ => return false

/-- Writes a file unless it holds the content already or is to be shown only. -/
def deliver (preview : Bool) (path : Path) (content : String) :
    ExceptT Failure m Delivery := do
  if preview then return .previewed
  else if ← (holds path content : m Bool) then return .unchanged
  else
    prepareDirectory path
    orFail (.writing ∘ .file path) (FileAccess.writeText path content)
    return .written content.utf8ByteSize

end SchemaBinding
