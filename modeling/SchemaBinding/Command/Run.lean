import SchemaBinding.Command.Arguments
import SchemaBinding.Command.Style
import SchemaBinding.Text.Blank

/-!
# Running commands

What each command does to files and to the output.  A run ends at its first
failure; what it printed before that stays.  Watching is begun here, and what
remains to do then is handed back.
-/

namespace SchemaBinding.Command

inductive Remainder where
  | nothing
  /-- Write the binding again after every change of its schema. -/
  | watching (settings : Settings) (preview : Bool)
deriving DecidableEq, Repr

variable {m : Type → Type} [Monad m] [FileAccess m] [Output m]

def say (line : String) : ExceptT Failure m Unit :=
  ExceptT.lift (Output.print (line ++ "\n"))

/-- The settings of a run: the command line goes before the configuration. -/
def settingsOf (sources : Sources) : ExceptT Failure m Settings := do
  let settings ← Settings.load sources.config
  return settings.override sources.input sources.output

def ruler : String :=
  String.ofList (List.replicate 60 '─')

def deliveryLines (styled : Bool) (product : Product) : Delivery → List String
  | .written bytes =>
    [paint styled .green "✓" ++ " Written " ++ toString bytes ++ " bytes to " ++
      product.path.text]
  | .unchanged => [paint styled .green "✓" ++ " " ++ product.path.text ++ " is up-to-date"]
  | .previewed =>
    [paint styled .yellow "[dry-run]" ++ " Would write to " ++ product.path.text ++ ":",
      paint styled .dimmed ruler, product.content, paint styled .dimmed ruler]

def generateOnce (styled preview : Bool) (settings : Settings) : ExceptT Failure m Unit := do
  say (paint styled .cyan "Reading schema" ++ " " ++ settings.schema.text)
  let product ← settings.generate
  say ("  Rendered " ++ paint styled .green (toString product.typeCount) ++ " type(s)")
  let delivery ← deliver preview product.path product.content
  say ("\n".intercalate (deliveryLines styled product delivery))

/-- Writes or shows the binding; a failure is told and does not end the run. -/
def generateAgain (styled preview : Bool) (settings : Settings) : ExceptT Failure m Unit := do
  try generateOnce styled preview settings
  catch failure => say (paint styled .red "Generation error:" ++ " " ++ failure.message)

def sayWatching (styled : Bool) (settings : Settings) : ExceptT Failure m Unit :=
  say ("\n" ++ paint styled .cyan "Watching for changes to" ++ " " ++ settings.schema.text)

/-- Writes the binding and begins to watch the directory of the schema. -/
def beginWatching (styled preview : Bool) (settings : Settings) : ExceptT Failure m Unit := do
  say (paint styled .cyan "Starting watch mode...")
  say "  Press Ctrl+C to stop\n"
  generateAgain styled preview settings
  orFail (.watching ∘ Files.Fault.message) (FileAccess.watch settings.schema.directory)
  sayWatching styled settings

/-- Answers a change of the schema that is watched: where it is still there, the binding is
written again. -/
def respond (styled preview : Bool) (settings : Settings) (stillThere : Bool) :
    ExceptT Failure m Unit := do
  if stillThere then
    say ("\n" ++ paint styled .cyan "Schema changed:" ++ " " ++ settings.schema.text)
    generateAgain styled preview settings
    sayWatching styled settings
  else
    say ("\n" ++ paint styled .yellow "Schema removed:" ++ " " ++ settings.schema.text)

/-- Writes a configuration where nothing is, or in any case. -/
def writeConfiguration (styled force : Bool) (path : Path) : ExceptT Failure m Unit := do
  if (← (FileAccess.isPresent path : m Bool)) && !force then
    say (paint styled .red "Error:" ++ " Configuration file already exists: " ++ path.text)
    say "  Use --force to overwrite"
    throw (.validation "Configuration file already exists")
  else
    orFail .access (FileAccess.writeText path defaultConfiguration)
    say (paint styled .green "✓" ++ " Created configuration file: " ++ path.text)

/-- Compares the binding at a path with the one that would be written, white space at
their ends aside. -/
def checkBinding (styled : Bool) (settings : Settings) (binding : Path) :
    ExceptT Failure m Unit := do
  if ← (FileAccess.isPresent binding : m Bool) then
    let old ← orFail .access (FileAccess.readText binding)
    let product ← settings.generate
    if Text.sameTrimmed old product.content then
      say (paint styled .green "✓" ++ " Binding is up-to-date")
    else
      say (paint styled .red "✗" ++ " Binding is out of date")
      say "  Run 'graphql-bindgen generate' to update"
      throw (.validation "Binding is out of date")
  else
    throw (.validation ("Binding file not found: " ++ binding.text))

def printDocument (settings : Settings) : ExceptT Failure m Unit := do
  let schema ← loadSchema settings.schema
  ExceptT.lift (Output.print (Sdl.document schema))

def run (styled : Bool) : Command → ExceptT Failure m Remainder
  | generate sources watch preview => do
    let settings ← settingsOf sources
    if watch then
      beginWatching styled preview settings
      return .watching settings preview
    else
      generateOnce styled preview settings
      return .nothing
  | init path force => do
    writeConfiguration styled force path
    return .nothing
  | validate binding sources => do
    say (paint styled .cyan "Validating binding...")
    let settings ← settingsOf sources
    checkBinding styled settings (binding.getD settings.output)
    return .nothing
  | printSchema sources => do
    printDocument (← settingsOf sources)
    return .nothing

def failureLine (styled : Bool) (failure : Failure) : String :=
  paint styled .boldRed "Error:" ++ " " ++ failure.message

def versionLine : String := "graphql-bindgen 0.1.0"

def usageLine : String :=
  "Usage: graphql-bindgen [-v] <generate | init | validate | print-schema> [switches]"

end SchemaBinding.Command
