import SchemaBinding.Binding.Options
import SchemaBinding.Files.Path
import SchemaBinding.KeyOrder
import SchemaBinding.Toml.Value

/-!
# Settings

The settings of a run, each with the value it has when nothing sets it.  A
configuration document may set any of them; what it says beside is ignored.
A section is a table whose keys name its settings, or a list that gives them
in order.
-/

namespace SchemaBinding

structure Settings where
  /-- Where the introspection result is read. -/
  schema : Path := ⟨"schema.json"⟩
  /-- Where the binding is written. -/
  output : Path := ⟨"./generated/binding.ts"⟩
  docs : Bool := true
  inlineScalars : Bool := true
  order : String := "kind"
  bindingModule : String := Binding.defaultModule
  scalars : List (String × String) := []
deriving DecidableEq, Repr, Inhabited

namespace Settings

open Toml (Value Entries Fault)

/-- The key under which a moment offers its text to readers of tables. -/
def momentKey : String :=
  "$__toml_private_datetime"

/-- The value a section gives to the setting of a key and a place, if it gives one. -/
def slot? (name : String) (section? : Option Value) (key : String) (place : Nat) :
    Except Fault (Option Value) :=
  match section? with
  | none => .ok none
  | some (.table entries) => .ok (entries.lookup key)
  | some (.array items) => .ok items[place]?
  | some (.moment _) => .ok none
  | some _ => .error (.wrongType name "a table")

/-- The text a value is, or `fallback` where there is no value. -/
def textOr (key fallback : String) : Option Value → Except Fault String
  | none => .ok fallback
  | some (.string value) => .ok value
  | some _ => .error (.wrongType key "a string")

/-- The truth value a value is, or `fallback` where there is no value. -/
def flagOr (key : String) (fallback : Bool) : Option Value → Except Fault Bool
  | none => .ok fallback
  | some (.boolean value) => .ok value
  | some _ => .error (.wrongType key "a boolean")

def scalarEntries : Entries → Except Fault (List (String × String))
  | [] => .ok []
  | (name, value) :: rest => do
    let type ← textOr name "" (some value)
    return (name, type) :: (← scalarEntries rest)

def scalarsOf : Option Value → Except Fault (List (String × String))
  | none => .ok []
  | some (.table entries) => do return KeyOrder.sort (← scalarEntries entries)
  | some (.moment moment) => .ok [(momentKey, moment.text)]
  | some _ => .error (.wrongType "scalars" "a table")

def sectionSize? (name : String) : Option Nat :=
  if name = "input" ∨ name = "output" then some 1
  else if name = "generator" then some 4
  else none

/-- What of an entry is looked at: a section that is a list is followed no further than it
has settings. -/
def regarded (name : String) (value : Value) : Value :=
  match sectionSize? name, value with
  | some size, .array items => .array (items.take size)
  | _, value => value

/-- The first number that cannot be used in what is looked at of a document. -/
def unusable? (entries : Entries) : Option String :=
  entries.findSome? fun entry => (regarded entry.1 entry.2).unusable?

def ofEntries (entries : Entries) : Except Fault Settings := do
  let input := entries.lookup "input"
  let output := entries.lookup "output"
  let generator := entries.lookup "generator"
  let usual : Settings := {}
  return {
    schema := ⟨← textOr "schema" usual.schema.text (← slot? "input" input "schema" 0)⟩
    output := ⟨← textOr "path" usual.output.text (← slot? "output" output "path" 0)⟩
    docs := ← flagOr "generate_docs" usual.docs (← slot? "generator" generator "generate_docs" 0)
    inlineScalars := ← flagOr "inline_builtin_scalars" usual.inlineScalars
      (← slot? "generator" generator "inline_builtin_scalars" 1)
    order := ← textOr "declaration_order" usual.order
      (← slot? "generator" generator "declaration_order" 2)
    bindingModule := ← textOr "binding_module" usual.bindingModule
      (← slot? "generator" generator "binding_module" 3)
    scalars := ← scalarsOf (entries.lookup "scalars") }

/-- The settings under those of the command line, which go before them. -/
def override (settings : Settings) (schema output : Option Path) : Settings :=
  { settings with
    schema := schema.getD settings.schema
    output := output.getD settings.output }

/-- The order of declarations that a name stands for. -/
def orderOf? (name : String) : Option Binding.DeclarationOrder :=
  if name = "kind" then some .kind
  else if name = "name" then some .name
  else none

/-- The options of the binding; nothing where the order is unknown. -/
def options? (settings : Settings) : Option Binding.Options :=
  (orderOf? settings.order).map fun order => {
    docs := settings.docs
    inlineScalars := settings.inlineScalars
    order
    bindingModule := settings.bindingModule
    scalars := .ofList settings.scalars }

def paths (settings : Settings) : Binding.Paths :=
  ⟨settings.schema.text, settings.output.text⟩

end Settings

/-- A configuration document that sets every setting to its usual value. -/
def defaultConfiguration : String :=
  "# graphql-bindgen configuration file\n" ++
  "\n" ++
  "[input]\n" ++
  "# Introspection result (JSON) to generate the binding from\n" ++
  "schema = \"schema.json\"\n" ++
  "\n" ++
  "[output]\n" ++
  "# TypeScript binding file to write\n" ++
  "path = \"./generated/binding.ts\"\n" ++
  "\n" ++
  "[generator]\n" ++
  "# Whether to emit description comments for types and fields\n" ++
  "generate_docs = true\n" ++
  "\n" ++
  "# Render String/Int/Float/Boolean as string/number/boolean at use sites\n" ++
  "inline_builtin_scalars = true\n" ++
  "\n" ++
  "# Declaration order: \"kind\" (enums, inputs, interfaces, objects, scalars, unions) " ++
  "or \"name\"\n" ++
  "declaration_order = \"kind\"\n" ++
  "\n" ++
  "# Module that provides makeBindingClass\n" ++
  "binding_module = \"graphql-binding\"\n" ++
  "\n" ++
  "[scalars]\n" ++
  "# Custom scalar mappings (GraphQL scalar = TypeScript type)\n" ++
  "# JSON = \"any\"\n"

end SchemaBinding
