import SchemaBinding.Introspection.Entry
import SchemaBinding.Introspection.Reading
import SchemaBinding.Schema
import SchemaBinding.Sdl.Deprecation

/-!
# Loading introspection results

Loading turns the entries of an introspection result into a schema.  Entries
without a name and entries of an unknown kind are left out with all that they
hold, so a result of a newer server still loads.  References are checked in
document order, and the roots are checked when all types are known.
-/

namespace SchemaBinding.Introspection

/-- Why an introspection result has no schema. -/
inductive LoadError where
  | unreadable (fault : Fault)
  | missingSchema
  | invalidTypeRef (location reason : String)
  | unknownRoot (operation name : String)
deriving Repr

def LoadError.message : LoadError → String
  | .unreadable fault => "Invalid introspection JSON: " ++ fault.message
  | .missingSchema => "Introspection result has no __schema object"
  | .invalidTypeRef location reason =>
    "Invalid type reference in '" ++ location ++ "': " ++ reason
  | .unknownRoot operation name =>
    "Root " ++ operation ++ " type '" ++ name ++ "' is not defined in the schema"

inductive RefDefect where
  /-- A wrapper of this kind has nothing inside. -/
  | withoutInner (kind : String)
  /-- A reference of this kind has no name. -/
  | withoutName (kind : String)
  | doubleNonNull
deriving DecidableEq, Repr

def RefDefect.message : RefDefect → String
  | .withoutInner kind => kind ++ " without ofType"
  | .withoutName kind => kind ++ " reference without name"
  | .doubleNonNull => "NON_NULL wrapping NON_NULL"

def isWrapper (kind : String) : Bool :=
  kind = "NON_NULL" || kind = "LIST"

def wrap (kind : String) (inner : TypeRef) : Except RefDefect TypeRef :=
  if kind = "NON_NULL" then
    if inner.isNonNull then .error .doubleNonNull else .ok (.nonNull inner)
  else .ok (.list inner)

def leafRef (kind : String) (name : Option String) : Except RefDefect TypeRef :=
  match name with
  | some name => .ok (.named name)
  | none => .error (.withoutName kind)

/-- The reference of an entry; what lies deeper is checked first. -/
def RefEntry.typeRef : RefEntry → Except RefDefect TypeRef
  | .plain kind name =>
    if isWrapper kind then .error (.withoutInner kind) else leafRef kind name
  | .wrapping kind name inner =>
    if isWrapper kind then do wrap kind (← inner.typeRef) else leafRef kind name

def refAt (location : String) (entry : RefEntry) : Except LoadError TypeRef :=
  match entry.typeRef with
  | .ok type => .ok type
  | .error defect => .error (.invalidTypeRef location defect.message)

def place (owner member : String) : String :=
  owner ++ "." ++ member

/-- The deprecation that two slots of an entry give together. -/
def deprecation (isDeprecated : Bool) (reason : Option String) : Option String :=
  if isDeprecated then some (reason.getD Sdl.defaultReason) else none

def InputEntry.argument (owner : String) (entry : InputEntry) : Except LoadError Argument := do
  let type ← refAt (place owner entry.name) entry.type
  return { name := entry.name, type, description := entry.description, default := entry.default }

def InputEntry.field (owner : String) (entry : InputEntry) : Except LoadError Field := do
  let type ← refAt (place owner entry.name) entry.type
  return { name := entry.name, type, description := entry.description, default := entry.default }

/-- The field of an entry: its type is checked before its arguments. -/
def FieldEntry.field (owner : String) (entry : FieldEntry) : Except LoadError Field := do
  let location := place owner entry.name
  let type ← refAt location entry.type
  let arguments ← entry.arguments.mapM (InputEntry.argument location)
  return {
    name := entry.name, type, description := entry.description, arguments,
    deprecation := deprecation entry.isDeprecated entry.reason }

def ValueEntry.value (entry : ValueEntry) : EnumValue :=
  ⟨entry.name, entry.description, deprecation entry.isDeprecated entry.reason⟩

/-- The names of references; those without a name are left out. -/
def namesOf (entries : Option (List RefEntry)) : List String :=
  (entries.getD []).filterMap RefEntry.name?

/-- The body of a named entry, unless its kind is unknown. -/
def TypeEntry.body? (name : String) (entry : TypeEntry) : Except LoadError (Option TypeBody) :=
  if entry.kind = "OBJECT" then do
    let fields ← (entry.fields.getD []).mapM (FieldEntry.field name)
    return some (.object (.ofList fields) (namesOf entry.interfaces))
  else if entry.kind = "INTERFACE" then do
    let fields ← (entry.fields.getD []).mapM (FieldEntry.field name)
    return some (.interface (.ofList fields))
  else if entry.kind = "INPUT_OBJECT" then do
    let fields ← (entry.inputFields.getD []).mapM (InputEntry.field name)
    return some (.inputObject (.ofList fields))
  else if entry.kind = "UNION" then
    .ok (some (.union (namesOf entry.possibleTypes)))
  else if entry.kind = "ENUM" then
    .ok (some (.enumeration ((entry.enumValues.getD []).map ValueEntry.value)))
  else if entry.kind = "SCALAR" then
    .ok (some .scalar)
  else
    .ok none

def TypeEntry.definition? (entry : TypeEntry) : Except LoadError (Option TypeDefinition) :=
  match entry.name with
  | none => .ok none
  | some name => do
    let body ← entry.body? name
    return body.map fun body => ⟨name, entry.description, body⟩

/-- The definitions of entries in order, those that are left out excepted. -/
def definitions : List TypeEntry → Except LoadError (List TypeDefinition)
  | [] => .ok []
  | entry :: entries => do
    let definition ← entry.definition?
    let rest ← definitions entries
    return definition.toList ++ rest

/-- The first root that is bound to no definition. -/
def unknownRoot? (schema : Schema) : Option LoadError :=
  (schema.boundRoots.find? fun root => (schema.type? root.2).isNone).map fun root =>
    .unknownRoot root.1.keyword root.2

def SchemaEntry.schema (entry : SchemaEntry) : Except LoadError Schema := do
  let types ← definitions entry.types
  let schema : Schema := ⟨.ofList types, entry.query, entry.mutation, entry.subscription⟩
  match unknownRoot? schema with
  | some error => throw error
  | none => return schema

def schemaOfResponse (datum : Datum) : Except LoadError Schema :=
  match SchemaEntry.ofResponse? datum with
  | some entry => entry.schema
  | none => .error .missingSchema

def loadText (text : String) : Except LoadError Schema :=
  match readText text with
  | .ok datum => schemaOfResponse datum
  | .error fault => .error (.unreadable fault)

def loadValue (value : Json) : Except LoadError Schema :=
  match readValue value with
  | .ok datum => schemaOfResponse datum
  | .error fault => .error (.unreadable fault)

end SchemaBinding.Introspection
