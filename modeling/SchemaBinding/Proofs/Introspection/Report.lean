import SchemaBinding.Proofs.Introspection.Loaded

/-!
# Reports of schemas

A server reports its schema as an introspection result: one entry for each
type in order, references as chains of wrappers around a name, and null for
whatever a type does not have.
-/

namespace SchemaBinding

/-! ## What a definition has -/

/-- The fields of an input object. -/
def TypeBody.inputFields? : TypeBody → Option (List Field)
  | inputObject fields => some fields.items
  | _ => none

/-- The interfaces of a type that may have some. -/
def TypeBody.interfaces? : TypeBody → Option (List String)
  | object _ interfaces => some interfaces
  | interface _ => some []
  | _ => none

def TypeBody.values? : TypeBody → Option (List EnumValue)
  | enumeration values => some values
  | _ => none

/-- The objects that say that they have an interface. -/
def Schema.implementers (schema : Schema) (interface : String) : List String :=
  (schema.types.items.filter fun d =>
    d.kind = .object && (d.body.interfaces?.getD []).contains interface).map TypeDefinition.name

/-- The types of which a value of a union or an interface may be. -/
def Schema.possibleTypes? (schema : Schema) (d : TypeDefinition) : Option (List String) :=
  match d.body with
  | .union members => some members
  | .interface _ => some (schema.implementers d.name)
  | _ => none

namespace Introspection

/-! ## Writing -/

namespace Report

/-- A text, or null where there is none. -/
def text? : Option String → Json
  | some text => .string text
  | none => .null

/-- The reports of the items of a list, or null where there is no list. -/
def list? {α : Type} (report : α → Json) : Option (List α) → Json
  | some items => .array (items.map report)
  | none => .null

def root? : Option String → Json
  | some name => .object [("name", .string name)]
  | none => .null

section Parts

variable (schema : Schema)

/-- The kind of a type; a name that no type has counts as that of a scalar. -/
def kindOf (name : String) : TypeKind :=
  ((schema.type? name).map TypeDefinition.kind).getD .scalar

def named (name : String) : Json :=
  .object [("kind", .string (kindOf schema name).tag), ("name", .string name), ("ofType", .null)]

def wrapping (kind : String) (inner : Json) : Json :=
  .object [("kind", .string kind), ("name", .null), ("ofType", inner)]

def reference : TypeRef → Json
  | .named name => named schema name
  | .nonNull inner => wrapping "NON_NULL" (reference inner)
  | .list inner => wrapping "LIST" (reference inner)

def input (name : String) (description : Option String) (type : TypeRef)
    (default : Option String) : Json :=
  .object [("name", .string name), ("description", text? description),
    ("type", reference schema type), ("defaultValue", text? default)]

def argument (a : Argument) : Json :=
  input schema a.name a.description a.type a.default

def inputField (f : Field) : Json :=
  input schema f.name f.description f.type f.default

def field (f : Field) : Json :=
  .object [("name", .string f.name), ("description", text? f.description),
    ("args", .array (f.arguments.map (argument schema))), ("type", reference schema f.type),
    ("isDeprecated", .boolean f.deprecation.isSome), ("deprecationReason", text? f.deprecation)]

def enumValue (v : EnumValue) : Json :=
  .object [("name", .string v.name), ("description", text? v.description),
    ("isDeprecated", .boolean v.deprecation.isSome), ("deprecationReason", text? v.deprecation)]

def definition (d : TypeDefinition) : Json :=
  .object [("kind", .string d.kind.tag), ("name", .string d.name),
    ("description", text? d.description),
    ("fields", list? (field schema) (d.outputFields?.map Catalog.items)),
    ("inputFields", list? (inputField schema) d.body.inputFields?),
    ("interfaces", list? (named schema) d.body.interfaces?),
    ("enumValues", list? enumValue d.body.values?),
    ("possibleTypes", list? (named schema) (schema.possibleTypes? d))]

end Parts

/-- The report of a schema, as it stands under `__schema`. -/
def ofSchema (schema : Schema) : Json :=
  .object [("queryType", root? schema.query), ("mutationType", root? schema.mutation),
    ("subscriptionType", root? schema.subscription),
    ("types", .array (schema.types.items.map (definition schema))),
    ("directives", .array [])]

end Report

end Introspection

end SchemaBinding
