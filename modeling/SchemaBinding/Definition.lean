import SchemaBinding.Catalog
import SchemaBinding.TypeRef

/-!
# Type definitions

A definition has a name, an optional description and a body of one of six
kinds.  Objects, interfaces and input objects hold their fields in a catalog,
so a field that is declared again takes the place of the earlier one.
-/

namespace SchemaBinding

structure Argument where
  name : String
  type : TypeRef
  description : Option String := none
  default : Option String := none
deriving DecidableEq, Repr, Inhabited

structure Field where
  name : String
  type : TypeRef
  description : Option String := none
  arguments : List Argument := []
  default : Option String := none
  /-- Why the field should no longer be used, if it should not. -/
  deprecation : Option String := none
deriving DecidableEq, Repr, Inhabited

instance : Named Field := ⟨Field.name⟩

/-- A field may be left out, or be null, unless its type is non-null. -/
def Field.isOptional (field : Field) : Bool :=
  !field.type.isNonNull

structure EnumValue where
  name : String
  description : Option String := none
  /-- Why the value should no longer be used, if it should not. -/
  deprecation : Option String := none
deriving DecidableEq, Repr, Inhabited

/-- The six kinds of types, in the alphabetical order of their tags. -/
inductive TypeKind where
  | enumeration
  | inputObject
  | interface
  | object
  | scalar
  | union
deriving DecidableEq, Repr

namespace TypeKind

def all : List TypeKind :=
  [enumeration, inputObject, interface, object, scalar, union]

def rank : TypeKind → Nat
  | enumeration => 0
  | inputObject => 1
  | interface => 2
  | object => 3
  | scalar => 4
  | union => 5

end TypeKind

/-- What a definition says beside its name and description. -/
inductive TypeBody where
  | object (fields : Catalog Field) (interfaces : List String)
  | interface (fields : Catalog Field)
  | inputObject (fields : Catalog Field)
  | union (members : List String)
  | enumeration (values : List EnumValue)
  | scalar
deriving DecidableEq, Repr, Inhabited

structure TypeDefinition where
  name : String
  description : Option String := none
  body : TypeBody
deriving DecidableEq, Repr, Inhabited

instance : Named TypeDefinition := ⟨TypeDefinition.name⟩

namespace TypeBody

def kind : TypeBody → TypeKind
  | object .. => .object
  | interface _ => .interface
  | inputObject _ => .inputObject
  | union _ => .union
  | enumeration _ => .enumeration
  | scalar => .scalar

/-- The fields that a query can select, for the two kinds that have some. -/
def outputFields? : TypeBody → Option (Catalog Field)
  | object fields _ => some fields
  | interface fields => some fields
  | _ => none

/-- Files a field in a body of fields, in the place of an earlier one of its name. -/
def withField (body : TypeBody) (field : Field) : TypeBody :=
  match body with
  | object fields interfaces => object (fields.insert field) interfaces
  | interface fields => interface (fields.insert field)
  | inputObject fields => inputObject (fields.insert field)
  | other => other

end TypeBody

namespace TypeDefinition

def kind (definition : TypeDefinition) : TypeKind :=
  definition.body.kind

/-- The fields that a query can select, for the two kinds that have some. -/
def outputFields? (definition : TypeDefinition) : Option (Catalog Field) :=
  definition.body.outputFields?

/-- Names with two leading underscores belong to introspection itself. -/
def isIntrospection (definition : TypeDefinition) : Bool :=
  definition.name.toList.take 2 == ['_', '_']

end TypeDefinition

end SchemaBinding
