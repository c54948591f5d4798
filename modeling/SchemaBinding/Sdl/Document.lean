import SchemaBinding.Schema
import SchemaBinding.Sdl.Deprecation
import SchemaBinding.Sdl.Description

/-!
# Schema documents

A schema is printed as a document of the schema definition language.  The
text is canonical: the definitions stand in schema order, those that every
schema has are left out, and the text ends in one line end or is empty.
-/

namespace SchemaBinding.Sdl

def indent : String := "  "

/-- The scalars that every schema has. -/
def builtinScalars : List String :=
  ["String", "Int", "Float", "Boolean", "ID"]

def isBuiltinScalar (definition : TypeDefinition) : Bool :=
  definition.kind = .scalar ∧ definition.name ∈ builtinScalars

/-- Rows between braces with the blank before them, or nothing without rows. -/
def block (rows : List String) : String :=
  if rows = [] then ""
  else " \x7b\n" ++ "\n".intercalate rows ++ "\n\x7d"

def defaultValue : Option String → String
  | none => ""
  | some value => " = " ++ value

/-- An argument without its description. -/
def argument (a : Argument) : String :=
  a.name ++ ": " ++ a.type.notate ++ defaultValue a.default

/-- An argument on a row of its own, under its description. -/
def argumentRow (a : Argument) : String :=
  describe (indent ++ indent) a.description ++ (indent ++ indent) ++ argument a

/-- The arguments of a field: on one line, or on rows when one is described. -/
def arguments (args : List Argument) : String :=
  if args = [] then ""
  else if args.all (·.description.isNone) then
    "(" ++ ", ".intercalate (args.map argument) ++ ")"
  else
    "(\n" ++ "\n".intercalate (args.map argumentRow) ++ "\n" ++ indent ++ ")"

def fieldRow (f : Field) : String :=
  describe indent f.description ++ indent ++ f.name ++ arguments f.arguments ++
    ": " ++ f.type.notate ++ defaultValue f.default ++ deprecationMark f.deprecation

def valueRow (v : EnumValue) : String :=
  describe indent v.description ++ indent ++ v.name ++ deprecationMark v.deprecation

def fieldBlock (fields : Catalog Field) : String :=
  block (fields.items.map fieldRow)

def implementsClause (interfaces : List String) : String :=
  if interfaces = [] then ""
  else " implements " ++ " & ".intercalate interfaces

def membersClause (members : List String) : String :=
  if members = [] then ""
  else " = " ++ " | ".intercalate members

/-- The keyword, the name and the body of a definition. -/
def head (name : String) : TypeBody → String
  | .object fields interfaces =>
    "type " ++ name ++ implementsClause interfaces ++ fieldBlock fields
  | .interface fields => "interface " ++ name ++ fieldBlock fields
  | .inputObject fields => "input " ++ name ++ fieldBlock fields
  | .union members => "union " ++ name ++ membersClause members
  | .enumeration values => "enum " ++ name ++ block (values.map valueRow)
  | .scalar => "scalar " ++ name

def definition (d : TypeDefinition) : String :=
  describe "" d.description ++ head d.name d.body

def visibleTypes (schema : Schema) : List TypeDefinition :=
  schema.types.items.filter fun d => !d.isIntrospection && !isBuiltinScalar d

def rootRow (root : Operation × String) : String :=
  indent ++ root.1.keyword ++ ": " ++ root.2

/-- The schema block, which is needed only when some root has a name of its own. -/
def schemaBlock? (schema : Schema) : Option String :=
  if schema.boundRoots.all fun root => root.2 == root.1.defaultRoot then none
  else some ("schema" ++ block (schema.boundRoots.map rootRow))

def blocks (schema : Schema) : List String :=
  (schemaBlock? schema).toList ++ (visibleTypes schema).map definition

def document (schema : Schema) : String :=
  match blocks schema with
  | [] => ""
  | bs => "\n\n".intercalate bs ++ "\n"

end SchemaBinding.Sdl
