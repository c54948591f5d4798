import SchemaBinding.Binding.Comment
import SchemaBinding.Binding.Options
import SchemaBinding.Binding.TypeText
import SchemaBinding.Schema

/-!
# Declarations

Each type of a schema becomes one declaration: objects and interfaces become
interfaces, the other kinds become type aliases.  Root types are reached
through the binding itself and have no declaration.
-/

namespace SchemaBinding.Binding

def fieldLine (options : Options) (position : Position) (f : Field) : String :=
  fieldComment options.docs f.description f.deprecation ++ "  " ++ f.name ++
    (if f.isOptional then "?" else "") ++ ": " ++
    typeText options.inlineScalars position f.type

def fieldBlock (options : Options) (position : Position) (fields : Catalog Field) : String :=
  if fields.items = [] then "\x7b\x7d"
  else "\x7b\n" ++ "\n".intercalate (fields.items.map (fieldLine options position)) ++ "\n\x7d"

def extendsClause (interfaces : List String) : String :=
  if interfaces = [] then "" else " extends " ++ ", ".intercalate interfaces

/-- Alternatives, or the type without values when there is none. -/
def alternatives (separator : String) (members : List String) : String :=
  if members = [] then "never" else separator.intercalate members

/-- The alias of a scalar; the identifier scalar has one for each position. -/
def scalarAlias (table : ScalarTable) (name : String) : String :=
  if name = identifierScalar then
    "export type " ++ name ++ Position.input.suffix ++ " = " ++ table.typeAt name .input ++
      "\nexport type " ++ name ++ Position.output.suffix ++ " = " ++ table.typeAt name .output
  else
    "export type " ++ name ++ " = " ++ table.typeOf name

def declarationBody (options : Options) (name : String) : TypeBody → String
  | .object fields interfaces =>
    "export interface " ++ name ++ extendsClause interfaces ++ " " ++
      fieldBlock options .output fields
  | .interface fields => "export interface " ++ name ++ " " ++ fieldBlock options .output fields
  | .inputObject fields => "export type " ++ name ++ " = " ++ fieldBlock options .input fields
  | .union members => "export type " ++ name ++ " = " ++ alternatives " | " members
  | .enumeration values =>
    "export type " ++ name ++ " = " ++
      alternatives " |\n  " (values.map fun v => "'" ++ v.name ++ "'")
  | .scalar => scalarAlias options.scalars name

def declaration (options : Options) (d : TypeDefinition) : String :=
  declarationComment options.docs d.description ++ declarationBody options d.name d.body

/-- Whether a type has a declaration: it is neither a root nor part of introspection. -/
def isDeclared (schema : Schema) (d : TypeDefinition) : Bool :=
  !d.isIntrospection && !schema.isRoot d.name

/-- Whether `c` may stand before `d` in an order. -/
def DeclarationOrder.precedes : DeclarationOrder → TypeDefinition → TypeDefinition → Bool
  | .kind, c, d => c.kind.rank ≤ d.kind.rank
  | .name, c, d => c.name ≤ d.name

/-- The types that have a declaration, in order; types that an order does not
tell apart keep schema order. -/
def declaredTypes (schema : Schema) (order : DeclarationOrder) : List TypeDefinition :=
  (schema.types.items.filter (isDeclared schema)).mergeSort order.precedes

def declarations (options : Options) (schema : Schema) : List String :=
  (declaredTypes schema options.order).map (declaration options)

end SchemaBinding.Binding
