import SchemaBinding.Binding.Declaration
import SchemaBinding.Binding.Method
import SchemaBinding.Sdl.Document

/-!
# The binding document

A binding is one document of seven sections: header, import, the interface of
an instance, the interface of its maker, the made class, the declarations and
the schema document as a template literal.
-/

namespace SchemaBinding.Binding

/-- Escapes a text for the body of a template literal: no backslash, no end
mark and no start of a substitution is left bare. -/
def escapeTemplate : List Char → List Char
  | '\\' :: rest => '\\' :: '\\' :: escapeTemplate rest
  | '\x60' :: rest => '\\' :: '\x60' :: escapeTemplate rest
  | '$' :: '\x7b' :: rest => '\\' :: '$' :: '\x7b' :: escapeTemplate rest
  | c :: rest => c :: escapeTemplate rest
  | [] => []

def templateBody (text : String) : String :=
  String.ofList (escapeTemplate text.toList)

/-- The parts of a binding that depend on its schema. -/
structure Parts where
  operations : List (Operation × String) := []
  declarations : List String := []
  typeDefs : String := ""
deriving DecidableEq, Repr, Inhabited

/-- The lines that say what the document is and where it came from. -/
def header (paths : Paths) : String :=
  "// Code generated by graphql-bindgen. DO NOT EDIT.\n// Schema: " ++ paths.schema ++
    "\n// Binding: " ++ paths.binding

def importLine (bindingModule : String) : String :=
  "import \x7b makeBindingClass \x7d from '" ++ bindingModule ++ "'"

def operationLine (entry : Operation × String) : String :=
  "  " ++ entry.1.keyword ++ ": " ++ entry.2

def instanceInterface (operations : List (Operation × String)) : String :=
  "export interface BindingInstance \x7b\n" ++ "\n".intercalate (operations.map operationLine) ++
    "\n\x7d"

def constructorInterface : String :=
  "export interface BindingConstructor<T> \x7b\n  new(...args: any[]): T\n\x7d"

def bindingClass : String :=
  "export const Binding = makeBindingClass<BindingConstructor<BindingInstance>>(" ++
    "\x7b typeDefs: () => typeDefs \x7d)"

def banner (title : String) : String :=
  "/**\n * " ++ title ++ "\n */"

def typesSection (declarations : List String) : String :=
  "\n\n".intercalate (banner "Types" :: declarations)

def typeDefsSection (typeDefs : String) : String :=
  banner "Type Defs" ++ "\n\nconst typeDefs = `" ++ templateBody typeDefs ++ "`"

def sections (bindingModule : String) (paths : Paths) (parts : Parts) : List String :=
  [header paths, importLine bindingModule, instanceInterface parts.operations, constructorInterface,
    bindingClass, typesSection parts.declarations, typeDefsSection parts.typeDefs]

def assemble (bindingModule : String) (paths : Paths) (parts : Parts) : String :=
  "\n\n".intercalate (sections bindingModule paths parts) ++ "\n"

/-- What a schema contributes to its binding. -/
def parts (options : Options) (schema : Schema) : Parts where
  operations := Operation.all.map fun operation =>
    (operation, methodBlock options.inlineScalars schema operation)
  declarations := declarations options schema
  typeDefs := Sdl.document schema

def document (options : Options) (paths : Paths) (schema : Schema) : String :=
  assemble options.bindingModule paths (parts options schema)

end SchemaBinding.Binding
