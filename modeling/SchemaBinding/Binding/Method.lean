import SchemaBinding.Binding.TypeText
import SchemaBinding.Schema

/-!
# Methods of the binding

Each field of a root type becomes a method that promises the field's value.
An operation without fields still has its entry, with an empty body.
-/

namespace SchemaBinding.Binding

def method (inlineScalars : Bool) (f : Field) : String :=
  f.name ++ ": (args, info, context) => Promise<" ++ typeText inlineScalars .output f.type ++
    (if f.isOptional then " | null" else "") ++ ">"

def rootFields (schema : Schema) (operation : Operation) : List Field :=
  (((schema.root? operation).bind TypeDefinition.outputFields?).map Catalog.items).getD []

/-- The body of the entry of an operation. -/
def methodBlock (inlineScalars : Bool) (schema : Schema) (operation : Operation) : String :=
  let fields := rootFields schema operation
  if fields = [] then "\x7b\x7d"
  else
    "\x7b\n" ++ "\n".intercalate (fields.map fun f => "    " ++ method inlineScalars f) ++
      "\n  \x7d"

end SchemaBinding.Binding
