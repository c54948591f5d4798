import SchemaBinding.Binding.Scalar
import SchemaBinding.TypeRef

/-!
# Types in the binding

A type reference becomes a type of the binding's language.  Null is expressed
where the type is used, so non-null marks leave no trace here.  A client may
send a single item where a list is asked for, so a list in input position
stands beside its item type.
-/

namespace SchemaBinding.Binding

def leafText (inlineScalars : Bool) (position : Position) (name : String) : String :=
  if name = identifierScalar then name ++ position.suffix
  else if inlineScalars then (primitiveType? name).getD name
  else name

def typeText (inlineScalars : Bool) (position : Position) : TypeRef → String
  | .named name => leafText inlineScalars position name
  | .nonNull inner => typeText inlineScalars position inner
  | .list inner =>
    let item := typeText inlineScalars position inner
    match position with
    | .output => item ++ "[]"
    | .input => item ++ "[] | " ++ item

end SchemaBinding.Binding
