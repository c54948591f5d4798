/-!
# Type references

A reference names a type and wraps it in lists and non-null marks, in any
order and to any depth.  Its notation is the one schema documents use: the
name, `[T]` for a list of `T`, and `T!` for a `T` that is never null.
-/

namespace SchemaBinding

/-- A use of a type: its name under list and non-null wrappers. -/
inductive TypeRef where
  | named (name : String)
  | nonNull (inner : TypeRef)
  | list (inner : TypeRef)
deriving DecidableEq, Repr, Inhabited

namespace TypeRef

/-- Whether the outermost wrapper rules out null. -/
def isNonNull : TypeRef → Bool
  | nonNull _ => true
  | _ => false

def leaf : TypeRef → String
  | named name => name
  | nonNull inner => inner.leaf
  | list inner => inner.leaf

def notate : TypeRef → String
  | named name => name
  | nonNull inner => inner.notate ++ "!"
  | list inner => "[" ++ inner.notate ++ "]"

/-- No non-null mark stands directly inside another one. -/
def WellWrapped : TypeRef → Prop
  | named _ => True
  | nonNull inner => inner.isNonNull = false ∧ inner.WellWrapped
  | list inner => inner.WellWrapped

end TypeRef

end SchemaBinding
