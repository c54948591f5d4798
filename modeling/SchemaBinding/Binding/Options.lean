import SchemaBinding.Binding.Scalar

/-!
# Options of the binding

What can be chosen about a generated binding, with the choice that holds when
nothing is said, and the paths that its header names.
-/

namespace SchemaBinding.Binding

/-- The order of declarations: grouped by kind, or by name. -/
inductive DeclarationOrder where
  | kind
  | name
deriving DecidableEq, Repr, Inhabited

/-- The module that provides the class maker unless another one is chosen. -/
def defaultModule : String := "graphql-binding"

/-- What can be chosen about a binding. -/
structure Options where
  /-- Descriptions become comments. -/
  docs : Bool := true
  /-- Primitive scalars are written out where they are used. -/
  inlineScalars : Bool := true
  order : DeclarationOrder := .kind
  /-- The module that provides the class maker. -/
  bindingModule : String := defaultModule
  scalars : ScalarTable := {}
deriving DecidableEq, Repr, Inhabited

structure Paths where
  schema : String
  binding : String
deriving DecidableEq, Repr, Inhabited

end SchemaBinding.Binding
