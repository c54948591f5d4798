/-!
# Scalars in the binding

Every scalar of a schema becomes a type alias.  A table says what the built-in
ones are aliases of, a configured table goes before it, and a scalar that
neither knows is a string.  The identifier scalar is apart: clients may send
a number where they always get a string, so it has one alias per position.
-/

namespace SchemaBinding.Binding

/-- Where a type is used: in what a client gets or in what it sends. -/
inductive Position where
  | output
  | input
deriving DecidableEq, Repr

/-- What distinguishes the alias of the identifier scalar in a position. -/
def Position.suffix : Position → String
  | output => "_Output"
  | input => "_Input"

def identifierScalar : String := "ID"

def fallbackType : String := "string"

def primitiveType? (name : String) : Option String :=
  if name = "Int" ∨ name = "Float" then some "number"
  else if name = "String" then some "string"
  else if name = "Boolean" then some "boolean"
  else none

/-- The scalars whose type is known without configuration. -/
def knownType? (name : String) : Option String :=
  if name = "DateTime" then some "Date | string" else primitiveType? name

def identifierType : Position → String
  | .input => "string | number"
  | .output => "string"

/-- Configured types of scalars; the entry added last for a name counts. -/
structure ScalarTable where
  /-- The entries, the one added last first. -/
  entries : List (String × String) := []
deriving DecidableEq, Repr, Inhabited

namespace ScalarTable

def add (table : ScalarTable) (name type : String) : ScalarTable :=
  ⟨(name, type) :: table.entries⟩

def ofList (entries : List (String × String)) : ScalarTable :=
  ⟨entries.reverse⟩

def configured? (table : ScalarTable) (name : String) : Option String :=
  table.entries.lookup name

/-- The type a scalar is an alias of in a position. -/
def typeAt (table : ScalarTable) (name : String) (position : Position) : String :=
  if name = identifierScalar then identifierType position
  else (table.configured? name).getD ((knownType? name).getD fallbackType)

def typeOf (table : ScalarTable) (name : String) : String :=
  table.typeAt name .output

end ScalarTable

end SchemaBinding.Binding
