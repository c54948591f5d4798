import SchemaBinding.Definition

/-!
# Schemas

A schema is a catalog of type definitions together with the names of the root
types of the three operations.  A root may be bound to a name that no
definition has; only a schema that was loaded is known to have none such.
-/

namespace SchemaBinding

/-- The three operations a client can ask for. -/
inductive Operation where
  | query
  | mutation
  | subscription
deriving DecidableEq, Repr

namespace Operation

def all : List Operation :=
  [query, mutation, subscription]

def keyword : Operation → String
  | query => "query"
  | mutation => "mutation"
  | subscription => "subscription"

/-- The name a root type has when nothing else is said. -/
def defaultRoot : Operation → String
  | query => "Query"
  | mutation => "Mutation"
  | subscription => "Subscription"

end Operation

/-- Type definitions and the root types of the operations. -/
structure Schema where
  types : Catalog TypeDefinition := .empty
  query : Option String := none
  mutation : Option String := none
  subscription : Option String := none
deriving DecidableEq, Repr, Inhabited

namespace Schema

def addType (schema : Schema) (definition : TypeDefinition) : Schema :=
  { schema with types := schema.types.insert definition }

def bindRoot (schema : Schema) (operation : Operation) (name : String) : Schema :=
  match operation with
  | .query => { schema with query := some name }
  | .mutation => { schema with mutation := some name }
  | .subscription => { schema with subscription := some name }

def type? (schema : Schema) (name : String) : Option TypeDefinition :=
  schema.types.find? name

def rootName? (schema : Schema) : Operation → Option String
  | .query => schema.query
  | .mutation => schema.mutation
  | .subscription => schema.subscription

def root? (schema : Schema) (operation : Operation) : Option TypeDefinition :=
  (schema.rootName? operation).bind schema.type?

def isRoot (schema : Schema) (name : String) : Bool :=
  Operation.all.any fun operation => schema.rootName? operation == some name

/-- The bound operations with their root names, in document order. -/
def boundRoots (schema : Schema) : List (Operation × String) :=
  Operation.all.filterMap fun operation =>
    (schema.rootName? operation).map fun name => (operation, name)

end Schema

end SchemaBinding
