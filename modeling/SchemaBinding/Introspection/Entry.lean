import SchemaBinding.Introspection.Shape

/-!
# Entries of introspection results

The records of an introspection result as structures.  They hold what the
result says, wrong references and types of unknown kinds included; only
loading judges it.  Each structure is taken from the datum that reading its
record gives, and from any other datum as an entry that says nothing.
-/

namespace SchemaBinding.Introspection

namespace Datum

def string? : Datum → Option String
  | text value => some value
  | _ => none

/-- The text of a datum that has one. -/
def string (d : Datum) : String :=
  d.string?.getD ""

def isSet : Datum → Bool
  | flag value => value
  | _ => false

def listOf {α : Type} (entry : Datum → α) : Datum → List α
  | cons head tail => entry head :: listOf entry tail
  | _ => []

/-- The entries of a chain that is there. -/
def listOf? {α : Type} (entry : Datum → α) : Datum → Option (List α)
  | absent => none
  | d => some (d.listOf entry)

def entryOf? {α : Type} (entry : Datum → α) : Datum → Option α
  | absent => none
  | d => some (entry d)

end Datum

/-- A reference to a type as a result gives it. -/
inductive RefEntry where
  | plain (kind : String) (name : Option String)
  | wrapping (kind : String) (name : Option String) (inner : RefEntry)
deriving DecidableEq, Repr, Inhabited

namespace RefEntry

def kind : RefEntry → String
  | plain kind _ => kind
  | wrapping kind _ _ => kind

def name? : RefEntry → Option String
  | plain _ name => name
  | wrapping _ name _ => name

def ofDatum : Datum → RefEntry
  | .cons kind (.cons name (.cons .absent .nil)) => plain kind.string name.string?
  | .cons kind (.cons name (.cons inner .nil)) => wrapping kind.string name.string? (ofDatum inner)
  | _ => plain "" none

end RefEntry

/-- An argument or an input field as a result gives it. -/
structure InputEntry where
  name : String
  description : Option String
  type : RefEntry
  default : Option String
deriving DecidableEq, Repr, Inhabited

def InputEntry.ofDatum : Datum → InputEntry
  | .cons name (.cons description (.cons type (.cons default .nil))) =>
    ⟨name.string, description.string?, RefEntry.ofDatum type, default.string?⟩
  | _ => ⟨"", none, .plain "" none, none⟩

structure FieldEntry where
  name : String
  description : Option String
  arguments : List InputEntry
  type : RefEntry
  isDeprecated : Bool
  reason : Option String
deriving DecidableEq, Repr, Inhabited

def FieldEntry.ofDatum : Datum → FieldEntry
  | .cons name (.cons description (.cons arguments (.cons type (.cons isDeprecated
      (.cons reason .nil))))) =>
    ⟨name.string, description.string?, arguments.listOf InputEntry.ofDatum,
      RefEntry.ofDatum type, isDeprecated.isSet, reason.string?⟩
  | _ => ⟨"", none, [], .plain "" none, false, none⟩

structure ValueEntry where
  name : String
  description : Option String
  isDeprecated : Bool
  reason : Option String
deriving DecidableEq, Repr, Inhabited

def ValueEntry.ofDatum : Datum → ValueEntry
  | .cons name (.cons description (.cons isDeprecated (.cons reason .nil))) =>
    ⟨name.string, description.string?, isDeprecated.isSet, reason.string?⟩
  | _ => ⟨"", none, false, none⟩

structure TypeEntry where
  kind : String
  name : Option String
  description : Option String
  fields : Option (List FieldEntry)
  inputFields : Option (List InputEntry)
  interfaces : Option (List RefEntry)
  enumValues : Option (List ValueEntry)
  possibleTypes : Option (List RefEntry)
deriving DecidableEq, Repr, Inhabited

def TypeEntry.ofDatum : Datum → TypeEntry
  | .cons kind (.cons name (.cons description (.cons fields (.cons inputFields (.cons interfaces
      (.cons enumValues (.cons possibleTypes .nil))))))) =>
    ⟨kind.string, name.string?, description.string?, fields.listOf? FieldEntry.ofDatum,
      inputFields.listOf? InputEntry.ofDatum, interfaces.listOf? RefEntry.ofDatum,
      enumValues.listOf? ValueEntry.ofDatum, possibleTypes.listOf? RefEntry.ofDatum⟩
  | _ => ⟨"", none, none, none, none, none, none, none⟩

def nameOfDatum : Datum → String
  | .cons name .nil => name.string
  | _ => ""

structure SchemaEntry where
  query : Option String
  mutation : Option String
  subscription : Option String
  types : List TypeEntry
deriving DecidableEq, Repr, Inhabited

namespace SchemaEntry

def ofDatum : Datum → SchemaEntry
  | .cons query (.cons mutation (.cons subscription (.cons types .nil))) =>
    ⟨query.entryOf? nameOfDatum, mutation.entryOf? nameOfDatum,
      subscription.entryOf? nameOfDatum, types.listOf TypeEntry.ofDatum⟩
  | _ => ⟨none, none, none, []⟩

/-- The schema inside the data of a response. -/
def ofData? : Datum → Option SchemaEntry
  | .cons schema .nil => schema.entryOf? ofDatum
  | _ => none

/-- The schema of a response: the one inside its data, or else the one beside it. -/
def ofResponse? : Datum → Option SchemaEntry
  | .cons data (.cons schema .nil) => (ofData? data).or (schema.entryOf? ofDatum)
  | _ => none

end SchemaEntry

end SchemaBinding.Introspection
