import SchemaBinding.Json.Number

/-!
# Values of data documents

A value as it is left when its text is no longer needed.  The members of an
object are listed in the order of the text, and a key may occur again.
-/

namespace SchemaBinding

inductive Json where
  | null
  | boolean (value : Bool)
  | number (value : Json.Number)
  | string (value : String)
  | array (items : List Json)
  | object (members : List (String × Json))
deriving Repr, Inhabited

namespace Json

/-- The value under a key; of several the last one counts. -/
def member? (key : String) : Json → Option Json
  | object members => members.reverse.lookup key
  | _ => none

end Json

end SchemaBinding
