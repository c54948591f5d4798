import SchemaBinding.Introspection.Shape
import SchemaBinding.Json.Transcript
import SchemaBinding.Text.Quoted

/-!
# Faults of introspection results

A result that cannot be read either breaks the rules of data documents or has
a value of the wrong shape.  Faults are kept as causes; their wording is in
one place.
-/

namespace SchemaBinding.Introspection

/-- What was found where something else should be. -/
inductive Finding where
  | null
  | boolean (value : Bool)
  | number (value : Json.Number)
  | string (value : String)
  | array
  | object
deriving Repr

/-- How a well-formed value can miss its shape. -/
inductive Mismatch where
  | missingField (key : String)
  | duplicateField (key : String)
  | wrongType (found : Finding) (expected : Shape)
  /-- An array stands for a record and ends before its slot number `count`. -/
  | tooFewItems (count : Nat) (record : Record)
  /-- An array of `count` items stands for a record that has fewer slots. -/
  | tooManyItems (count : Nat)
deriving Repr

/-- Why a text or a value is no introspection result. -/
inductive Fault where
  | text (fault : Json.TextFault)
  | shape (mismatch : Mismatch)
deriving Repr

def Finding.message : Finding → String
  | .null => "null"
  | .boolean value => "boolean `" ++ (if value then "true" else "false") ++ "`"
  | .number (.natural n) => "integer `" ++ toString n ++ "`"
  | .number (.negative n) => "integer `-" ++ toString n ++ "`"
  | .number (.real x) => "floating point `" ++ Json.realText x ++ "`"
  | .string value => "string " ++ Text.display value
  | .array => "sequence"
  | .object => "map"

def Mismatch.message : Mismatch → String
  | .missingField key => "missing field `" ++ key ++ "`"
  | .duplicateField key => "duplicate field `" ++ key ++ "`"
  | .wrongType found expected =>
    "invalid type: " ++ found.message ++ ", expected " ++ expected.label
  | .tooFewItems count record =>
    let slots := record.slots.length
    "invalid length " ++ toString count ++ ", expected struct " ++ record.label ++ " with " ++
      toString slots ++ (if slots = 1 then " element" else " elements")
  | .tooManyItems count =>
    "invalid length " ++ toString count ++ ", expected fewer elements in array"

def Fault.message : Fault → String
  | .text .malformed => "the text is not a document"
  | .text .truncated => "the text ends too early"
  | .shape mismatch => mismatch.message

end SchemaBinding.Introspection
