import SchemaBinding.Json.Number

/-!
# The shape of introspection results

An introspection result is made of nine records.  Each record has slots in a
fixed order, and each slot says which key it is read from, what its value
looks like and what holds when it is not there.  The shapes are plain data:
one reader follows them all.
-/

namespace SchemaBinding.Introspection

inductive Record where
  | response
  | data
  | schema
  | namedType
  | type
  | field
  | inputValue
  | enumValue
  | typeRef
deriving DecidableEq, Repr

inductive Shape where
  | text
  | flag
  | list (item : Shape)
  | record (record : Record)
deriving DecidableEq, Repr

/-- What has been read by a shape: texts, flags, and chains of them for lists
and for the slots of records. -/
inductive Datum where
  | absent
  | text (value : String)
  | flag (value : Bool)
  | nil
  | cons (head tail : Datum)
deriving DecidableEq, Repr, Inhabited

inductive Presence where
  | required
  | optional
  /-- The slot may be missing, but not null, and then has this value. -/
  | defaulted (value : Datum)
deriving DecidableEq, Repr

structure Slot where
  key : String
  shape : Shape
  presence : Presence
deriving DecidableEq, Repr

namespace Slot

def required (key : String) (shape : Shape) : Slot :=
  ⟨key, shape, .required⟩

def optional (key : String) (shape : Shape) : Slot :=
  ⟨key, shape, .optional⟩

/-- A slot that is read as `value` where it is missing. -/
def defaulted (key : String) (shape : Shape) (value : Datum) : Slot :=
  ⟨key, shape, .defaulted value⟩

def isNullable (slot : Slot) : Bool :=
  slot.presence = .optional

end Slot

namespace Record

def label : Record → String
  | response => "IntrospectionResponse"
  | data => "IntrospectionData"
  | schema => "IntrospectionSchema"
  | namedType => "NamedTypeRef"
  | type => "IntrospectionType"
  | field => "IntrospectionField"
  | inputValue => "IntrospectionInputValue"
  | enumValue => "IntrospectionEnumValue"
  | typeRef => "IntrospectionTypeRef"

def slots : Record → List Slot
  | response =>
    [.optional "data" (.record data),
      .optional "__schema" (.record schema)]
  | data =>
    [.optional "__schema" (.record schema)]
  | schema =>
    [.optional "queryType" (.record namedType),
      .optional "mutationType" (.record namedType),
      .optional "subscriptionType" (.record namedType),
      .defaulted "types" (.list (.record type)) .nil]
  | namedType =>
    [.required "name" .text]
  | type =>
    [.required "kind" .text,
      .optional "name" .text,
      .optional "description" .text,
      .optional "fields" (.list (.record field)),
      .optional "inputFields" (.list (.record inputValue)),
      .optional "interfaces" (.list (.record typeRef)),
      .optional "enumValues" (.list (.record enumValue)),
      .optional "possibleTypes" (.list (.record typeRef))]
  | field =>
    [.required "name" .text,
      .optional "description" .text,
      .defaulted "args" (.list (.record inputValue)) .nil,
      .required "type" (.record typeRef),
      .defaulted "isDeprecated" .flag (.flag false),
      .optional "deprecationReason" .text]
  | inputValue =>
    [.required "name" .text,
      .optional "description" .text,
      .required "type" (.record typeRef),
      .optional "defaultValue" .text]
  | enumValue =>
    [.required "name" .text,
      .optional "description" .text,
      .defaulted "isDeprecated" .flag (.flag false),
      .optional "deprecationReason" .text]
  | typeRef =>
    [.required "kind" .text,
      .optional "name" .text,
      .optional "ofType" (.record typeRef)]

def slot? (record : Record) (key : String) : Option Slot :=
  record.slots.find? fun slot => slot.key == key

end Record

def Shape.label : Shape → String
  | .text => "a string"
  | .flag => "a boolean"
  | .list _ => "a sequence"
  | .record r => "struct " ++ r.label

end SchemaBinding.Introspection
