import SchemaBinding.Toml.Moment

/-!
# Values of configuration documents

What a configuration document can assign to a key.  A number that is written by
the rules without having a value that can be kept makes no document wrong; it
is wrong to use it.  `Value.unusable?` finds such a number.
-/

namespace SchemaBinding.Toml

inductive Value where
  | string (value : String)
  | integer (value : Int)
  /-- A floating point number as it is written, its underscores left out. -/
  | float (written : String)
  | boolean (value : Bool)
  /-- A number that is too large to be kept or has no value, as it is written. -/
  | unusable (written : String)
  | moment (moment : Moment)
  | array (items : List Value)
  | table (entries : List (String × Value))
deriving Repr, Inhabited

abbrev Entries := List (String × Value)

mutual

/-- The first number in a value that cannot be used. -/
def Value.unusable? : Value → Option String
  | .unusable written => some written
  | .array items => unusableItem? items
  | .table entries => unusablePair? entries
  | _ => none

def unusableItem? : List Value → Option String
  | [] => none
  | item :: rest =>
    match item.unusable? with
    | some written => some written
    | none => unusableItem? rest

def unusablePair? : List (String × Value) → Option String
  | [] => none
  | (_, value) :: rest =>
    match value.unusable? with
    | some written => some written
    | none => unusablePair? rest

end

/-- Why a text is no configuration document, or not one of settings. -/
inductive Fault where
  /-- The text does not follow the rules at the start of what is left. -/
  | malformed (rest : String)
  | redefined (key : String)
  /-- A number that is asked for cannot be used. -/
  | unusable (written : String)
  /-- The value of a key has another type than the key asks for. -/
  | wrongType (key expected : String)
deriving Repr

def Fault.message : Fault → String
  | .malformed rest => "unexpected text: " ++ rest
  | .redefined key => "duplicate key: " ++ key
  | .unusable written => "number out of range: " ++ written
  | .wrongType key expected => key ++ " is not " ++ expected

end SchemaBinding.Toml
