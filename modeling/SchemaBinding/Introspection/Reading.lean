import SchemaBinding.Introspection.Fault
import SchemaBinding.Json.Reader

/-!
# Reading by shape

A transcript is read by a shape from left to right, and the first fault ends
the reading.  A record is an object whose members come in any order, or an
array of its slots in order.  Members that no slot asks for are skipped, and
what is missing shows only after the last member.

A text differs from a value in two rules: it limits how deep records and lists
may nest, and an array with an item too many is a defect of the text.
-/

namespace SchemaBinding.Introspection

open Json (Transcript Items Members TextFault)

/-- What is read: a text, or a value that has been read before. -/
inductive Source where
  | text
  | value
deriving DecidableEq, Repr

/-- How many levels may be open in a text or a value. -/
def Source.levels : Source → Option Nat
  | text => some Json.nestingLimit
  | value => none

/-- What a transcript shows where it has no defect. -/
def finding? : Transcript → Except TextFault Finding
  | .null => .ok .null
  | .boolean value => .ok (.boolean value)
  | .number value => .ok (.number value)
  | .string value => .ok (.string value)
  | .array _ => .ok .array
  | .object _ => .ok .object
  | .flawed read _ => .error read

def mismatch (expected : Shape) (value : Transcript) : Fault :=
  match finding? value with
  | .ok found => .shape (.wrongType found expected)
  | .error fault => .text fault

/-- The levels that are left inside a list or a record. -/
def enter (levels : Option Nat) : Except Fault (Option Nat) :=
  match Transcript.descend levels with
  | some levels => .ok levels
  | none => .error (.text .malformed)

/-- What an array that ends early leaves for the slots from `place` on. -/
def restOfSlots (record : Record) (place : Nat) : List Slot → Except Fault Datum
  | [] => .ok .nil
  | slot :: slots =>
    match slot.presence with
    | .defaulted value => do return .cons value (← restOfSlots record (place + 1) slots)
    | _ => .error (.shape (.tooFewItems place record))

/-- The fault of an array that goes on after its last slot. -/
def excess (source : Source) (count : Nat) : Fault :=
  match source with
  | .text => .text .malformed
  | .value => .shape (.tooManyItems count)

/-- The value of a slot after all members have been read. -/
def settle (slot : Slot) (found : Option Datum) : Except Fault Datum :=
  match found, slot.presence with
  | some value, _ => .ok value
  | none, .required => .error (.shape (.missingField slot.key))
  | none, .optional => .ok .absent
  | none, .defaulted value => .ok value

def settleAll (found : List (String × Datum)) : List Slot → Except Fault Datum
  | [] => .ok .nil
  | slot :: slots => do
    let value ← settle slot (found.lookup slot.key)
    return .cons value (← settleAll found slots)

/-- Steps over a value that no slot asks for. -/
def pass (value : Transcript) : Except Fault Unit :=
  match value.skipFault? with
  | some fault => .error (.text fault)
  | none => .ok ()

mutual

/-- Reads a value by a shape; where null may stand it means that nothing is there. -/
def read (source : Source) (levels : Option Nat) (nullable : Bool) (shape : Shape) :
    Transcript → Except Fault Datum
  | .null => if nullable then .ok .absent else .error (mismatch shape .null)
  | .string value =>
    if shape = .text then .ok (.text value) else .error (mismatch shape (.string value))
  | .boolean value =>
    if shape = .flag then .ok (.flag value) else .error (mismatch shape (.boolean value))
  | .array items =>
    match shape with
    | .list item => do
      let levels ← enter levels
      readItems source levels item items
    | .record record => do
      let levels ← enter levels
      readSlots source levels record record.slots 0 items
    | _ => .error (mismatch shape (.array items))
  | .object members =>
    match shape with
    | .record record => do
      let levels ← enter levels
      let found ← readMembers source levels record [] members
      settleAll found record.slots
    | _ => .error (mismatch shape (.object members))
  | .number value => .error (mismatch shape (.number value))
  | .flawed fault skip => .error (mismatch shape (.flawed fault skip))

def readItems (source : Source) (levels : Option Nat) (shape : Shape) :
    Items → Except Fault Datum
  | .closed => .ok .nil
  | .broken fault => .error (.text fault)
  | .cons head tail => do
    let value ← read source levels false shape head
    return .cons value (← readItems source levels shape tail)

/-- Reads the items of an array as the slots of a record from `place` on. -/
def readSlots (source : Source) (levels : Option Nat) (record : Record) (slots : List Slot)
    (place : Nat) : Items → Except Fault Datum
  | .closed => restOfSlots record place slots
  | .broken fault => .error (.text fault)
  | .cons head tail =>
    match slots with
    | [] => .error (excess source (place + 1 + tail.count))
    | slot :: slots => do
      let value ← read source levels slot.isNullable slot.shape head
      return .cons value (← readSlots source levels record slots (place + 1) tail)

/-- Reads the members of an object, collecting the values of the slots. -/
def readMembers (source : Source) (levels : Option Nat) (record : Record)
    (found : List (String × Datum)) : Members → Except Fault (List (String × Datum))
  | .closed => .ok found
  | .broken fault _ => .error (.text fault)
  | .cons none _ _ => .error (.text .malformed)
  | .cons (some key) value tail =>
    match record.slot? key with
    | none => do
      pass value
      readMembers source levels record found tail
    | some slot =>
      if (found.lookup key).isSome then .error (.shape (.duplicateField key))
      else do
        let datum ← read source levels slot.isNullable slot.shape value
        readMembers source levels record ((key, datum) :: found) tail

end

def readText (text : String) : Except Fault Datum := do
  let document := Json.transcribe text
  let datum ← read .text Source.text.levels false (.record .response) document.value
  if document.isComplete then return datum else throw (.text .malformed)

def readValue (value : Json) : Except Fault Datum :=
  read .value Source.value.levels false (.record .response) (Transcript.ofJson value)

end SchemaBinding.Introspection
