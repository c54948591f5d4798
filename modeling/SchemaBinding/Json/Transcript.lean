import SchemaBinding.Json.Value
import SchemaBinding.KeyOrder

/-!
# Transcripts of data documents

A transcript says what a text holds as far as it can be read, in the order of
the text, with every defect at its place.  Readers walk through it in order,
so of two faults the one that comes first in the text is the one they meet.
What is read and what is only skipped differ: some defects matter to a reader
alone, so a defect says what it means to either.
-/

namespace SchemaBinding.Json

/-- How a text can fail to be a document. -/
inductive TextFault where
  | malformed
  | truncated
deriving DecidableEq, Repr, Inhabited

mutual

/-- What a text holds where a value is expected, as far as it can be read. -/
inductive Transcript where
  | null
  | boolean (value : Bool)
  | number (value : Number)
  | string (value : String)
  | array (items : Items)
  | object (members : Members)
  /-- A value that cannot be read; it can be skipped unless that fails too. -/
  | flawed (read : TextFault) (skip : Option TextFault)

/-- What a text holds inside an array. -/
inductive Items where
  | closed
  /-- Neither another item nor the end of the array. -/
  | broken (fault : TextFault)
  | cons (head : Transcript) (tail : Items)

/-- What a text holds inside an object. -/
inductive Members where
  | closed
  /-- Neither another member nor the end of the object. -/
  | broken (read skip : TextFault)
  /-- A member; its key is missing where it can only be skipped. -/
  | cons (key : Option String) (value : Transcript) (tail : Members)

end

instance : Inhabited Transcript := ⟨.null⟩

namespace Items

def count : Items → Nat
  | closed => 0
  | broken _ => 0
  | cons _ tail => tail.count + 1

def ofList : List Transcript → Items
  | [] => closed
  | head :: tail => cons head (ofList tail)

end Items

def Members.ofList : List (String × Transcript) → Members
  | [] => closed
  | (key, value) :: tail => cons (some key) value (ofList tail)

namespace Transcript

mutual

/-- The fault that skipping a value meets. -/
def skipFault? : Transcript → Option TextFault
  | flawed _ skip => skip
  | array items => skipItemsFault? items
  | object members => skipMembersFault? members
  | null => none
  | boolean _ => none
  | number _ => none
  | string _ => none

def skipItemsFault? : Items → Option TextFault
  | .closed => none
  | .broken fault => some fault
  | .cons head tail => head.skipFault?.or (skipItemsFault? tail)

def skipMembersFault? : Members → Option TextFault
  | .closed => none
  | .broken _ skip => some skip
  | .cons _ value tail => value.skipFault?.or (skipMembersFault? tail)

end

mutual

/-- The transcript of a value, its members in the order of their keys. -/
def ofJson : Json → Transcript
  | .null => .null
  | .boolean b => .boolean b
  | .number n => .number n
  | .string s => .string s
  | .array values => .array (.ofList (ofJsonList values))
  | .object members => .object (.ofList (KeyOrder.sort (ofJsonMembers members)))

def ofJsonList : List Json → List Transcript
  | [] => []
  | value :: values => ofJson value :: ofJsonList values

def ofJsonMembers : List (String × Json) → List (String × Transcript)
  | [] => []
  | (key, value) :: members => (key, ofJson value) :: ofJsonMembers members

end

/-- One level further down, unless the levels are used up. -/
def descend : Option Nat → Option (Option Nat)
  | none => some none
  | some 0 => none
  | some (levels + 1) => some (some levels)

mutual

/-- The value of a transcript without defects that nests at most `levels` deep. -/
def value? (levels : Option Nat) : Transcript → Option Json
  | null => some .null
  | boolean b => some (.boolean b)
  | number n => some (.number n)
  | string s => some (.string s)
  | array items => do
    let levels ← descend levels
    return .array (← itemValues? levels items)
  | object members => do
    let levels ← descend levels
    return .object (← memberValues? levels members)
  | flawed _ _ => none

def itemValues? (levels : Option Nat) : Items → Option (List Json)
  | .closed => some []
  | .broken _ => none
  | .cons head tail => do
    let value ← head.value? levels
    return value :: (← itemValues? levels tail)

def memberValues? (levels : Option Nat) : Members → Option (List (String × Json))
  | .closed => some []
  | .broken _ _ => none
  | .cons none _ _ => none
  | .cons (some key) value tail => do
    let value ← value.value? levels
    return (key, value) :: (← memberValues? levels tail)

end

end Transcript

end SchemaBinding.Json
