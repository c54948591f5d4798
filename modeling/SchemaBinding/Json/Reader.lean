import SchemaBinding.Json.Transcript

/-!
# Reading data documents

The text of a document is turned into its transcript in one pass.  Each step
takes the characters from its place on and gives back what it found there
with the characters behind it, or without them where the text breaks off.
-/

namespace SchemaBinding.Json

/-- The white space of data documents. -/
def isBlank (c : Char) : Bool :=
  c = ' ' || c = '\t' || c = '\n' || c = '\r'

def skipBlank (text : List Char) : List Char :=
  text.dropWhile isBlank

/-- What was found and the characters behind it, unless the text breaks off. -/
abbrev Found (α : Type) := α × Option (List Char)

/-- A place where the text breaks off for readers and for skipping alike. -/
def broken (fault : TextFault) : Found Transcript :=
  (.flawed fault (some fault), none)

def keyword (found : Transcript) : List Char → List Char → Found Transcript
  | [], text => (found, some text)
  | _ :: _, [] => broken .truncated
  | k :: ks, c :: cs => if c = k then keyword found ks cs else broken .malformed

def hexValue? (c : Char) : Option Nat :=
  if c.isDigit then some (c.toNat - '0'.toNat)
  else if 'a' ≤ c ∧ c ≤ 'f' then some (c.toNat - 'a'.toNat + 10)
  else if 'A' ≤ c ∧ c ≤ 'F' then some (c.toNat - 'A'.toNat + 10)
  else none

def codeUnit? (a b c d : Char) : Option Nat := do
  return (((← hexValue? a) * 16 + (← hexValue? b)) * 16 + (← hexValue? c)) * 16 + (← hexValue? d)

/-- The bytes that are left of a text, counted up to four. -/
def bytesLeft (text : List Char) : Nat :=
  (text.take 4).foldl (fun n c => n + c.utf8Size) 0

def shortEscape? (c : Char) : Option Char :=
  if c = '"' ∨ c = '\\' ∨ c = '/' then some c
  else if c = 'b' then some '\x08'
  else if c = 'f' then some '\x0c'
  else if c = 'n' then some '\n'
  else if c = 'r' then some '\r'
  else if c = 't' then some '\t'
  else none

/-- The characters of a string read so far. -/
structure StringState where
  /-- The characters, the last one first. -/
  gathered : List Char := []
  /-- The first half of a pair of code units whose second half is still missing. -/
  half : Option Nat := none
  /-- Half of a pair stood alone, so the string can only be skipped. -/
  unpaired : Bool := false

namespace StringState

/-- Adds a character that is no half of a pair. -/
def push (s : StringState) (c : Char) : StringState :=
  { gathered := c :: s.gathered, unpaired := s.unpaired || s.half.isSome }

def pushUnit (s : StringState) (unit : Nat) : StringState :=
  if 0xD800 ≤ unit ∧ unit < 0xDC00 then
    { s with half := some unit, unpaired := s.unpaired || s.half.isSome }
  else if 0xDC00 ≤ unit ∧ unit < 0xE000 then
    match s.half with
    | some high =>
      { s with
        gathered := Char.ofNat (0x10000 + (high - 0xD800) * 0x400 + (unit - 0xDC00)) :: s.gathered
        half := none }
    | none => { s with unpaired := true }
  else s.push (Char.ofNat unit)

end StringState

/-- A string: what can be read of it, and what skipping it meets. -/
structure StringToken where
  /-- The string, or the fault that a reader meets. -/
  read : Except TextFault String
  /-- The fault that skipping meets. -/
  skip : Option TextFault
  rest : List Char

/-- The place where a string breaks off: a reader has met an unpaired half before. -/
def StringState.stop (s : StringState) (fault : TextFault) : StringToken :=
  ⟨.error (if s.unpaired then .malformed else fault), some fault, []⟩

def StringState.close (s : StringState) (rest : List Char) : StringToken :=
  if s.unpaired || s.half.isSome then ⟨.error .malformed, none, rest⟩
  else ⟨.ok (String.ofList s.gathered.reverse), none, rest⟩

/-- The characters of a string up to its closing mark. -/
def stringToken (s : StringState) : List Char → StringToken
  | [] => s.stop .truncated
  | '"' :: rest => s.close rest
  | '\\' :: 'u' :: a :: b :: c :: d :: rest =>
    match codeUnit? a b c d with
    | some unit => stringToken (s.pushUnit unit) rest
    | none => s.stop .malformed
  | '\\' :: 'u' :: rest => s.stop (if bytesLeft rest < 4 then .truncated else .malformed)
  | '\\' :: c :: rest =>
    match shortEscape? c with
    | some c => stringToken (s.push c) rest
    | none => s.stop .malformed
  | ['\\'] => s.stop .truncated
  | c :: rest => if c.toNat < 0x20 then s.stop .malformed else stringToken (s.push c) rest

def stringValue (text : List Char) : Found Transcript :=
  let token := stringToken {} text
  let value := match token.read with
    | .ok s => .string s
    | .error fault => .flawed fault token.skip
  (value, if token.skip.isSome then none else some token.rest)

/-- A place where a number breaks off: at the end of the text only a reader
knows that something is missing. -/
def brokenNumber (text : List Char) : Found Transcript :=
  (.flawed (if text = [] then .truncated else .malformed) (some .malformed), none)

/-- A finished number; one that is too large can only be skipped. -/
def finishNumber (n : Numeral) (rest : List Char) : Found Transcript :=
  match n.value? with
  | some value => (.number value, some rest)
  | none => (.flawed .malformed none, some rest)

def exponentPart (n : Numeral) (text : List Char) : Found Transcript :=
  match text with
  | [] => finishNumber n []
  | c :: rest =>
    if c = 'e' ∨ c = 'E' then
      let (down, rest) := match rest with
        | '+' :: rest => (false, rest)
        | '-' :: rest => (true, rest)
        | rest => (false, rest)
      match rest.takeWhile Char.isDigit with
      | [] => brokenNumber rest
      | digits => finishNumber { n with exponent := some (down, digits) } (rest.dropWhile Char.isDigit)
    else finishNumber n text

def fractionPart (n : Numeral) (text : List Char) : Found Transcript :=
  match text with
  | '.' :: rest =>
    match rest.takeWhile Char.isDigit with
    | [] => brokenNumber rest
    | digits => exponentPart { n with fraction := some digits } (rest.dropWhile Char.isDigit)
  | _ => exponentPart n text

/-- A number behind its sign; a leading zero stands alone. -/
def numberValue (isNegative : Bool) (text : List Char) : Found Transcript :=
  match text.takeWhile Char.isDigit with
  | [] => brokenNumber text
  | '0' :: _ :: _ => broken .malformed
  | digits => fractionPart ⟨isNegative, digits, none, none⟩ (text.dropWhile Char.isDigit)

mutual

/-- A value from the next character on that is not white space. -/
def valueAt (fuel : Nat) (text : List Char) : Found Transcript :=
  match fuel with
  | 0 => broken .malformed
  | fuel + 1 =>
    match skipBlank text with
    | [] => broken .truncated
    | c :: rest =>
      if c = 'n' then keyword .null ['u', 'l', 'l'] rest
      else if c = 't' then keyword (.boolean true) ['r', 'u', 'e'] rest
      else if c = 'f' then keyword (.boolean false) ['a', 'l', 's', 'e'] rest
      else if c = '"' then stringValue rest
      else if c = '[' then
        let (items, rest) := itemsAt fuel true rest
        (.array items, rest)
      else if c = '\x7b' then
        let (members, rest) := membersAt fuel true rest
        (.object members, rest)
      else if c = '-' then numberValue true rest
      else if c.isDigit then numberValue false (c :: rest)
      else broken .malformed

def itemAt (fuel : Nat) (text : List Char) : Found Items :=
  match fuel with
  | 0 => (.broken .malformed, none)
  | fuel + 1 =>
    match valueAt fuel text with
    | (head, none) => (.cons head (.broken .malformed), none)
    | (head, some rest) =>
      let (tail, rest) := itemsAt fuel false rest
      (.cons head tail, rest)

/-- The items of an array from a place between them on. -/
def itemsAt (fuel : Nat) (first : Bool) (text : List Char) : Found Items :=
  match fuel with
  | 0 => (.broken .malformed, none)
  | fuel + 1 =>
    match skipBlank text with
    | [] => (.broken .truncated, none)
    | c :: rest =>
      if c = ']' then (.closed, some rest)
      else if first then itemAt fuel (c :: rest)
      else if c = ',' then
        match skipBlank rest with
        | ']' :: _ => (.broken .malformed, none)
        | _ => itemAt fuel rest
      else (.broken .malformed, none)

/-- A member, from behind the opening mark of its key on, and the members behind it. -/
def memberAt (fuel : Nat) (text : List Char) : Found Members :=
  match fuel with
  | 0 => (.broken .malformed .malformed, none)
  | fuel + 1 =>
    let key := stringToken {} text
    match key.skip with
    | some skip =>
      let read := match key.read with
        | .error fault => fault
        | .ok _ => skip
      (.broken read skip, none)
    | none =>
      let (value, rest) := match skipBlank key.rest with
        | [] => broken .truncated
        | c :: rest => if c = ':' then valueAt fuel rest else broken .malformed
      match rest with
      | none => (.cons key.read.toOption value (.broken .malformed .malformed), none)
      | some rest =>
        let (tail, rest) := membersAt fuel false rest
        (.cons key.read.toOption value tail, rest)

/-- The members of an object from a place between them on. -/
def membersAt (fuel : Nat) (first : Bool) (text : List Char) : Found Members :=
  match fuel with
  | 0 => (.broken .malformed .malformed, none)
  | fuel + 1 =>
    match skipBlank text with
    | [] => (.broken .truncated .truncated, none)
    | c :: rest =>
      if c = '\x7d' then (.closed, some rest)
      else if first then
        if c = '"' then memberAt fuel rest else (.broken .malformed .malformed, none)
      else if c = ',' then
        match skipBlank rest with
        | [] => (.broken .truncated .truncated, none)
        | '"' :: rest => memberAt fuel rest
        | _ => (.broken .malformed .malformed, none)
      else (.broken .malformed .malformed, none)

end

/-- The transcript of a whole text, and whether nothing stands behind its value. -/
structure Document where
  value : Transcript
  isComplete : Bool

def transcribe (text : String) : Document :=
  let chars := text.toList
  match valueAt (3 * chars.length + 4) chars with
  | (value, some rest) => ⟨value, skipBlank rest = []⟩
  | (value, none) => ⟨value, true⟩

/-- How deep arrays and objects may nest where their values are read. -/
def nestingLimit : Nat := 127

/-- The value of a text that is a document as a whole. -/
def parse? (levels : Option Nat) (text : String) : Option Json :=
  let document := transcribe text
  if document.isComplete then document.value.value? levels else none

end SchemaBinding.Json
