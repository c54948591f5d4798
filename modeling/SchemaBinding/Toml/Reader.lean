import SchemaBinding.Toml.Bare
import SchemaBinding.Toml.Layout
import SchemaBinding.Toml.Lexical

/-!
# Reading configuration documents

A document is a list of lines: headings, assignments and lines that hold
nothing.  Inside brackets and braces lines may end wherever a blank may stand,
except between keys that points join.
-/

namespace SchemaBinding.Toml

/-- How deep brackets and braces may nest, and how many keys may stand together with points
between them. -/
def nestingLimit : Nat := 80

/-- A refusal that shows the start of what is left of the text. -/
def refuse {α : Type} (rest : List Char) : Except Fault α :=
  .error (.malformed (String.ofList (rest.take 40)))

/-- What was read, or a refusal of what is left of the text. -/
def orRefuse {α : Type} (rest : List Char) : Option α → Except Fault α
  | some found => .ok found
  | none => refuse rest

/-- Keys in front of an assignment or in a heading. -/
def readKeys (text : List Char) : Except Fault ((List String × String) × List Char) :=
  orRefuse text (keys? nestingLimit text)

mutual

def readValue (fuel levels : Nat) (text : List Char) : Except Fault (Value × List Char) :=
  match fuel with
  | 0 => refuse text
  | fuel + 1 =>
    match text with
    | [] => refuse []
    | '[' :: rest => do
      if levels = 0 then refuse text
      let (items, rest) ← readItems fuel (levels - 1) rest
      return (.array items, rest)
    | '\x7b' :: rest => do
      if levels = 0 then refuse text
      let (nodes, rest) ← readPairs fuel (levels - 1) [] rest
      return (.table (finishEntries nodes), rest)
    | c :: _ =>
      if c = '"' ∨ c = '\x27' then do
        let (found, rest) ← orRefuse text (string? text)
        return (.string found, rest)
      else do
        let (word, rest) := takeBare text
        let value ← orRefuse text (bareValue? word)
        return (value, rest)

/-- The items of an array, from behind its opening bracket or a comma on. -/
def readItems (fuel levels : Nat) (text : List Char) : Except Fault (List Value × List Char) :=
  match fuel with
  | 0 => refuse text
  | fuel + 1 =>
    match skipGap text with
    | ']' :: rest => .ok ([], rest)
    | start => do
      let (value, rest) ← readValue fuel levels start
      match skipGap rest with
      | ']' :: rest => return ([value], rest)
      | ',' :: rest => do
        let (values, rest) ← readItems fuel levels rest
        return (value :: values, rest)
      | rest => refuse rest

/-- The entries of a table in braces, from behind its opening brace or a comma on. -/
def readPairs (fuel levels : Nat) (nodes : Nodes) (text : List Char) :
    Except Fault (Nodes × List Char) :=
  match fuel with
  | 0 => refuse text
  | fuel + 1 =>
    match skipGap text with
    | '\x7d' :: rest => .ok (nodes, rest)
    | start => do
      let ((path, key), rest) ← readKeys start
      match skipGap rest with
      | '=' :: rest => do
        let (value, rest) ← readValue fuel levels (skipGap rest)
        let nodes ← nodes.assign path key value
        match skipGap rest with
        | '\x7d' :: rest => return (nodes, rest)
        | ',' :: rest => readPairs fuel levels nodes rest
        | rest => refuse rest
      | rest => refuse rest

end

/-- A document while it is read: its tables, and the path of the last heading. -/
structure Draft where
  nodes : Nodes := []
  heading : List String := []

/-- The keys of a heading in brackets and the characters behind its line. -/
def readHeading (closing : List Char) (text : List Char) :
    Except Fault ((List String × String) × List Char) := do
  let (keys, rest) ← readKeys text
  let start := skipBlank rest
  if closing.isPrefixOf start then do
    let rest ← orRefuse start (closeLine? (start.drop closing.length))
    return (keys, rest)
  else refuse start

def readStatement (draft : Draft) (text : List Char) : Except Fault (Draft × List Char) :=
  match text with
  | '[' :: '[' :: rest => do
    let ((path, key), rest) ← readHeading [']', ']'] rest
    return (⟨← draft.nodes.openElement path key, path ++ [key]⟩, rest)
  | '[' :: rest => do
    let ((path, key), rest) ← readHeading [']'] rest
    return (⟨← draft.nodes.openTable path key, path ++ [key]⟩, rest)
  | _ => do
    let ((path, key), rest) ← readKeys text
    match skipBlank rest with
    | '=' :: rest => do
      let (value, rest) ← readValue (2 * rest.length + 2) nestingLimit (skipBlank rest)
      let rest ← orRefuse rest (closeLine? rest)
      let nodes ← draft.nodes.assignUnder draft.heading path key value
      return (⟨nodes, draft.heading⟩, rest)
    | rest => refuse rest

def readLines : Nat → Draft → List Char → Except Fault Draft
  | 0, _, text => refuse text
  | fuel + 1, draft, text =>
    match skipGap text with
    | [] => .ok draft
    | start => do
      let (draft, rest) ← readStatement draft start
      readLines fuel draft rest

/-- The characters behind a byte order mark, if the text starts with one. -/
def skipMark : List Char → List Char
  | '\ufeff' :: rest => rest
  | text => text

def read (text : String) : Except Fault Entries := do
  let chars := skipMark text.toList
  let draft ← readLines (chars.length + 1) {} chars
  return finishEntries draft.nodes

end SchemaBinding.Toml
