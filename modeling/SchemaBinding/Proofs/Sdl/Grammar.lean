import SchemaBinding.Proofs.Sdl.Token
import SchemaBinding.Schema

/-!
# The grammar of schema documents

A schema document is a row of definitions: of the schema itself, of types and
of directives.  The readers below take the tokens of one rule of the grammar
from the front of a row of tokens and hand on the rest.  Each rule starts with
a token that tells it apart from its alternatives, so none of them looks back.

What has been read is kept as a tree.  Constants are kept as their tokens.
-/

namespace SchemaBinding.Sdl

/-! ## Trees -/

namespace Tree

open Reader (Token)

structure Directive where
  name : String
  /-- The arguments with the tokens of their values. -/
  arguments : List (String × List Token) := []
deriving DecidableEq, Repr, Inhabited

/-- An argument of a field, or a field of an input object. -/
structure InputValue where
  description : Option Token := none
  name : String
  type : TypeRef
  default : Option (List Token) := none
  directives : List Directive := []
deriving DecidableEq, Repr, Inhabited

structure Field where
  description : Option Token := none
  name : String
  arguments : List InputValue := []
  type : TypeRef
  directives : List Directive := []
deriving DecidableEq, Repr, Inhabited

structure EnumValue where
  description : Option Token := none
  name : String
  directives : List Directive := []
deriving DecidableEq, Repr, Inhabited

inductive Body where
  | scalar
  | object (interfaces : List String) (fields : List Field)
  | interface (interfaces : List String) (fields : List Field)
  | union (members : List String)
  | enumeration (values : List EnumValue)
  | inputObject (fields : List InputValue)
deriving DecidableEq, Repr, Inhabited

inductive Definition where
  | schema (description : Option Token) (directives : List Directive)
      (roots : List (Operation × String))
  | type (description : Option Token) (name : String) (directives : List Directive) (body : Body)
  | directive (description : Option Token) (name : String) (arguments : List InputValue)
      (isRepeatable : Bool) (locations : List String)
deriving DecidableEq, Repr, Inhabited

end Tree

/-! ## Readers -/

namespace Reader

/-- Takes what it reads from the front of a row of tokens. -/
abbrev Rule (α : Type) : Type :=
  List Token → Option (α × List Token)

def takeName : Rule String
  | .name text :: rest => some (text, rest)
  | _ => none

def takeMark (c : Char) : Rule Unit
  | .mark d :: rest => if d = c then some ((), rest) else none
  | _ => none

/-- Items up to a closing punctuator, at least one of them.  An item that
takes no token ends the reading. -/
def takeUntil {α : Type} (close : Char) (item : Rule α) (tokens : List Token) :
    Option (List α × List Token) :=
  match item tokens with
  | none => none
  | some (x, rest) =>
    if rest.head? = some (.mark close) then some ([x], rest.tail)
    else if rest.length < tokens.length then
      (takeUntil close item rest).map fun (xs, rest) => (x :: xs, rest)
    else none
termination_by tokens.length

/-- Items between two punctuators, or nothing. -/
def takeGroup {α : Type} (opening close : Char) (item : Rule α) : Rule (List α) := fun tokens =>
  if tokens.head? = some (.mark opening) then takeUntil close item tokens.tail
  else some ([], tokens)

/-- Items with a punctuator before each of them. -/
def takeEach {α : Type} (mark : Char) (item : Rule α) (tokens : List Token) :
    Option (List α × List Token) :=
  if tokens.head? = some (.mark mark) then
    match item tokens.tail with
    | none => none
    | some (x, rest) =>
      if rest.length < tokens.length then
        (takeEach mark item rest).map fun (xs, rest) => (x :: xs, rest)
      else none
  else some ([], tokens)
termination_by tokens.length

/-- Names with a punctuator between them, which may also stand before the first. -/
def takeNames (mark : Char) : Rule (List String) := fun tokens =>
  if tokens.head? = some (.mark mark) then takeEach mark takeName tokens
  else do
    let (first, tokens) ← takeName tokens
    let (others, tokens) ← takeEach mark takeName tokens
    some (first :: others, tokens)

/-! ### Constants -/

/-- What is due inside a constant. -/
inductive Due where
  | value
  /-- An item of a list, or its end. -/
  | items
  /-- A member of an object, or its end. -/
  | members
  | colon
deriving DecidableEq, Repr

/-- What is due after the first token of a value. -/
def afterValue : Token → Option (List Due)
  | .name _ | .number _ | .string _ | .blockString _ => some []
  | .mark c =>
    if c = '[' then some [.items] else if c = '\x7b' then some [.members] else none
  | _ => none

def Due.after : Due → Token → Option (List Due)
  | value, token => afterValue token
  | items, token =>
    if token = .mark ']' then some [] else (afterValue token).map (· ++ [items])
  | members, .name _ => some [colon, value, members]
  | members, token => if token = .mark '\x7d' then some [] else none
  | colon, token => if token = .mark ':' then some [] else none

/-- The tokens of all that is due. -/
def takeDue : List Due → List Token → Option (List Token × List Token)
  | [], tokens => some ([], tokens)
  | _ :: _, [] => none
  | due :: dues, token :: tokens =>
    (due.after token).bind fun more =>
      (takeDue (more ++ dues) tokens).map fun (taken, rest) => (token :: taken, rest)

/-- The tokens of a constant value: a number, a string, a name, a list of
constants or an object of them. -/
def takeConstant : Rule (List Token) :=
  takeDue [.value]

/-! ### Parts of definitions -/

def takeDescription : List Token → Option Token × List Token
  | .string text :: rest => (some (.string text), rest)
  | .blockString text :: rest => (some (.blockString text), rest)
  | tokens => (none, tokens)

/-- Takes the mark of a type that is never null, if it is there. -/
def takeNonNull (type : TypeRef) (tokens : List Token) : TypeRef × List Token :=
  if tokens.head? = some (.mark '!') then (.nonNull type, tokens.tail) else (type, tokens)

def takeType : List Token → Option (TypeRef × List Token)
  | .name text :: rest => some (takeNonNull (.named text) rest)
  | .mark '[' :: rest => do
    let (inner, rest) ← takeType rest
    let ((), rest) ← takeMark ']' rest
    some (takeNonNull (.list inner) rest)
  | _ => none

def takeArgument : Rule (String × List Token) := fun tokens => do
  let (name, tokens) ← takeName tokens
  let ((), tokens) ← takeMark ':' tokens
  let (value, tokens) ← takeConstant tokens
  some ((name, value), tokens)

/-- A use of a directive behind its sign. -/
def takeDirective : Rule Tree.Directive := fun tokens => do
  let (name, tokens) ← takeName tokens
  let (arguments, tokens) ← takeGroup '(' ')' takeArgument tokens
  some (⟨name, arguments⟩, tokens)

def takeDirectives : Rule (List Tree.Directive) :=
  takeEach '@' takeDirective

def takeDefault : Rule (Option (List Token)) := fun tokens =>
  if tokens.head? = some (.mark '=') then
    (takeConstant tokens.tail).map fun (value, rest) => (some value, rest)
  else some (none, tokens)

def takeInputValue : Rule Tree.InputValue := fun tokens => do
  let (description, tokens) := takeDescription tokens
  let (name, tokens) ← takeName tokens
  let ((), tokens) ← takeMark ':' tokens
  let (type, tokens) ← takeType tokens
  let (default, tokens) ← takeDefault tokens
  let (directives, tokens) ← takeDirectives tokens
  some ({ description, name, type, default, directives }, tokens)

def takeField : Rule Tree.Field := fun tokens => do
  let (description, tokens) := takeDescription tokens
  let (name, tokens) ← takeName tokens
  let (arguments, tokens) ← takeGroup '(' ')' takeInputValue tokens
  let ((), tokens) ← takeMark ':' tokens
  let (type, tokens) ← takeType tokens
  let (directives, tokens) ← takeDirectives tokens
  some ({ description, name, arguments, type, directives }, tokens)

/-- The names that are constants of another sort than the values of an enumeration. -/
def reservedNames : List String :=
  ["true", "false", "null"]

def takeEnumValue : Rule Tree.EnumValue := fun tokens => do
  let (description, tokens) := takeDescription tokens
  let (name, tokens) ← takeName tokens
  if name ∈ reservedNames then none
  else do
    let (directives, tokens) ← takeDirectives tokens
    some ({ description, name, directives }, tokens)

def operation? (keyword : String) : Option Operation :=
  Operation.all.find? fun operation => operation.keyword == keyword

def takeRoot : Rule (Operation × String) := fun tokens => do
  let (keyword, tokens) ← takeName tokens
  let operation ← operation? keyword
  let ((), tokens) ← takeMark ':' tokens
  let (name, tokens) ← takeName tokens
  some ((operation, name), tokens)

/-- The interfaces that a type implements, if it says so. -/
def takeImplements : Rule (List String) := fun tokens =>
  if tokens.head? = some (.name "implements") then takeNames '&' tokens.tail
  else some ([], tokens)

/-- The members of a union, if it says them. -/
def takeMembers : Rule (List String) := fun tokens =>
  if tokens.head? = some (.mark '=') then takeNames '|' tokens.tail
  else some ([], tokens)

/-! ### Definitions -/

def takeSchema (description : Option Token) : Rule Tree.Definition := fun tokens => do
  let (directives, tokens) ← takeDirectives tokens
  let ((), tokens) ← takeMark '\x7b' tokens
  let (roots, tokens) ← takeUntil '\x7d' takeRoot tokens
  some (.schema description directives roots, tokens)

/-- The definition of a directive behind its keyword. -/
def takeDirectiveDefinition (description : Option Token) : Rule Tree.Definition := fun tokens => do
  let ((), tokens) ← takeMark '@' tokens
  let (name, tokens) ← takeName tokens
  let (arguments, tokens) ← takeGroup '(' ')' takeInputValue tokens
  let (keyword, tokens) ← takeName tokens
  let isRepeatable := keyword = "repeatable"
  let (keyword, tokens) ← if isRepeatable then takeName tokens else some (keyword, tokens)
  if keyword = "on" then do
    let (locations, tokens) ← takeNames '|' tokens
    some (.directive description name arguments isRepeatable locations, tokens)
  else none

/-- The body of a type definition of the kind that a keyword names, with its directives. -/
def takeBody (keyword : String) : Rule (List Tree.Directive × Tree.Body) := fun tokens => do
  let (interfaces, tokens) ←
    if keyword = "type" ∨ keyword = "interface" then takeImplements tokens else some ([], tokens)
  let (directives, tokens) ← takeDirectives tokens
  let (body, tokens) ←
    if keyword = "scalar" then
      some (.scalar, tokens)
    else if keyword = "type" then
      (takeGroup '\x7b' '\x7d' takeField tokens).map fun (fields, rest) =>
        (.object interfaces fields, rest)
    else if keyword = "interface" then
      (takeGroup '\x7b' '\x7d' takeField tokens).map fun (fields, rest) =>
        (.interface interfaces fields, rest)
    else if keyword = "union" then
      (takeMembers tokens).map fun (members, rest) => (.union members, rest)
    else if keyword = "enum" then
      (takeGroup '\x7b' '\x7d' takeEnumValue tokens).map fun (values, rest) =>
        (.enumeration values, rest)
    else if keyword = "input" then
      (takeGroup '\x7b' '\x7d' takeInputValue tokens).map fun (fields, rest) =>
        (.inputObject fields, rest)
    else none
  some ((directives, body), tokens)

def takeDefinition : Rule Tree.Definition := fun tokens => do
  let (description, tokens) := takeDescription tokens
  let (keyword, tokens) ← takeName tokens
  if keyword = "schema" then takeSchema description tokens
  else if keyword = "directive" then takeDirectiveDefinition description tokens
  else do
    let (name, tokens) ← takeName tokens
    let ((directives, body), tokens) ← takeBody keyword tokens
    some (.type description name directives body, tokens)

/-- The definitions that a row of tokens consists of; a row without tokens has none. -/
def definitions (tokens : List Token) : Option (List Tree.Definition) :=
  if tokens = [] then some []
  else
    match takeDefinition tokens with
    | none => none
    | some (definition, rest) =>
      if rest.length < tokens.length then (definitions rest).map (definition :: ·) else none
termination_by tokens.length

/-- The definitions of a document; every character of it is accounted for. -/
def read (text : String) : Option (List Tree.Definition) := do
  let tokens ← scan text.toList
  definitions (tokens.filter (!·.isComment))

end Reader

end SchemaBinding.Sdl
