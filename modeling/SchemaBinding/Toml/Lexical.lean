/-!
# Blanks, comments and strings of configuration documents

The smallest parts of a configuration document.  Each reader takes the
characters from its place on and gives back what it read with the characters
behind it, or nothing where the text does not follow the rules.
-/

namespace SchemaBinding.Toml

/-- The white space inside a line. -/
def isBlank (c : Char) : Bool :=
  c = ' ' || c = '\t'

def skipBlank (text : List Char) : List Char :=
  text.dropWhile isBlank

/-- The characters that may stand in comments and between quotation marks. -/
def isPlain (c : Char) : Bool :=
  c = '\t' || (0x20 ≤ c.toNat && c.toNat ≠ 0x7F)

/-- The characters behind a line end. -/
def lineEnd? : List Char → Option (List Char)
  | '\n' :: rest => some rest
  | '\r' :: '\n' :: rest => some rest
  | _ => none

/-- The characters behind a comment, if one starts here: its line end is left. -/
def skipComment : List Char → List Char
  | '#' :: rest => rest.dropWhile isPlain
  | text => text

/-- The characters behind the rest of a line that holds nothing more. -/
def closeLine? (text : List Char) : Option (List Char) :=
  match skipComment (skipBlank text) with
  | [] => some []
  | rest => lineEnd? rest

/-- Steps over blanks, comments and line ends, from inside a comment on or not. -/
def skipLines : Bool → List Char → List Char
  | _, [] => []
  | _, '\n' :: rest => skipLines false rest
  | _, '\r' :: '\n' :: rest => skipLines false rest
  | true, c :: rest => if isPlain c then skipLines true rest else c :: rest
  | false, c :: rest =>
    if isBlank c then skipLines false rest
    else if c = '#' then skipLines true rest
    else c :: rest

/-- The characters from the next one on that is no blank, comment or line end. -/
def skipGap (text : List Char) : List Char :=
  skipLines false text

def hexValue? (c : Char) : Option Nat :=
  if c.isDigit then some (c.toNat - '0'.toNat)
  else if 'a' ≤ c ∧ c ≤ 'f' then some (c.toNat - 'a'.toNat + 10)
  else if 'A' ≤ c ∧ c ≤ 'F' then some (c.toNat - 'A'.toNat + 10)
  else none

/-- The character with a code of `count` hexadecimal digits. -/
def coded? (count : Nat) (text : List Char) : Option (Char × List Char) := do
  let digits := text.take count
  if digits.length < count then none
  let code ← digits.foldlM (fun n c => (hexValue? c).map (n * 16 + ·)) 0
  if code.isValidChar then some (Char.ofNat code, text.drop count) else none

/-- A character given by an escape, from behind the backslash on. -/
def escaped? : List Char → Option (Char × List Char)
  | 'b' :: rest => some ('\x08', rest)
  | 't' :: rest => some ('\t', rest)
  | 'n' :: rest => some ('\n', rest)
  | 'f' :: rest => some ('\x0c', rest)
  | 'r' :: rest => some ('\r', rest)
  | 'e' :: rest => some ('\x1b', rest)
  | '"' :: rest => some ('"', rest)
  | '\\' :: rest => some ('\\', rest)
  | 'x' :: rest => coded? 2 rest
  | 'u' :: rest => coded? 4 rest
  | 'U' :: rest => coded? 8 rest
  | _ => none

/-- A string on one line, from behind its opening mark on. -/
def basicString? : Nat → List Char → List Char → Option (String × List Char)
  | 0, _, _ => none
  | _ + 1, _, [] => none
  | fuel + 1, gathered, c :: rest =>
    if c = '"' then some (String.ofList gathered.reverse, rest)
    else if c = '\\' then
      match escaped? rest with
      | some (c, rest) => basicString? fuel (c :: gathered) rest
      | none => none
    else if isPlain c then basicString? fuel (c :: gathered) rest
    else none

/-- A string on one line without escapes, from behind its opening mark on. -/
def literalString? (text : List Char) : Option (String × List Char) :=
  match text.dropWhile fun c => isPlain c && c ≠ '\x27' with
  | '\x27' :: rest => some (String.ofList (text.takeWhile fun c => isPlain c && c ≠ '\x27'), rest)
  | _ => none

/-- A line end right behind the opening marks does not belong to the string. -/
def dropFirstLineEnd (text : List Char) : List Char :=
  (lineEnd? text).getD text

/-- The end of a string of several lines, if it is here: up to two marks before
the closing ones belong to the string. -/
def closing? (mark : Char) (text : List Char) : Option (Nat × List Char) :=
  let marks := (text.takeWhile (· = mark)).length
  if marks < 3 then none
  else
    let kept := min (marks - 3) 2
    some (kept, text.drop (kept + 3))

/-- The characters from the next one on that is neither blank nor part of a line end. -/
def skipEmptyLines : List Char → List Char
  | '\n' :: rest => skipEmptyLines rest
  | '\r' :: '\n' :: rest => skipEmptyLines rest
  | c :: rest => if isBlank c then skipEmptyLines rest else c :: rest
  | [] => []

/-- The characters behind a backslash at the end of a line, blanks and line ends
before the next line's text included. -/
def joinedLine? (text : List Char) : Option (List Char) :=
  (lineEnd? (skipBlank text)).map skipEmptyLines

/-- The carriage returns that a string of several lines may hold: those of line ends. -/
def isLineChar (c : Char) (rest : List Char) : Bool :=
  isPlain c || c = '\n' || (c = '\r' && rest.head? == some '\n')

/-- A string of several lines, from behind its opening marks on. -/
def longString? (mark : Char) (escapes : Bool) :
    Nat → List Char → List Char → Option (String × List Char)
  | 0, _, _ => none
  | _ + 1, _, [] => none
  | fuel + 1, gathered, c :: rest =>
    match closing? mark (c :: rest) with
    | some (kept, rest) =>
      some (String.ofList (gathered.reverse ++ List.replicate kept mark), rest)
    | none =>
      if escapes && c = '\\' then
        match joinedLine? rest with
        | some rest => longString? mark escapes fuel gathered rest
        | none =>
          match escaped? rest with
          | some (c, rest) => longString? mark escapes fuel (c :: gathered) rest
          | none => none
      else if isLineChar c rest then longString? mark escapes fuel (c :: gathered) rest
      else none

/-- A string of any of the four kinds, if one starts here and the text allows it. -/
def string? (text : List Char) : Option (String × List Char) :=
  match text with
  | '"' :: '"' :: '"' :: rest =>
    longString? '"' true (rest.length + 1) [] (dropFirstLineEnd rest)
  | '\x27' :: '\x27' :: '\x27' :: rest =>
    longString? '\x27' false (rest.length + 1) [] (dropFirstLineEnd rest)
  | '"' :: rest => basicString? (rest.length + 1) [] rest
  | '\x27' :: rest => literalString? rest
  | _ => none

/-- The characters of a key without quotation marks. -/
def isBare (c : Char) : Bool :=
  c.isAlphanum || c = '_' || c = '-'

def key? (text : List Char) : Option (String × List Char) :=
  match text with
  | '"' :: rest => basicString? (rest.length + 1) [] rest
  | '\x27' :: rest => literalString? rest
  | _ =>
    match text.takeWhile isBare with
    | [] => none
    | name => some (String.ofList name, text.dropWhile isBare)

/-- Keys with points between them; there is at least one, and at most `most`. -/
def keys? (most : Nat) (text : List Char) : Option ((List String × String) × List Char) :=
  match most with
  | 0 => none
  | most + 1 => do
    let (first, rest) ← key? (skipBlank text)
    match skipBlank rest with
    | '.' :: rest =>
      let ((path, last), rest) ← keys? most rest
      return ((first :: path, last), rest)
    | rest => return (([], first), rest)

end SchemaBinding.Toml
