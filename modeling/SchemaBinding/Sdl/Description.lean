import SchemaBinding.Text.Lines

/-!
# Descriptions in schema documents

A description is printed as a block string right before what it describes.
Three quotation marks in a row inside it are escaped.  A text of one line
stays between its marks unless a reader would trim it or close it early;
every other text is laid out with one line per row, indented like what it
describes.
-/

namespace SchemaBinding.Sdl

/-- The three quotation marks around a block string. -/
def fence : List Char :=
  ['"', '"', '"']

/-- Escapes every occurrence of three quotation marks, from the left. -/
def escapeFence : List Char → List Char
  | '"' :: '"' :: '"' :: rest => '\\' :: '"' :: '"' :: '"' :: escapeFence rest
  | c :: rest => c :: escapeFence rest
  | [] => []

def startsBlank : List Char → Bool
  | c :: _ => c = ' ' || c = '\t'
  | [] => false

/-- Whether closing marks right after a text would be read as part of it. -/
def endsOpen (text : List Char) : Bool :=
  text.getLast? == some '"' || text.getLast? == some '\\'

/-- A row of a laid out description; an empty line is not indented. -/
def layOutLine (indent line : List Char) : List Char :=
  (if line = [] then [] else indent ++ line) ++ ['\n']

/-- A block string with one line per row.  A first line that starts blank stays
next to the opening marks, where a reader does not count it as indentation. -/
def layOut (indent text : List Char) : List Char :=
  let rows := Text.lines text
  let first := if startsBlank text then rows.headD [] else []
  let rest := if startsBlank text then rows.drop 1 else rows
  indent ++ fence ++ first ++ ['\n'] ++ rest.flatMap (layOutLine indent) ++
    indent ++ fence ++ ['\n']

/-- A block string that holds `text`, up to and including its line end. -/
def blockString (indent text : List Char) : List Char :=
  let escaped := escapeFence text
  if '\n' ∈ escaped ∨ startsBlank escaped ∨ endsOpen escaped then
    layOut indent escaped
  else
    indent ++ fence ++ escaped ++ fence ++ ['\n']

/-- The block string of a description, or nothing where there is none. -/
def describe (indent : String) : Option String → String
  | none => ""
  | some text => String.ofList (blockString indent.toList text.toList)

end SchemaBinding.Sdl
