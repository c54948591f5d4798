/-!
# Lines of a text

A text is cut at its line feeds.  A carriage return right before a line feed
belongs to the line end, a lone one does not, and a text that ends in a line
feed has no empty last line.  The cutting itself is kept apart from the rule
for line ends, since paths are cut at slashes by the same function.
-/

namespace SchemaBinding.Text

/-- The pieces of a text between the occurrences of `separator`; there is always one. -/
def split (separator : Char) : List Char → List (List Char)
  | [] => [[]]
  | c :: cs =>
    if c = separator then
      [] :: split separator cs
    else
      match split separator cs with
      | [] => [[c]]
      | piece :: pieces => (c :: piece) :: pieces

/-- A line without the carriage return that belongs to its line end. -/
def dropReturn (line : List Char) : List Char :=
  if line.getLast? = some '\r' then line.dropLast else line

/-- Reads the pieces between line feeds as lines: only the last one had no line feed. -/
def closeLines : List (List Char) → List (List Char)
  | [] => []
  | [last] => if last = [] then [] else [last]
  | piece :: rest => dropReturn piece :: closeLines rest

/-- The lines of a text; the empty text has none. -/
def lines (text : List Char) : List (List Char) :=
  closeLines (split '\n' text)

theorem split_ne_nil
    (separator : Char) (text : List Char) :
    split separator text ≠ [] := by
  cases text with
  | nil => simp [split]
  | cons c cs =>
    simp only [split]
    split
    · simp
    · split <;> simp

end SchemaBinding.Text
