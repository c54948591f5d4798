import SchemaBinding.Text.Lines

/-!
# Comments in the binding

Descriptions become block comments.  The end mark of a comment is broken up
inside them, so a description never ends its comment.
-/

namespace SchemaBinding.Binding

/-- Breaks up every end mark of a comment. -/
def escapeComment : List Char → List Char
  | '*' :: '/' :: rest => '*' :: '\\' :: '/' :: escapeComment rest
  | c :: rest => c :: escapeComment rest
  | [] => []

def commentLines (text : String) : List String :=
  (Text.lines (escapeComment text.toList)).map String.ofList

/-- A row of the comment above a declaration.  A row that would end in a star
between blanks, as the row of an empty line does, ends in the star. -/
def starRow (line : String) : String :=
  let row := [' ', '*', ' '] ++ line.toList
  String.ofList (if [' ', '*', ' '].isSuffixOf row then row.dropLast else row) ++ "\n"

def declarationComment (docs : Bool) : Option String → String
  | some text =>
    if docs then "/*\n" ++ String.join ((commentLines text).map starRow) ++ " */\n" else ""
  | none => ""

/-- What the comment above a field says: its description, then its deprecation. -/
def fieldRemarks (description deprecation : Option String) : List String :=
  (description.map commentLines).getD [] ++
    (deprecation.map fun reason =>
      "@deprecated " ++ String.ofList (escapeComment reason.toList)).toList

/-- The comment above a field: one remark stands on one line. -/
def fieldComment (docs : Bool) (description deprecation : Option String) : String :=
  if docs then
    match fieldRemarks description deprecation with
    | [] => ""
    | [remark] => "  /** " ++ remark ++ " */\n"
    | remarks =>
      "  /**\n" ++ String.join (remarks.map fun remark => "   * " ++ remark ++ "\n") ++
        "   */\n"
  else ""

end SchemaBinding.Binding
