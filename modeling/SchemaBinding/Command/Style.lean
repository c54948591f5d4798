/-!
# Styled output

Parts of the output can be styled for a terminal: a style is a control
sequence before the text and the same reset after it.  Without a terminal the
text stands alone.
-/

namespace SchemaBinding.Command

inductive Style where
  | cyan
  | green
  | yellow
  | red
  | dimmed
  | boldRed
deriving DecidableEq, Repr

/-- The parameters of the control sequence of a style. -/
def Style.code : Style → String
  | .cyan => "36"
  | .green => "32"
  | .yellow => "33"
  | .red => "31"
  | .dimmed => "2"
  | .boldRed => "1;31"

/-- A text in a style, where output is styled. -/
def paint (styled : Bool) (style : Style) (text : String) : String :=
  if styled then "\x1b[" ++ style.code ++ "m" ++ text ++ "\x1b[0m" else text

end SchemaBinding.Command
