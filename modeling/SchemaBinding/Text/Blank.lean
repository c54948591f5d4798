/-!
# White space

The characters that Unicode counts as white space, and texts without those at
their ends.  Neither the zero-width characters nor the byte order mark are
among them.
-/

namespace SchemaBinding.Text

/-- The characters with the property White_Space. -/
def isBlank (c : Char) : Bool :=
  let n := c.toNat
  (0x09 ≤ n && n ≤ 0x0D) || n = 0x20 || n = 0x85 || n = 0xA0 || n = 0x1680 ||
    (0x2000 ≤ n && n ≤ 0x200A) || n = 0x2028 || n = 0x2029 || n = 0x202F || n = 0x205F ||
    n = 0x3000

def trimEnd (text : List Char) : List Char :=
  (text.reverse.dropWhile isBlank).reverse

def trim (text : List Char) : List Char :=
  trimEnd (text.dropWhile isBlank)

/-- Two strings that differ in white space at their ends at most. -/
def sameTrimmed (left right : String) : Bool :=
  trim left.toList = trim right.toList

end SchemaBinding.Text
