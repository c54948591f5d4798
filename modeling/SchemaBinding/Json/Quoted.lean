/-!
# Quoted strings

A string is quoted with the escapes that data documents and schema documents
share: a quotation mark and a backslash are escaped, a control character is
written by its short escape or by its code, and every other character stands
for itself.
-/

namespace SchemaBinding.Json

def hexDigit (n : Nat) : Char :=
  Nat.digitChar (n % 16)

/-- A character as it stands between quotation marks. -/
def escapeChar (c : Char) : List Char :=
  if c = '"' then ['\\', '"']
  else if c = '\\' then ['\\', '\\']
  else if c = '\x08' then ['\\', 'b']
  else if c = '\x0c' then ['\\', 'f']
  else if c = '\n' then ['\\', 'n']
  else if c = '\r' then ['\\', 'r']
  else if c = '\t' then ['\\', 't']
  else if c.toNat < 0x20 then
    ['\\', 'u', '0', '0', hexDigit (c.toNat / 16), hexDigit c.toNat]
  else [c]

/-- A text between quotation marks, with its escapes. -/
def quoteChars (text : List Char) : List Char :=
  '"' :: text.flatMap escapeChar ++ ['"']

def quote (text : String) : String :=
  String.ofList (quoteChars text.toList)

end SchemaBinding.Json
