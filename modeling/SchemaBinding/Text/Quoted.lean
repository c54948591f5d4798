import SchemaBinding.Text.Hidden

/-!
# Strings in messages

A message shows a string between quotation marks in a form that leaves no
doubt about its characters: the usual short escapes, and the code of every
character that has no picture of its own.
-/

namespace SchemaBinding.Text

def hexText (n : Nat) : List Char :=
  Nat.toDigits 16 n

/-- A character as a message shows it. -/
def displayChar (c : Char) : List Char :=
  if c = '"' then ['\\', '"']
  else if c = '\\' then ['\\', '\\']
  else if c = '\n' then ['\\', 'n']
  else if c = '\r' then ['\\', 'r']
  else if c = '\t' then ['\\', 't']
  else if c.toNat = 0 then ['\\', '0']
  else if isHidden c then '\\' :: 'u' :: '\x7b' :: hexText c.toNat ++ ['\x7d']
  else [c]

def display (text : String) : String :=
  String.ofList ('"' :: text.toList.flatMap displayChar ++ ['"'])

end SchemaBinding.Text
