/-!
# Tokens of schema documents

A reader of schema documents first cuts a text into tokens: names, numbers,
strings in single quotation marks or between fences, punctuators and comments.
White space, line ends, commas and byte order marks stand between tokens and
mean nothing.  A name or a number goes on as far as it can, so where a token
ends depends on the character behind it.
-/

namespace SchemaBinding.Sdl.Reader

inductive Token where
  /-- A punctuator of one character. -/
  | mark (c : Char)
  | spread
  | name (text : String)
  | number (text : List Char)
  /-- A string between quotation marks, its escapes left as they stand. -/
  | string (text : List Char)
  /-- A string between fences, its escaped fences opened. -/
  | blockString (text : List Char)
  | comment (text : List Char)
deriving DecidableEq, Repr, Inhabited

def Token.isComment : Token → Bool
  | comment _ => true
  | _ => false

/-- None of these tokens is a comment. -/
def Bare (tokens : List Token) : Prop :=
  ∀ token ∈ tokens, token.isComment = false

instance (tokens : List Token) : Decidable (Bare tokens) :=
  inferInstanceAs (Decidable (∀ token ∈ tokens, token.isComment = false))

theorem bare_nil : Bare [] := by
  simp [Bare]

theorem bare_append {ts us : List Token} (hts : Bare ts) (hus : Bare us) : Bare (ts ++ us) := by
  intro token htoken
  rcases List.mem_append.mp htoken with hleft | hright
  · exact hts token hleft
  · exact hus token hright

theorem bare_singleton {token : Token} (h : token.isComment = false) : Bare [token] := by
  simpa [Bare] using h

/-! ## Classes of characters -/

/-- White space, line ends, the comma and the byte order mark. -/
def isIgnored (c : Char) : Bool :=
  c ∈ [' ', '\t', '\n', '\r', ',', '\uFEFF']

def isMark (c : Char) : Bool :=
  c ∈ ['!', '$', '&', '(', ')', ':', '=', '@', '[', ']', '\x7b', '|', '\x7d']

def isNameStart (c : Char) : Bool :=
  c.isAlpha || c = '_'

def isNameChar (c : Char) : Bool :=
  c.isAlphanum || c = '_'

def isName (text : String) : Bool :=
  match text.toList with
  | [] => false
  | c :: cs => isNameStart c && cs.all isNameChar

def isHexDigit (c : Char) : Bool :=
  c.isDigit || c ∈ "abcdefABCDEF".toList

/-- The characters that a backslash may stand before in a string, `u` apart. -/
def isEscapable (c : Char) : Bool :=
  c ∈ ['"', '\\', '/', 'b', 'f', 'n', 'r', 't']

def isLineEnd (c : Char) : Bool :=
  c = '\n' || c = '\r'

/-! ## Numbers -/

/-- What has been read, and the characters behind it. -/
abbrev Taken : Type :=
  List Char × List Char

/-- Puts characters before what has been read. -/
def Taken.prepend (front : List Char) (taken : Taken) : Taken :=
  (front ++ taken.1, taken.2)

def takeDigits (cs : List Char) : Option Taken :=
  if cs.takeWhile Char.isDigit = [] then none
  else some (cs.takeWhile Char.isDigit, cs.dropWhile Char.isDigit)

/-- A natural number, which has no zeros in front. -/
def takeNatural : List Char → Option Taken
  | '0' :: cs => some (['0'], cs)
  | cs => takeDigits cs

def takeWhole : List Char → Option Taken
  | '-' :: cs => (takeNatural cs).map (Taken.prepend ['-'])
  | cs => takeNatural cs

def takeFraction : List Char → Option Taken
  | '.' :: cs => (takeDigits cs).map (Taken.prepend ['.'])
  | cs => some ([], cs)

def takeSigned : List Char → Option Taken
  | '+' :: cs => (takeDigits cs).map (Taken.prepend ['+'])
  | '-' :: cs => (takeDigits cs).map (Taken.prepend ['-'])
  | cs => takeDigits cs

def takeExponent : List Char → Option Taken
  | [] => some ([], [])
  | c :: cs =>
    if c = 'e' || c = 'E' then (takeSigned cs).map (Taken.prepend [c])
    else some ([], c :: cs)

/-- Whether a number may end before these characters. -/
def mayEndNumber : List Char → Bool
  | [] => true
  | c :: _ => !isNameChar c && c != '.'

def takeNumber (cs : List Char) : Option Taken := do
  let (whole, cs) ← takeWhole cs
  let (fraction, cs) ← takeFraction cs
  let (exponent, cs) ← takeExponent cs
  if mayEndNumber cs then some (whole ++ fraction ++ exponent, cs) else none

/-! ## Strings -/

/-- Whether hexadecimal digits and a closing brace come next. -/
def opensCode (cs : List Char) : Bool :=
  cs.takeWhile isHexDigit != [] && (cs.dropWhile isHexDigit).head? == some '\x7d'

/-- The rest of a string up to its closing quotation mark. -/
def takeString : List Char → Option Taken
  | [] => none
  | '"' :: cs => some ([], cs)
  | '\\' :: 'u' :: '\x7b' :: cs =>
    if opensCode cs then (takeString cs).map (Taken.prepend ['\\', 'u', '\x7b']) else none
  | '\\' :: 'u' :: a :: b :: c :: d :: cs =>
    if [a, b, c, d].all isHexDigit then
      (takeString cs).map (Taken.prepend ['\\', 'u', a, b, c, d])
    else none
  | '\\' :: c :: cs =>
    if isEscapable c then (takeString cs).map (Taken.prepend ['\\', c]) else none
  | c :: cs =>
    if isLineEnd c || c = '\\' then none else (takeString cs).map (Taken.prepend [c])

def takeBlock : List Char → Option Taken
  | '\\' :: '"' :: '"' :: '"' :: cs => (takeBlock cs).map (Taken.prepend ['"', '"', '"'])
  | '"' :: '"' :: '"' :: cs => some ([], cs)
  | c :: cs => (takeBlock cs).map (Taken.prepend [c])
  | [] => none

/-- The rest of a string of either sort behind its first quotation mark. -/
def takeQuoted : List Char → Option (Token × List Char)
  | '"' :: '"' :: cs => (takeBlock cs).map fun taken => (.blockString taken.1, taken.2)
  | cs => (takeString cs).map fun taken => (.string taken.1, taken.2)

/-! ## Texts -/

def takeSpread : List Char → Option (Token × List Char)
  | '.' :: '.' :: cs => some (.spread, cs)
  | _ => none

/-- The token that starts with `c`, and the characters behind it. -/
def takeToken (c : Char) (cs : List Char) : Option (Token × List Char) :=
  if isNameStart c then
    some (.name (String.ofList (c :: cs.takeWhile isNameChar)), cs.dropWhile isNameChar)
  else if isMark c then
    some (.mark c, cs)
  else if c = '"' then
    takeQuoted cs
  else if c = '#' then
    some (.comment (cs.takeWhile (!isLineEnd ·)), cs.dropWhile (!isLineEnd ·))
  else if c = '.' then
    takeSpread cs
  else
    (takeNumber (c :: cs)).map fun taken => (.number taken.1, taken.2)

/-- The tokens of a text.  Every token takes its first character at least,
which the check of the lengths tells the recursion. -/
def scan (cs : List Char) : Option (List Token) :=
  match cs with
  | [] => some []
  | c :: rest =>
    if isIgnored c then scan rest
    else
      match takeToken c rest with
      | none => none
      | some (token, after) =>
        if after.length ≤ rest.length then (scan after).map (token :: ·) else none
termination_by cs.length
decreasing_by all_goals (simp only [List.length_cons]; omega)

theorem scan_nil : scan [] = some [] := by
  rw [scan]

theorem scan_cons_of_isIgnored
    {c : Char} (rest : List Char) (h : isIgnored c = true) :
    scan (c :: rest) = scan rest := by
  rw [scan]
  simp [h]

theorem scan_append_of_isIgnored
    {front : List Char} (h : ∀ c ∈ front, isIgnored c = true) (cs : List Char) :
    scan (front ++ cs) = scan cs := by
  induction front with
  | nil => rfl
  | cons c front ih =>
    rw [List.cons_append, scan_cons_of_isIgnored _ (h c (by simp))]
    exact ih fun d hd => h d (List.mem_cons_of_mem c hd)

theorem scan_cons_of_takeToken
    {c : Char} {rest after : List Char} {token : Token}
    (hc : isIgnored c = false) (htake : takeToken c rest = some (token, after))
    (hlength : after.length ≤ rest.length) :
    scan (c :: rest) = (scan after).map (token :: ·) := by
  rw [scan]
  simp [hc, htake, hlength]

end SchemaBinding.Sdl.Reader
