import SchemaBinding.Toml.Lexical
import SchemaBinding.Toml.Value

/-!
# Values without quotation marks

Numbers, dates, times and truth values are written without marks.  Such a
value is first taken from the text as a whole and then recognised; what is
not recognised as a whole is no value.

How a number is written and what it is worth are two questions.  A number may
be written by the rules and yet be too large, or have no value at all: it is
then a value that cannot be used.
-/

namespace SchemaBinding.Toml

def splitSign : List Char → Bool × List Char
  | '+' :: rest => (false, rest)
  | '-' :: rest => (true, rest)
  | text => (false, text)

/-- Whether each underscore stands between two digits, where `last` is the character in front. -/
def isGroupedAfter (isDigit : Char → Bool) : Char → List Char → Bool
  | _, [] => true
  | last, '_' :: rest =>
    isDigit last && rest.head?.any isDigit && isGroupedAfter isDigit '_' rest
  | _, c :: rest => isGroupedAfter isDigit c rest

def isGrouped (isDigit : Char → Bool) (text : List Char) : Bool :=
  isGroupedAfter isDigit '_' text

def dropUnderscores (text : List Char) : List Char :=
  text.filter (· ≠ '_')

/-- Whether a text is a row of digits, at least one. -/
def isDigits (isDigit : Char → Bool) (text : List Char) : Bool :=
  !text.isEmpty && text.all isDigit

/-- The largest whole numbers of either sign that can be kept. -/
def isKeepable (n : Int) : Bool :=
  -Int.ofNat (Nat.pow 2 127) ≤ n && n < Int.ofNat (Nat.pow 2 128)

/-- A whole number with a sign, if it can be kept. -/
def wholeValue (written : List Char) (isNegative : Bool) (magnitude : Nat) : Value :=
  let n := if isNegative then -(magnitude : Int) else (magnitude : Int)
  if isKeepable n then .integer n else .unusable (String.ofList written)

/-- A whole number in another base, from behind the mark of the base on.  Without
digits it cannot be used. -/
def basedInteger? (base : Nat) (isDigit : Char → Bool) (text : List Char) : Option Value :=
  let digits := dropUnderscores text
  if !isGrouped isHex text || !digits.all isDigit then none
  else if digits.isEmpty then some (.unusable (String.ofList text))
  else some (wholeValue text false (numberOf base digits))

/-- A whole number.  A zero in front stands alone.  The digits behind an underscore may be of
a larger base, and other characters than spaces may stand among them: then it cannot be used. -/
def decimalInteger? (text : List Char) : Option Value :=
  let (isNegative, unsigned) := splitSign text
  let behind := unsigned.dropWhile Char.isDigit
  if unsigned.isEmpty || !isGrouped isHex text || text.contains ' ' then none
  else if unsigned.head? = some '0' ∧ unsigned ≠ ['0'] then none
  else if !behind.isEmpty && behind.head? ≠ some '_' then none
  else
    let digits := dropUnderscores unsigned
    if digits.all Char.isDigit then some (wholeValue text isNegative (numberOf 10 digits))
    else some (.unusable (String.ofList text))

/-- Whether `digits * 10 ^ scale` rounds to a finite floating point number. -/
def isFinite (digits : Nat) (scale : Int) : Bool :=
  if digits = 0 then true
  else
    let size := (Nat.toDigits 10 digits).length + scale
    if size < 309 then true
    else if 309 < size then false
    else digits * Nat.pow 10 scale.toNat <
      (Nat.pow 2 1024 - Nat.pow 2 970) * Nat.pow 10 (-scale).toNat

def isExponentMark (c : Char) : Bool :=
  c = 'e' || c = 'E'

def exponent? (text : List Char) : Option Int :=
  let (isNegative, digits) := splitSign text
  if !isDigits Char.isDigit digits then none
  else some (if isNegative then -(numberOf 10 digits : Int) else (numberOf 10 digits : Int))

/-- A number with a point or an exponent.  A zero in front stands alone before the point. -/
def pointNumber? (text : List Char) : Option Value := do
  let (_, unsigned) := splitSign text
  let plain := dropUnderscores unsigned
  let mantissa := plain.takeWhile (!isExponentMark ·)
  let exponent ← match plain.dropWhile (!isExponentMark ·) with
    | [] => some 0
    | _ :: rest => exponent? rest
  let whole := mantissa.takeWhile (· ≠ '.')
  let fraction ← match mantissa.dropWhile (· ≠ '.') with
    | [] => some []
    | _ :: digits => if isDigits Char.isDigit digits then some digits else none
  if !isGrouped Char.isDigit text || !isDigits Char.isDigit whole then none
  else if unsigned.head? = some '0' ∧ 1 < whole.length then none
  else if isFinite (numberOf 10 (whole ++ fraction)) (exponent - fraction.length) then
    some (.float (String.ofList (dropUnderscores text)))
  else some (.unusable (String.ofList text))

def number? (text : List Char) : Option Value :=
  match text with
  | '0' :: 'x' :: rest => basedInteger? 16 isHex rest
  | '0' :: 'o' :: rest => basedInteger? 8 isOctal rest
  | '0' :: 'b' :: rest => basedInteger? 2 isBinary rest
  | _ =>
    let unsigned := (splitSign text).2
    if unsigned = ['i', 'n', 'f'] ∨ unsigned = ['n', 'a', 'n'] then
      some (.float (String.ofList text))
    else if unsigned.any fun c => c = '.' || isExponentMark c then pointNumber? text
    else decimalInteger? text

def bareValue? (text : List Char) : Option Value :=
  if text = ['t', 'r', 'u', 'e'] then some (.boolean true)
  else if text = ['f', 'a', 'l', 's', 'e'] then some (.boolean false)
  else ((Moment.read? text).map .moment).or (number? text)

/-- The characters that end a value without quotation marks in any case. -/
def endsBare (c : Char) : Bool :=
  c ∈ ['=', ',', '[', ']', '\x7b', '\x7d', '#', '\r', '\n']

/-- Whether what follows is a word without quotation marks, where blanks may stand in front. -/
def wordFollows (text : List Char) : Bool :=
  (skipBlank text).head?.any fun c => !endsBare c && c ≠ '"' && c ≠ '\x27'

/-- Words with blanks between them and the characters behind them, from inside such
blanks on or not. -/
def takeWords (inBlanks : Bool) : List Char → List Char × List Char
  | [] => ([], [])
  | c :: rest =>
    if endsBare c || (isBlank c && !inBlanks && !wordFollows rest) then ([], c :: rest)
    else
      let (words, rest) := takeWords (isBlank c) rest
      (c :: words, rest)

/-- A value without quotation marks and the characters behind it.  Words with blanks
between them are taken as one value, as a date and a time are. -/
def takeBare (text : List Char) : List Char × List Char :=
  takeWords false text

end SchemaBinding.Toml
