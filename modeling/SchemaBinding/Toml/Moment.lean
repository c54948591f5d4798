import SchemaBinding.Toml.Digits

/-!
# Dates and times

A moment is a date, a time of day, or both, and with both it may say how far
its clock is from universal time.  A document may spell a moment in several
ways.  `Moment.text` is the one spelling that is shown: the seconds are always
there, and their fraction has at most nine digits and no zero at its end.
-/

namespace SchemaBinding.Toml

namespace Moment

structure Date where
  year : Nat
  month : Nat
  day : Nat
deriving DecidableEq, Repr, Inhabited

structure Time where
  hour : Nat
  minute : Nat
  second : Nat
  nanosecond : Nat
deriving DecidableEq, Repr, Inhabited

/-- How far a clock is from universal time. -/
inductive Offset where
  | universal
  | ahead (minutes : Int)
deriving DecidableEq, Repr, Inhabited

end Moment

inductive Moment where
  | dateOnly (date : Moment.Date)
  | timeOnly (time : Moment.Time)
  | both (date : Moment.Date) (time : Moment.Time) (offset? : Option Moment.Offset)
deriving DecidableEq, Repr, Inhabited

namespace Moment

/-- A number of two digits that is at most `most`. -/
def twoDigits? (most : Nat) : List Char → Option (Nat × List Char)
  | a :: b :: rest =>
    if a.isDigit && b.isDigit && numberOf 10 [a, b] ≤ most then some (numberOf 10 [a, b], rest)
    else none
  | _ => none

def expect? (c : Char) : List Char → Option (List Char)
  | d :: rest => if d = c then some rest else none
  | [] => none

def daysOf (year month : Nat) : Nat :=
  if month = 2 then
    if (year % 4 = 0 ∧ year % 100 ≠ 0) ∨ year % 400 = 0 then 29 else 28
  else if month = 4 ∨ month = 6 ∨ month = 9 ∨ month = 11 then 30
  else 31

def date? (text : List Char) : Option (Date × List Char) := do
  let digits := text.take 4
  if digits.length < 4 || !digits.all Char.isDigit then none
  let year := numberOf 10 digits
  let rest ← expect? '-' (text.drop 4)
  let (month, rest) ← twoDigits? 12 rest
  let rest ← expect? '-' rest
  let (day, rest) ← twoDigits? 31 rest
  if 1 ≤ month ∧ 1 ≤ day ∧ day ≤ daysOf year month then some (⟨year, month, day⟩, rest) else none

/-- The nanoseconds that the digits of a fraction say; digits beyond the ninth say nothing. -/
def nanosecondsOf (digits : List Char) : Nat :=
  let kept := digits.take 9
  numberOf 10 (kept ++ List.replicate (9 - kept.length) '0')

def fraction? : List Char → Option (Nat × List Char)
  | '.' :: rest =>
    match rest.takeWhile Char.isDigit with
    | [] => none
    | digits => some (nanosecondsOf digits, rest.dropWhile Char.isDigit)
  | rest => some (0, rest)

/-- A time of day and the characters behind it.  The seconds may be left out, and a
leap second counts as one. -/
def time? (text : List Char) : Option (Time × List Char) := do
  let (hour, rest) ← twoDigits? 23 text
  let rest ← expect? ':' rest
  let (minute, rest) ← twoDigits? 59 rest
  match rest with
  | ':' :: rest => do
    let (second, rest) ← twoDigits? 60 rest
    let (nanosecond, rest) ← fraction? rest
    return (⟨hour, minute, second, nanosecond⟩, rest)
  | rest => return (⟨hour, minute, 0, 0⟩, rest)

/-- What the text behind a date and a time says about universal time, if it is all text there is. -/
def zone? : List Char → Option (Option Offset)
  | [] => some none
  | ['Z'] => some (some .universal)
  | ['z'] => some (some .universal)
  | sign :: rest => do
    if sign ≠ '+' ∧ sign ≠ '-' then none
    let (hours, rest) ← twoDigits? 23 rest
    let rest ← expect? ':' rest
    let (minutes, rest) ← twoDigits? 59 rest
    let distance : Int := hours * 60 + minutes
    if rest.isEmpty then some (some (.ahead (if sign = '-' then -distance else distance)))
    else none

def read? (text : List Char) : Option Moment :=
  match date? text with
  | some (date, []) => some (.dateOnly date)
  | some (date, c :: rest) =>
    if c = 'T' ∨ c = 't' ∨ c = ' ' then do
      let (time, rest) ← time? rest
      return .both date time (← zone? rest)
    else none
  | none =>
    match time? text with
    | some (time, []) => some (.timeOnly time)
    | _ => none

def Date.text (date : Date) : List Char :=
  padded 4 date.year ++ '-' :: padded 2 date.month ++ '-' :: padded 2 date.day

/-- The fraction of a second, without zeros at its end. -/
def fractionText (nanosecond : Nat) : List Char :=
  if nanosecond = 0 then []
  else '.' :: ((padded 9 nanosecond).reverse.dropWhile (· = '0')).reverse

def Time.text (time : Time) : List Char :=
  padded 2 time.hour ++ ':' :: padded 2 time.minute ++ ':' :: padded 2 time.second ++
    fractionText time.nanosecond

def Offset.text : Offset → List Char
  | .universal => ['Z']
  | .ahead minutes =>
    (if minutes < 0 then '-' else '+') :: padded 2 (minutes.natAbs / 60) ++
      ':' :: padded 2 (minutes.natAbs % 60)

def text : Moment → String
  | .dateOnly date => String.ofList date.text
  | .timeOnly time => String.ofList time.text
  | .both date time offset? =>
    String.ofList (date.text ++ 'T' :: time.text ++ (offset?.map Offset.text).getD [])

end Moment

end SchemaBinding.Toml
