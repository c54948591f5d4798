import SchemaBinding.Decimal.Shortest

/-!
# Numbers of a data document

A number without a fraction and an exponent is kept exactly when it fits into
a machine word, and every other number is a floating point number.  The
digits are gathered in a word as long as they fit, the others only shift the
point, and the power of ten is multiplied in afterwards.
-/

namespace SchemaBinding

inductive Json.Number where
  | natural (value : Nat)
  /-- The number `-value`. -/
  | negative (value : Nat)
  | real (value : Float)
deriving Repr, Inhabited

namespace Json

def wordMax : Nat := 18446744073709551615

/-- The largest exponent that is counted. -/
def exponentMax : Nat := 2147483647

/-- A number as it is written: its sign, the digits around the point and the
signed digits of the exponent. -/
structure Numeral where
  isNegative : Bool
  whole : List Char
  fraction : Option (List Char)
  /-- Whether the exponent is negative, and its digits. -/
  exponent : Option (Bool × List Char)
deriving DecidableEq, Repr

/-- Gathers digits onto `gathered` while they fit into a word, and counts them. -/
def gather (gathered : Nat) : List Char → Nat × Nat
  | [] => (gathered, 0)
  | c :: cs =>
    let next := gathered * 10 + (c.toNat - '0'.toNat)
    if next ≤ wordMax then
      let (result, count) := gather next cs
      (result, count + 1)
    else (gathered, 0)

def digitsValue (digits : List Char) : Nat :=
  digits.foldl (fun n c => n * 10 + (c.toNat - '0'.toNat)) 0

def powerOfTen (n : Nat) : Float :=
  Float.ofScientific 1 false n

/-- Divides by large powers of ten until the rest of a negative power fits. -/
def scaleDown (x : Float) : Nat → Nat → Float
  | 0, _ => x
  | fuel + 1, n =>
    if n ≤ 308 then x / powerOfTen n
    else if x == 0 then x
    else scaleDown (x / powerOfTen 308) fuel (n - 308)

/-- The floating point number `gathered * 10 ^ scale`, if it is finite. -/
def scaled? (gathered : Nat) (scale : Int) : Option Float :=
  let x := Float.ofNat gathered
  if 0 ≤ scale then
    if scale ≤ 308 then
      let y := x * powerOfTen scale.toNat
      if y.isInf then none else some y
    else if x == 0 then some x
    else none
  else some (scaleDown x 8 (-scale).toNat)

def signed (isNegative : Bool) (x : Float) : Float :=
  if isNegative then -x else x

namespace Numeral

/-- The digits that fit into a word and the power of ten they stand before,
leaving the written exponent aside. -/
def gathered (n : Numeral) : Nat × Int :=
  let (whole, count) := gather 0 n.whole
  let skipped := n.whole.length - count
  match n.fraction with
  | none => (whole, skipped)
  | some digits =>
    let (all, more) := gather whole digits
    (all, (skipped : Int) - more)

/-- The value of a number with a point, an exponent or too many digits. -/
def real? (n : Numeral) : Option Float :=
  let (digits, scale) := n.gathered
  match n.exponent with
  | none => (scaled? digits scale).map (signed n.isNegative)
  | some (down, written) =>
    let power := digitsValue written
    if exponentMax < power then
      if digits = 0 ∨ down then some (signed n.isNegative 0) else none
    else
      (scaled? digits (if down then scale - power else scale + power)).map (signed n.isNegative)

/-- The value of a numeral; nothing when it is too large. -/
def value? (n : Numeral) : Option Number :=
  let whole := digitsValue n.whole
  if n.fraction.isSome ∨ n.exponent.isSome ∨ wordMax < whole then n.real?.map .real
  else if !n.isNegative then some (.natural whole)
  else if whole = 0 ∨ 9223372036854775808 < whole then some (.real (-(Float.ofNat whole)))
  else some (.negative whole)

end Numeral

/-- The magnitude of a floating point number, unless it is zero. -/
def binary? (x : Float) : Option Decimal.Binary :=
  let bits := x.toBits.toNat
  let fraction : Nat := bits % Nat.pow 2 52
  let place : Nat := bits / Nat.pow 2 52 % Nat.pow 2 11
  if place = 0 then
    if fraction = 0 then none else some ⟨fraction, -1074, false⟩
  else
    some ⟨Nat.pow 2 52 + fraction, (place : Int) - 1075, fraction = 0 ∧ 1 < place⟩

def zeros (n : Int) : List Char :=
  List.replicate n.toNat '0'

def signedExponent (n : Int) : List Char :=
  if n < 0 then (toString n).toList else '+' :: (toString n).toList

/-- Digits with a point; numbers that are very large or very small have an
exponent, and every number shows that it is not a whole one. -/
def pointed (d : Decimal.Digits) : List Char :=
  let length : Int := d.digits.length
  if length ≤ d.point ∧ d.point ≤ 16 then d.digits ++ zeros (d.point - length) ++ ['.', '0']
  else if 0 < d.point ∧ d.point ≤ 16 then
    d.digits.take d.point.toNat ++ '.' :: d.digits.drop d.point.toNat
  else if -5 < d.point ∧ d.point ≤ 0 then '0' :: '.' :: zeros (-d.point) ++ d.digits
  else
    d.digits.take 1 ++ (if d.digits.length = 1 then [] else '.' :: d.digits.drop 1) ++
      'e' :: signedExponent (d.point - 1)

def realText (x : Float) : String :=
  let sign := if Nat.pow 2 63 ≤ x.toBits.toNat then "-" else ""
  match binary? x with
  | none => sign ++ "0.0"
  | some b => sign ++ String.ofList (pointed b.shortest)

end Json

end SchemaBinding
