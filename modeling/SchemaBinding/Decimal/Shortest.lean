/-!
# Shortest decimals

A binary number is the value of many decimals: of all that round to it.  This
module finds the one with the fewest digits, and among those of that length
the nearest.  Everything is counted in natural numbers.
-/

namespace SchemaBinding.Decimal

/-- A positive number `mantissa * 2 ^ exponent`. -/
structure Binary where
  mantissa : Nat
  exponent : Int
  /-- The number below is only half as far away as the number above. -/
  narrowBelow : Bool
deriving DecidableEq, Repr

/-- Digits of a number below one, the first one after the point being in front,
and the power of ten it has to be multiplied by. -/
structure Digits where
  digits : List Char
  point : Int
deriving DecidableEq, Repr

namespace Binary

/-- A multiple of a quarter of the last place, as a fraction. -/
def quarters (b : Binary) (n : Nat) : Nat × Nat :=
  let shift := b.exponent - 2
  if 0 ≤ shift then (n * Nat.pow 2 shift.toNat, 1) else (n, Nat.pow 2 (-shift).toNat)

def value (b : Binary) : Nat × Nat :=
  b.quarters (4 * b.mantissa)

/-- Whether `count * 10 ^ scale` rounds to the number; the ends of the interval
do when the mantissa is even. -/
def contains (b : Binary) (count : Nat) (scale : Int) : Bool :=
  let up := Nat.pow 10 scale.toNat
  let down := Nat.pow 10 (-scale).toNat
  let low := b.quarters (4 * b.mantissa - (if b.narrowBelow then 1 else 2))
  let high := b.quarters (4 * b.mantissa + 2)
  let left := count * up
  if b.mantissa % 2 = 0 then
    low.1 * down ≤ left * low.2 && left * high.2 ≤ high.1 * down
  else
    low.1 * down < left * low.2 && left * high.2 < high.1 * down

/-- The largest `count` for which `count * 10 ^ scale` is at most the number. -/
def below (b : Binary) (scale : Int) : Nat :=
  b.value.1 * Nat.pow 10 (-scale).toNat / (b.value.2 * Nat.pow 10 scale.toNat)

/-- Whether `count + 1` is nearer than `count` on the grid of `10 ^ scale`; an
exact tie goes to the even one. -/
def upIsNearer (b : Binary) (count : Nat) (scale : Int) : Bool :=
  let twice := (2 * count + 1) * Nat.pow 10 scale.toNat * b.value.2
  let middle := 2 * b.value.1 * Nat.pow 10 (-scale).toNat
  twice < middle || (twice == middle && count % 2 == 1)

/-- The least `point`, from `start` on, with the number below `10 ^ point`. -/
def pointFrom (b : Binary) : Nat → Int → Int
  | 0, start => start
  | fuel + 1, start =>
    if b.below start = 0 then start else pointFrom b fuel (start + 1)

/-- The `point` with `10 ^ (point - 1)` at most the number and `10 ^ point` above it. -/
def point (b : Binary) : Int :=
  b.pointFrom 700 (-350)

/-- The best decimal on the grid of `10 ^ scale`, if one rounds to the number. -/
def onGrid? (b : Binary) (scale : Int) : Option Nat :=
  let count := b.below scale
  match b.contains count scale, b.contains (count + 1) scale with
  | true, true => some (if b.upIsNearer count scale then count + 1 else count)
  | true, false => some count
  | false, true => some (count + 1)
  | false, false => none

/-- The first grid with a hit, from `length` digits on. -/
def search (b : Binary) (point : Int) : Nat → Nat → Nat × Int
  | 0, length => (b.below (point - length), point - length)
  | fuel + 1, length =>
    match b.onGrid? (point - length) with
    | some count => (count, point - length)
    | none => search b point fuel (length + 1)

def shortest (b : Binary) : Digits :=
  let hit := b.search b.point 17 1
  let written := Nat.toDigits 10 hit.1
  ⟨(written.reverse.dropWhile (· = '0')).reverse, hit.2 + written.length⟩

end Binary

end SchemaBinding.Decimal
