import Scriptlet.Binary.Number

namespace Scriptlet

/-!
# Shortest decimals

The decimal with the fewest digits among those that round to a given number, and of those the
nearest to it. The digits are found grid by grid: on the grid of `n`-digit decimals only the two
neighbours of the number can be the answer.
-/

/-- The decimal `± d₁.d₂…dₙ × 10 ^ exponent`. -/
structure Decimal where
  negative : Bool
  digits : List Nat
  exponent : Int
  deriving DecidableEq

/-- The number of decimal digits; one for zero. -/
def digitCount (n : Nat) : Nat :=
  if n < 10 then 1 else digitCount (n / 10) + 1

/-- The decimal digits, most significant first. -/
def digitsOf (n : Nat) : List Nat :=
  go n []
where
  go (n : Nat) (rest : List Nat) : List Nat :=
    if n < 10 then n :: rest else go (n / 10) (n % 10 :: rest)

namespace Decimal

/-- The exponent of the leading digit of a positive quotient. -/
def leading (num den : Nat) : Int :=
  if den ≤ num then (digitCount (num / den) : Int) - 1
  else -(digitCount ((den - 1) / num) : Int)

/-- An interval of quotients with one denominator, with or without its ends. -/
structure Interval where
  low : Nat
  high : Nat
  den : Nat
  closed : Bool

/-- Whether `num / d` lies in the interval. -/
def Interval.contains (i : Interval) (num d : Nat) : Bool :=
  if i.closed then i.low * d ≤ num * i.den && num * i.den ≤ i.high * d
  else i.low * d < num * i.den && num * i.den < i.high * d

/-- A one with `n` zeros behind it, in decimal. -/
def tenTo (n : Nat) : Nat :=
  Nat.pow 10 n

/-- The multiple of `10 ^ e` next to `num / den` that lies in the interval, as a multiplier; the
nearer one if both do, and the greater one in a tie. -/
def pick (i : Interval) (num den : Nat) (e : Int) : Option Nat :=
  let up := tenTo e.toNat
  let down := tenTo (-e).toNat
  let scaled := num * down
  let step := den * up
  let below := scaled / step
  let rest := scaled % step
  let hit (k : Nat) : Bool := i.contains (k * up) down
  if rest = 0 then some below
  else if hit (below + 1) && (step ≤ 2 * rest || !hit below) then some (below + 1)
  else if hit below then some below
  else none

/-- The first grid with a decimal in the interval, trying `count` digits, `count + 1` digits and so
on. -/
def search (i : Interval) (num den : Nat) (lead : Int) : Nat → Nat → List Nat × Int
  | 0, _ => ([], lead)
  | fuel + 1, count =>
      match pick i num den (lead + 1 - count) with
      | some k =>
          if k = tenTo count then ([1], lead + 1) else (digitsOf k, lead)
      | none => search i num den lead fuel (count + 1)

/-- The quotients of four units that round to the number with these units, in quarters of a unit. -/
def roundingInterval (f : Binary.Format) (units : Nat) : Interval :=
  let s := f.shift units
  let half := 2 <<< s
  let below := if 0 < s ∧ units = 1 <<< (f.precision - 1 + s) then 1 <<< s else half
  ⟨4 * units - below, 4 * units + half, 4 * f.one, (units >>> s) % 2 == 0⟩

/-- The shortest decimal of the number with these units. -/
def ofUnits (f : Binary.Format) (negative : Bool) (units : Nat) : Decimal :=
  if units = 0 then ⟨negative, [0], 0⟩
  else
    let (digits, exponent) :=
      search (roundingInterval f units) units f.one (leading units f.one) (f.precision + 1) 1
    ⟨negative, digits, exponent⟩

end Decimal

end Scriptlet
