namespace Scriptlet.Binary

/-!
# Binary floating-point formats

Every finite number of a format is a whole number of its smallest positive number, its *unit*. So a
number is decoded to a sign and a natural number of units, exact arithmetic on numbers is arithmetic
on natural numbers, and rounding is one division.
-/

/-- A format with `precision` significand bits, the leading one included, and `width` exponent
bits. -/
structure Format where
  precision : Nat
  width : Nat
  deriving DecidableEq

def single : Format := ⟨24, 8⟩

def double : Format := ⟨53, 11⟩

namespace Format

/-- The units of the number one are a one with `scale` zeros behind it. -/
def scale (f : Format) : Nat :=
  (1 <<< (f.width - 1)) + f.precision - 3

/-- The units of the number one. -/
def one (f : Format) : Nat :=
  1 <<< f.scale

/-- The units of the largest finite number. -/
def largest (f : Format) : Nat :=
  ((1 <<< f.precision) - 1) <<< ((1 <<< f.width) - 3)

/-- How many places the units of a number are shifted to leave at most `precision` bits. -/
def shift (f : Format) (units : Nat) : Nat :=
  if units < 1 <<< f.precision then 0 else units.log2 + 1 - f.precision

end Format

inductive Datum where
  | finite (negative : Bool) (units : Nat)
  | infinite (negative : Bool)
  | nan
  deriving DecidableEq

/-- The quotient rounded to the nearest whole number, a half to the even one. -/
def nearest (num den : Nat) : Nat :=
  let q := num / den
  let r := num % den
  if 2 * r < den then q
  else if den < 2 * r then q + 1
  else q + q % 2

namespace Format

def decode (f : Format) (bits : Nat) : Datum :=
  let fraction := bits % (1 <<< (f.precision - 1))
  let exponent := (bits >>> (f.precision - 1)) % (1 <<< f.width)
  let negative := (bits >>> (f.precision - 1 + f.width)) % 2 == 1
  if exponent = (1 <<< f.width) - 1 then
    if fraction = 0 then .infinite negative else .nan
  else if exponent = 0 then .finite negative fraction
  else .finite negative (((1 <<< (f.precision - 1)) + fraction) <<< (exponent - 1))

def encodeMagnitude (f : Format) (units : Nat) : Nat :=
  if units < 1 <<< (f.precision - 1) then units
  else
    let s := units.log2 + 1 - f.precision
    (s <<< (f.precision - 1)) + (units >>> s)

def signBit (f : Format) (negative : Bool) : Nat :=
  if negative then 1 <<< (f.precision - 1 + f.width) else 0

def encode (f : Format) : Datum → Nat
  | .finite negative units => f.signBit negative + f.encodeMagnitude units
  | .infinite negative => f.signBit negative + ((1 <<< f.width) - 1) <<< (f.precision - 1)
  | .nan => ((1 <<< (f.width + 1)) - 1) <<< (f.precision - 2)

/-- The quotient as a whole number of units that the format can hold, nearest and ties to even, with
no bound on the exponent. -/
def roundUnits (f : Format) (num den : Nat) : Nat :=
  let s := f.shift (num / den)
  nearest num (den <<< s) <<< s

/-- The number of the format nearest to `num / den` units. -/
def ofUnits (f : Format) (negative : Bool) (num den : Nat) : Datum :=
  let units := f.roundUnits num den
  if units ≤ f.largest then .finite negative units else .infinite negative

/-- The number of the format nearest to `num / den`. -/
def ofRatio (f : Format) (negative : Bool) (num den : Nat) : Datum :=
  f.ofUnits negative (num * f.one) den

def ofInt (f : Format) (n : Int) : Datum :=
  f.ofRatio (n < 0) n.natAbs 1

/-- The number of `target` nearest to a number of `f`. -/
def convert (f target : Format) : Datum → Datum
  | .finite negative units => target.ofRatio negative units f.one
  | .infinite negative => .infinite negative
  | .nan => .nan

end Format

end Scriptlet.Binary
