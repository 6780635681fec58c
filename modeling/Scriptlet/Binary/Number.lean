import Scriptlet.Binary.Format

namespace Scriptlet.Binary

/-!
# Exact operations on numbers

The operations that need no rounding of their own: remainder, rounding to a whole number, truncation
to an integer, and the passage between numbers and machine words.
-/

inductive Direction where
  | down
  | up
  | toEven
  deriving DecidableEq

namespace Direction

/-- Whether a magnitude with this whole part and this rest, out of `one`, is rounded away from
zero. -/
def away (d : Direction) (negative : Bool) (whole rest one : Nat) : Bool :=
  match d with
  | .down => negative && rest != 0
  | .up => !negative && rest != 0
  | .toEven => one < 2 * rest || (one == 2 * rest && whole % 2 == 1)

end Direction

namespace Format

/-- The whole number next to a number in a direction. Zero keeps the sign of the number. -/
def roundWhole (f : Format) (d : Direction) : Datum → Datum
  | .finite negative units =>
      let whole := units / f.one
      if d.away negative whole (units % f.one) f.one then .finite negative ((whole + 1) * f.one)
      else .finite negative (whole * f.one)
  | x => x

/-- The integer part, with infinities beyond every bound and no integer for what is not a number. -/
def truncate (f : Format) (lo hi : Int) : Datum → Int
  | .finite negative units =>
      let n : Int := units / f.one
      max lo (min hi (if negative then -n else n))
  | .infinite negative => if negative then lo else hi
  | .nan => 0

end Format

/-- The remainder of the truncated quotient, with the sign of the dividend. -/
def Datum.remainder : Datum → Datum → Datum
  | .finite negative units, .finite _ divisor =>
      if divisor = 0 then .nan else .finite negative (units % divisor)
  | .finite negative units, .infinite _ => .finite negative units
  | _, _ => .nan

/-- The number that a double-precision word holds. -/
def ofFloat (x : Float) : Datum :=
  double.decode x.toBits.toNat

def toFloat (d : Datum) : Float :=
  Float.ofBits (UInt64.ofNat (double.encode d))

/-- The number that a single-precision word holds. -/
def ofFloat32 (x : Float32) : Datum :=
  single.decode x.toBits.toNat

def toFloat32 (d : Datum) : Float32 :=
  Float32.ofBits (UInt32.ofNat (single.encode d))

/-- Double to single precision, to nearest. -/
def narrow (x : Float) : Float32 :=
  toFloat32 (double.convert single (ofFloat x))

/-- Single to double precision, which is exact. -/
def extend (x : Float32) : Float :=
  toFloat (single.convert double (ofFloat32 x))

def floatRemainder (x y : Float) : Float :=
  toFloat ((ofFloat x).remainder (ofFloat y))

def float32Remainder (x y : Float32) : Float32 :=
  toFloat32 ((ofFloat32 x).remainder (ofFloat32 y))

def roundFloat (d : Direction) (x : Float) : Float :=
  toFloat (double.roundWhole d (ofFloat x))

def floatOfInt (n : Int) : Float :=
  toFloat (double.ofInt n)

def float32OfInt (n : Int) : Float32 :=
  toFloat32 (single.ofInt n)

end Scriptlet.Binary
