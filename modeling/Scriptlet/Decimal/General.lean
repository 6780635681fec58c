import Scriptlet.Decimal.Shortest

namespace Scriptlet

/-!
# General number text

The text of a number: its shortest decimal in positional notation, or with an exponent when the
leading digit is far from the point.
-/

/-- The bounds and words of a number text. Positional notation needs a leading digit at `10 ^
lowest` or above, and at most `precision` places before the point, or as many as there are digits.
-/
structure NumberText where
  precision : Nat
  lowest : Int
  exponentWidth : Nat
  nan : String
  infinity : String

def NumberText.double : NumberText := ⟨15, -4, 2, "NaN", "Infinity"⟩

def NumberText.single : NumberText := ⟨7, -4, 2, "NaN", "Infinity"⟩

/-- The text of digits. -/
def digitText (ds : List Nat) : String :=
  String.ofList (ds.map Nat.digitChar)

def zeroText (n : Nat) : String :=
  String.ofList (List.replicate n '0')

/-- The digits of `n`, filled with zeros in front to at least `width`. -/
def paddedText (width n : Nat) : String :=
  let ds := digitsOf n
  zeroText (width - ds.length) ++ digitText ds

namespace Decimal

def signText (d : Decimal) : String :=
  if d.negative then "-" else ""

/-- Digits and point, without an exponent. -/
def positional (d : Decimal) : String :=
  if d.exponent < 0 then
    d.signText ++ "0." ++ zeroText (-d.exponent - 1).toNat ++ digitText d.digits
  else
    let places := d.exponent.toNat + 1
    if d.digits.length ≤ places then
      d.signText ++ digitText d.digits ++ zeroText (places - d.digits.length)
    else
      d.signText ++ digitText (d.digits.take places) ++ "." ++ digitText (d.digits.drop places)

/-- One digit, the others behind the point, and the exponent with its sign. -/
def scientific (width : Nat) (d : Decimal) : String :=
  let point := if d.digits.length ≤ 1 then "" else "."
  let sign := if d.exponent < 0 then "-" else "+"
  d.signText ++ digitText (d.digits.take 1) ++ point ++ digitText (d.digits.drop 1) ++ "E" ++ sign
    ++ paddedText width d.exponent.natAbs

def isPositional (t : NumberText) (d : Decimal) : Bool :=
  t.lowest ≤ d.exponent && d.exponent + 1 ≤ max d.digits.length t.precision

def general (t : NumberText) (d : Decimal) : String :=
  if d.isPositional t then d.positional else d.scientific t.exponentWidth

end Decimal

/-- The text of a number of a format. -/
def NumberText.write (t : NumberText) (f : Binary.Format) : Binary.Datum → String
  | .finite negative units => (Decimal.ofUnits f negative units).general t
  | .infinite negative => if negative then "-" ++ t.infinity else t.infinity
  | .nan => t.nan

def floatText (x : Float) : String :=
  NumberText.double.write Binary.double (Binary.ofFloat x)

def float32Text (x : Float32) : String :=
  NumberText.single.write Binary.single (Binary.ofFloat32 x)

/-- The text of a double without exponents, whatever its size. -/
def positionalText (x : Float) : String :=
  match Binary.ofFloat x with
  | .finite negative units => (Decimal.ofUnits Binary.double negative units).positional
  | .infinite negative => if negative then "-inf" else "inf"
  | .nan => "NaN"

end Scriptlet
