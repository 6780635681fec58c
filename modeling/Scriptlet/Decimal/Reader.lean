import Scriptlet.Decimal.Shortest

namespace Scriptlet

/-!
# Reading decimals

A numeral is digits with at most one point, at least one digit, and an optional exponent. It is read
as an exact decimal and then rounded once to the format that is asked for. Exponents of five digits
and more are cut: of an exponent, no digit is read behind the one that takes it to the limit.
-/

/-- An unsigned numeral: `mantissa × 10 ^ exponent`, with a mantissa of `length` digits. -/
structure Numeral where
  mantissa : Nat
  length : Nat
  exponent : Int
  deriving DecidableEq

namespace Numeral

def digitValue (c : Char) : Nat :=
  c.toNat - '0'.toNat

/-- The number that a row of decimal digits denotes, digit by digit. -/
def rowValue (ds : List Char) : Nat :=
  ds.foldl (fun n c => 10 * n + digitValue c) 0

/-- The number that a row of decimal digits denotes, by way of its halves, which are cut in turn. -/
def valueOfHalves : Nat → List Char → Nat
  | 0, ds => rowValue ds
  | cuts + 1, ds =>
      let low := ds.length / 2
      let halves := ds.splitAt (ds.length - low)
      valueOfHalves cuts halves.1 * Decimal.tenTo low + valueOfHalves cuts halves.2

/-- The number that a row of decimal digits denotes. Rows of more than a hundred digits are cut. -/
def digitsValue (ds : List Char) : Nat :=
  valueOfHalves (ds.length.log2 - 6) ds

theorem foldl_digits (ds : List Char) (n : Nat) :
    ds.foldl (fun n c => 10 * n + digitValue c) n = n * Decimal.tenTo ds.length + rowValue ds := by
  unfold rowValue
  induction ds generalizing n with
  | nil => simp [Decimal.tenTo]
  | cons c ds ih =>
      rw [List.foldl_cons, List.foldl_cons, ih, ih (10 * 0 + digitValue c)]
      simp only [Decimal.tenTo, List.length_cons, Nat.pow_succ', Nat.mul_zero, Nat.zero_add,
        Nat.add_mul, Nat.add_assoc, Nat.pow_eq, Nat.mul_assoc, Nat.mul_left_comm 10]

theorem rowValue_append (ds es : List Char) :
    rowValue (ds ++ es) = rowValue ds * Decimal.tenTo es.length + rowValue es := by
  rw [rowValue, List.foldl_append]
  exact foldl_digits es _

theorem valueOfHalves_eq (cuts : Nat) (ds : List Char) : valueOfHalves cuts ds = rowValue ds := by
  induction cuts generalizing ds with
  | zero => rfl
  | succ cuts ih =>
      have back : (ds.drop (ds.length - ds.length / 2)).length = ds.length / 2 := by
        rw [List.length_drop]
        omega
      have cut := rowValue_append (ds.take (ds.length - ds.length / 2))
        (ds.drop (ds.length - ds.length / 2))
      rw [List.take_append_drop, back] at cut
      simp [valueOfHalves, ih, List.splitAt_eq, cut]

/-- Cutting a row makes no difference to its value. -/
theorem digitsValue_eq (ds : List Char) : digitsValue ds = rowValue ds :=
  valueOfHalves_eq _ ds

/-- Where the reading of an exponent stops. -/
def exponentLimit : Nat := 65536

/-- The digits of an exponent up to the one that takes it to the limit. -/
def exponentValue (ds : List Char) : Nat :=
  ds.foldl (fun n c => if n < exponentLimit then 10 * n + digitValue c else n) 0

/-- The exponent part behind a mantissa: nothing, or `e`, a sign and digits up to the end. -/
def readExponent : List Char → Option Int
  | [] => some 0
  | c :: s =>
      if c = 'e' ∨ c = 'E' then
        match s with
        | '-' :: ds => (readDigits ds).map fun n => -(n : Int)
        | '+' :: ds => (readDigits ds).map fun n => (n : Int)
        | ds => (readDigits ds).map fun n => (n : Int)
      else none
where
  readDigits (ds : List Char) : Option Nat :=
    if ds ≠ [] ∧ ds.all Char.isDigit then some (exponentValue ds) else none

/-- Digits, a point and digits, and what follows them. -/
def readMantissa (s : List Char) : List Char × List Char × List Char :=
  let whole := s.takeWhile Char.isDigit
  match s.dropWhile Char.isDigit with
  | '.' :: rest => (whole, rest.takeWhile Char.isDigit, rest.dropWhile Char.isDigit)
  | rest => (whole, [], rest)

def read? (s : List Char) : Option Numeral :=
  let (whole, fraction, rest) := readMantissa s
  let digits := whole ++ fraction
  let significant := digits.dropWhile (· == '0')
  if digits = [] then none
  else
    (readExponent rest).map fun e =>
      ⟨digitsValue significant, significant.length, e - (fraction.length : Int)⟩

/-- Numbers from `10 ^ magnitudeBound` on are infinite and numbers below `10 ^ -magnitudeBound` are
zero, in both formats. Only numbers in between are computed. -/
def magnitudeBound : Int := 400

/-- The number of the format nearest to the numeral. -/
def toDatum (f : Binary.Format) (negative : Bool) (n : Numeral) : Binary.Datum :=
  if n.mantissa = 0 then .finite negative 0
  else if n.length + n.exponent < -magnitudeBound then .finite negative 0
  else if magnitudeBound < n.length + n.exponent then .infinite negative
  else
    f.ofRatio negative (n.mantissa * Decimal.tenTo n.exponent.toNat)
      (Decimal.tenTo (-n.exponent).toNat)

end Numeral

/-- An optional sign, and what follows it. -/
def readSign : List Char → Bool × List Char
  | '-' :: s => (true, s)
  | '+' :: s => (false, s)
  | s => (false, s)

/-- Whether two texts agree up to the case of ASCII letters. -/
def sameLetters (s t : List Char) : Bool :=
  s.map Char.toLower == t.map Char.toLower

/-- A signed numeral, `infinity` or `nan`, in any letter case. -/
def readNumber (f : Binary.Format) (s : List Char) : Option Binary.Datum :=
  let (negative, body) := readSign s
  if sameLetters body "infinity".toList then some (.infinite negative)
  else if sameLetters body "nan".toList then some .nan
  else (Numeral.read? body).map (·.toDatum f negative)

end Scriptlet
