import Scriptlet.Machine.Operator
import Scriptlet.Proofs.Binary.Words

namespace Scriptlet

/-!
# Integer operators

On values of the integer types and on characters, operators are integer arithmetic: what they give
is the exact result, wrapped around in the width of the wider operand.
-/

/-- The sizes in which integers are computed. -/
inductive Width where
  | int
  | long
  deriving DecidableEq

namespace Width

def bits : Width → Nat
  | int => 32
  | long => 64

def dataType : Width → DataType
  | int => .int
  | long => .long

/-- The wider one of two widths. -/
def join : Width → Width → Width
  | int, w => w
  | long, _ => long

/-- The least integer of the width. -/
def least (w : Width) : Int :=
  -2 ^ (w.bits - 1)

/-- Whether the width has the integer. -/
def Fits (w : Width) (z : Int) : Prop :=
  w.least ≤ z ∧ z < -w.least

instance (w : Width) (z : Int) : Decidable (w.Fits z) :=
  inferInstanceAs (Decidable (_ ∧ _))

/-- The integer of the width that is the same modulo `2 ^ w.bits`. -/
def wrap (w : Width) (z : Int) : Int :=
  z.bmod (2 ^ w.bits)

end Width

/-- `v.Integer w z`: the value is of an integer type or a character, it stands for the integer `z`,
and it is computed with in the width `w`. -/
inductive Value.Integer : Value → Width → Int → Prop
  | byte (n : UInt8) : Integer (.byte n) .int n.toNat
  | short (n : Int16) : Integer (.short n) .int n.toInt
  | char (c : Char) : Integer (.char c) .int c.toNat
  | int (n : Int32) : Integer (.int n) .int n.toInt
  | long (n : Int64) : Integer (.long n) .long n.toInt

/-- The value is the integer `z` in the type of the width. -/
structure Width.Holds (w : Width) (v : Value) (z : Int) : Prop where
  dataType : v.dataType = w.dataType
  integer : v.Integer w z

namespace BinaryOp

/-- The exact result of an operator that wraps around. -/
def exactResult? : BinaryOp → Option (Int → Int → Int)
  | add => some (· + ·)
  | sub => some (· - ·)
  | mul => some (· * ·)
  | bitAnd => some Int.land
  | bitOr => some Int.lor
  | bitXor => some Int.xor
  | _ => none

/-- What a comparison says about integers. -/
def comparison? : BinaryOp → Option (Int → Int → Bool)
  | eq => some fun a b => a = b
  | ne => some fun a b => a ≠ b
  | lt => some fun a b => a < b
  | le => some fun a b => a ≤ b
  | gt => some fun a b => a > b
  | ge => some fun a b => a ≥ b
  | _ => none

end BinaryOp

/-- The exact result of an operator on one integer. -/
def UnaryOp.exactResult? : UnaryOp → Option (Int → Int)
  | neg => some fun a => -a
  | bitNot => some Int.lnot
  | not => none

namespace Width

variable {w w' : Width} {a b z : Int}

/-- The integer, wrapped around, as what operators work on. -/
def promoted (w : Width) (z : Int) : Machine.Promoted :=
  match w with
  | int => .int (Int32.ofInt z)
  | long => .long (Int64.ofInt z)

def pair (w : Width) (a b : Int) : Machine.Pair :=
  match w with
  | int => .ints (Int32.ofInt a) (Int32.ofInt b)
  | long => .longs (Int64.ofInt a) (Int64.ofInt b)

/-- The integer, wrapped around, as a value. -/
def value (w : Width) (z : Int) : Value :=
  (w.promoted z).toValue

theorem holds_value (w : Width) (z : Int) : w.Holds (w.value z) (w.wrap z) := by
  cases w with
  | int =>
      refine ⟨rfl, ?_⟩
      have h := Value.Integer.int (Int32.ofInt z)
      rwa [Int32.toInt_ofInt] at h
  | long =>
      refine ⟨rfl, ?_⟩
      have h := Value.Integer.long (Int64.ofInt z)
      rwa [Int64.toInt_ofInt] at h

theorem wrap_of_fits (h : w.Fits z) : w.wrap z = z := by
  cases w with
  | int => exact Int.bmod_eq_of_le h.1 h.2
  | long => exact Int.bmod_eq_of_le h.1 h.2

theorem ofInt32_inj (ha : int.Fits a) (hb : int.Fits b) :
    Int32.ofInt a = Int32.ofInt b ↔ a = b := by
  rw [← Int32.toInt_inj, Int32.toInt_ofInt, Int32.toInt_ofInt]
  exact iff_of_eq (congrArg₂ _ (wrap_of_fits ha) (wrap_of_fits hb))

theorem ofInt64_inj (ha : long.Fits a) (hb : long.Fits b) :
    Int64.ofInt a = Int64.ofInt b ↔ a = b := by
  rw [← Int64.toInt_inj, Int64.toInt_ofInt, Int64.toInt_ofInt]
  exact iff_of_eq (congrArg₂ _ (wrap_of_fits ha) (wrap_of_fits hb))

theorem toInt64_ofInt (h : int.Fits z) : (Int32.ofInt z).toInt64 = Int64.ofInt z :=
  Int32.toInt64_ofInt h.1 (Int.le_of_lt_add_one h.2)

theorem holds_of_fits (h : w.Fits z) : w.Holds (w.value z) z := by
  have := w.holds_value z
  rwa [wrap_of_fits h] at this

theorem least_neg (w : Width) : w.least < 0 := by
  cases w <;> decide

theorem Fits.tmod (h : w.Fits a) (b : Int) : w.Fits (a.tmod b) := by
  have hle : (a.tmod b).natAbs ≤ a.natAbs := by
    rw [Int.natAbs_tmod]
    exact Nat.mod_le _ _
  have hsign : 0 ≤ a ∨ a.tmod b ≤ 0 := by
    obtain ha | ha := Int.le_total 0 a
    · exact Or.inl ha
    · refine Or.inr ?_
      have := Int.tmod_nonneg b (Int.neg_nonneg_of_nonpos ha)
      rw [Int.neg_tmod] at this
      omega
  have hlow := h.1
  have hhigh := h.2
  exact ⟨by omega, by omega⟩

/-- Only the least integer divided by minus one leaves the width. -/
theorem Fits.tdiv (h : w.Fits a) (hmin : ¬(a = w.least ∧ b = -1)) : w.Fits (a.tdiv b) := by
  have hlow := h.1
  have hhigh := h.2
  have hneg := w.least_neg
  have hle : (a.tdiv b).natAbs ≤ a.natAbs := Int.natAbs_tdiv_le_natAbs a b
  refine ⟨by omega, Int.not_le.1 fun hq => hmin ?_⟩
  have ha : a = w.least := by omega
  refine ⟨ha, ?_⟩
  have hbneg : b < 0 := by
    refine Int.not_le.1 fun hpos => ?_
    have := Int.tdiv_nonneg (Int.neg_nonneg_of_nonpos (by omega : a ≤ 0)) hpos
    rw [Int.neg_tdiv] at this
    omega
  refine Int.le_antisymm (by omega) (Int.not_lt.1 fun hsmall => ?_)
  have hhalf : (a.tdiv b).natAbs ≤ a.natAbs / 2 := by
    rw [Int.natAbs_tdiv]
    exact Nat.div_le_div_left (by omega) Nat.zero_lt_two
  omega

theorem Fits.ediv (h : w.Fits a) (hb : 0 < b) : w.Fits (a / b) := by
  have hle : (a / b).natAbs ≤ a.natAbs := Int.natAbs_ediv_le_natAbs a b
  have hsign : 0 ≤ a ∨ a / b < 0 := by
    by_cases ha : 0 ≤ a
    · exact Or.inl ha
    · exact Or.inr (Int.ediv_neg_of_neg_of_pos (Int.not_le.1 ha) hb)
  have hlow := h.1
  have hhigh := h.2
  exact ⟨by omega, by omega⟩

theorem Fits.join_left (h : w.Fits z) (w' : Width) : (w.join w').Fits z := by
  cases w <;> cases w' <;> simp only [join, Fits, least, bits] at h ⊢ <;> omega

theorem Fits.join_right (h : w'.Fits z) (w : Width) : (w.join w').Fits z := by
  cases w <;> cases w' <;> simp only [join, Fits, least, bits] at h ⊢ <;> omega

end Width

namespace Value.Integer

variable {v u : Value} {w w' : Width} {a b : Int}

theorem fits (h : v.Integer w a) : w.Fits a := by
  cases h with
  | byte n =>
      have := n.toNat_lt
      constructor <;> simp only [Width.least, Width.bits] <;> omega
  | short n =>
      have := n.le_toInt
      have := n.toInt_lt
      constructor <;> simp only [Width.least, Width.bits] <;> omega
  | char c =>
      have : c.toNat < 0x110000 := by
        have := c.valid
        simp only [UInt32.isValidChar, Nat.isValidChar] at this
        have : c.toNat = c.val.toNat := rfl
        omega
      constructor <;> simp only [Width.least, Width.bits] <;> omega
  | int n => exact ⟨n.le_toInt, n.toInt_lt⟩
  | long n => exact ⟨n.le_toInt, n.toInt_lt⟩

theorem promoted (h : v.Integer w a) : Machine.Promoted.of? v = some (w.promoted a) := by
  cases h with
  | byte n => rfl
  | short n => simp [Machine.Promoted.of?, Width.promoted]
  | char c => rfl
  | int n => simp [Machine.Promoted.of?, Width.promoted]
  | long n => simp [Machine.Promoted.of?, Width.promoted]

theorem pair (h : v.Integer w a) (h' : u.Integer w' b) :
    Machine.Pair.of? v u = some ((w.join w').pair a b) := by
  rw [Machine.Pair.of?, h.promoted, h'.promoted]
  refine congrArg some ?_
  cases w <;> cases w'
  · rfl
  · exact congrArg (Machine.Pair.longs · _) (Width.toInt64_ofInt h.fits)
  · exact congrArg (Machine.Pair.longs _) (Width.toInt64_ofInt h'.fits)
  · rfl

end Value.Integer

namespace Machine

/-- Whether an operation ends in an exception of the class. -/
def Raises (r : Except Fault Value) (c : ExceptionClass) : Prop :=
  ∃ f, r = .error f ∧ f.exceptionClass = c

section

variable {w w' : Width} {v u : Value} {a b : Int}

/-! ### Operators that wrap around -/

theorem add_pair (w : Width) (a b : Int) : add (w.pair a b) = w.value (a + b) := by
  cases w with
  | int => exact congrArg Value.int (Int32.ofInt_add a b).symm
  | long => exact congrArg Value.long (Int64.ofInt_add a b).symm

theorem sub_pair (w : Width) (a b : Int) : sub (w.pair a b) = w.value (a - b) := by
  cases w with
  | int => exact congrArg Value.int (Int32.ofInt_sub a b).symm
  | long => exact congrArg Value.long (Int64.ofInt_sub a b).symm

theorem mul_pair (w : Width) (a b : Int) : mul (w.pair a b) = w.value (a * b) := by
  cases w with
  | int => exact congrArg Value.int (Int32.ofInt_mul a b).symm
  | long => exact congrArg Value.long (Int64.ofInt_mul a b).symm

theorem onPair_eq (op : BinaryOp) (f : Pair → Except Fault Value) (hv : v.Integer w a)
    (hu : u.Integer w' b) : onPair op f v u = f ((w.join w').pair a b) := by
  rw [onPair, hv.pair hu]

theorem bitwise_eq (op : BinaryOp) {onBool : Bool → Bool → Bool} {onInt : Int32 → Int32 → Int32}
    {onLong : Int64 → Int64 → Int64} {f : Int → Int → Int}
    (hint : onInt (Int32.ofInt a) (Int32.ofInt b) = Int32.ofInt (f a b))
    (hlong : onLong (Int64.ofInt a) (Int64.ofInt b) = Int64.ofInt (f a b))
    (hv : v.Integer w a) (hu : u.Integer w' b) :
    bitwise op onBool onInt onLong v u = .ok ((w.join w').value (f a b)) := by
  unfold bitwise
  split
  · cases hv
  · rw [hv.pair hu]
    cases w.join w' with
    | int => exact congrArg (fun n => Except.ok (Value.int n)) hint
    | long => exact congrArg (fun n => Except.ok (Value.long n)) hlong

theorem binary_of_exactResult? {op : BinaryOp} {f : Int → Int → Int} (hf : op.exactResult? = some f)
    (hv : v.Integer w a) (hu : u.Integer w' b) :
    binary op v u = .ok ((w.join w').value (f a b)) := by
  cases op <;> cases hf
  case add => exact (onPair_eq _ _ hv hu).trans (congrArg _ (add_pair _ a b))
  case sub => exact (onPair_eq _ _ hv hu).trans (congrArg _ (sub_pair _ a b))
  case mul => exact (onPair_eq _ _ hv hu).trans (congrArg _ (mul_pair _ a b))
  case bitAnd =>
      exact bitwise_eq _ (Int32.toBitVec_inj.1 (Binary.ofInt_land 32 a b).symm)
        (Int64.toBitVec_inj.1 (Binary.ofInt_land 64 a b).symm) hv hu
  case bitOr =>
      exact bitwise_eq _ (Int32.toBitVec_inj.1 (Binary.ofInt_lor 32 a b).symm)
        (Int64.toBitVec_inj.1 (Binary.ofInt_lor 64 a b).symm) hv hu
  case bitXor =>
      exact bitwise_eq _ (Int32.toBitVec_inj.1 (Binary.ofInt_xor 32 a b).symm)
        (Int64.toBitVec_inj.1 (Binary.ofInt_xor 64 a b).symm) hv hu

theorem unary_of_exactResult? {op : UnaryOp} {f : Int → Int} (hf : op.exactResult? = some f)
    (hv : v.Integer w a) : unary op v = .ok (w.value (f a)) := by
  cases op <;> cases hf
  case neg =>
      rw [unary, hv.promoted]
      cases w with
      | int => exact congrArg (fun n => Except.ok (Value.int n)) (Int32.ofInt_neg a).symm
      | long => exact congrArg (fun n => Except.ok (Value.long n)) (Int64.ofInt_neg a).symm
  case bitNot =>
      rw [unary, hv.promoted]
      cases w with
      | int =>
          exact congrArg (fun n => Except.ok (Value.int n))
            (Int32.toBitVec_inj.1 (Binary.ofInt_lnot 32 a).symm)
      | long =>
          exact congrArg (fun n => Except.ok (Value.long n))
            (Int64.toBitVec_inj.1 (Binary.ofInt_lnot 64 a).symm)

/-! ### Shifts -/

theorem binary_shl (hv : v.Integer w a) (hu : u.Integer .int b) :
    binary .shl v u = .ok (w.value (a * 2 ^ (b % w.bits).toNat)) := by
  rw [binary, shift, hv.promoted, hu.promoted]
  cases w with
  | int =>
      refine congrArg (fun n => Except.ok (Value.int n)) (Int32.toBitVec_inj.1 ?_)
      rw [Int32.toBitVec_shiftLeft, BitVec.shiftLeft_eq', Binary.toNat_smod_32]
      exact (Binary.ofInt_mul_two_pow 32 a _).symm
  | long =>
      refine congrArg (fun n => Except.ok (Value.long n)) (Int64.toBitVec_inj.1 ?_)
      rw [Int64.toBitVec_shiftLeft, BitVec.shiftLeft_eq', Binary.toNat_smod_64]
      exact (Binary.ofInt_mul_two_pow 64 a _).symm

theorem binary_shr (hv : v.Integer w a) (hu : u.Integer .int b) :
    binary .shr v u = .ok (w.value (a / 2 ^ (b % w.bits).toNat)) := by
  have hfits := Width.wrap_of_fits hv.fits
  rw [binary, shift, hv.promoted, hu.promoted]
  cases w with
  | int =>
      refine congrArg (fun n => Except.ok (Value.int n)) (Int32.toBitVec_inj.1 ?_)
      rw [Int32.toBitVec_shiftRight, BitVec.sshiftRight_eq', Binary.toNat_smod_32]
      exact Binary.sshiftRight_ofInt hfits _
  | long =>
      refine congrArg (fun n => Except.ok (Value.long n)) (Int64.toBitVec_inj.1 ?_)
      rw [Int64.toBitVec_shiftRight, BitVec.sshiftRight_eq', Binary.toNat_smod_64]
      exact Binary.sshiftRight_ofInt hfits _

/-! ### Divisions -/

/-- A division of `a` by `b` with the result `z`, if it has one. -/
def divided (w : Width) (a b z : Int) : Except Fault Value :=
  if b = 0 then .error (.failed .divideByZero)
  else if a = w.least ∧ b = -1 then .error (.failed .overflow)
  else .ok (w.value z)

theorem divided_eq_ok (hb : b ≠ 0) (h : ¬(a = w.least ∧ b = -1)) (z : Int) :
    divided w a b z = .ok (w.value z) := by
  rw [divided, if_neg hb, if_neg h]

theorem raises_divideByZero_divided (w : Width) (a b z : Int) :
    Raises (divided w a b z) .divideByZero ↔ b = 0 := by
  unfold divided
  constructor
  · rintro ⟨f, hf, hclass⟩
    split at hf
    · assumption
    · split at hf
      · cases hf
        cases hclass
      · cases hf
  · intro h
    exact ⟨_, if_pos h, rfl⟩

theorem raises_overflow_divided (w : Width) (a b z : Int) :
    Raises (divided w a b z) .overflow ↔ a = w.least ∧ b = -1 := by
  unfold divided
  constructor
  · rintro ⟨f, hf, hclass⟩
    split at hf
    · cases hf
      cases hclass
    · split at hf
      · assumption
      · cases hf
  · intro h
    have hb : b ≠ 0 := by omega
    exact ⟨_, (if_neg hb).trans (if_pos h), rfl⟩

theorem divideInt_ofInt {f : Int32 → Int32 → Int32} {z : Int} (ha : Width.int.Fits a)
    (hb : Width.int.Fits b) (hf : f (Int32.ofInt a) (Int32.ofInt b) = Int32.ofInt z) :
    divideInt f (Int32.ofInt a) (Int32.ofInt b) = divided .int a b z := by
  have hzero : Int32.ofInt b = 0 ↔ b = 0 := Width.ofInt32_inj (b := 0) hb (by decide)
  have hleast : Int32.ofInt a = Int32.minValue ↔ a = Width.int.least :=
    Width.ofInt32_inj (b := Width.int.least) ha (by decide)
  have hminus : (-1 : Int32) = Int32.ofInt (-1) := by decide
  have hone : Int32.ofInt b = -1 ↔ b = -1 := by rw [hminus, Width.ofInt32_inj hb (by decide)]
  simp only [divideInt, divided, hzero, hleast, hone, hf]
  rfl

theorem divideLong_ofInt {f : Int64 → Int64 → Int64} {z : Int} (ha : Width.long.Fits a)
    (hb : Width.long.Fits b) (hf : f (Int64.ofInt a) (Int64.ofInt b) = Int64.ofInt z) :
    divideLong f (Int64.ofInt a) (Int64.ofInt b) = divided .long a b z := by
  have hzero : Int64.ofInt b = 0 ↔ b = 0 := Width.ofInt64_inj (b := 0) hb (by decide)
  have hleast : Int64.ofInt a = Int64.minValue ↔ a = Width.long.least :=
    Width.ofInt64_inj (b := Width.long.least) ha (by decide)
  have hminus : (-1 : Int64) = Int64.ofInt (-1) := by decide
  have hone : Int64.ofInt b = -1 ↔ b = -1 := by rw [hminus, Width.ofInt64_inj hb (by decide)]
  simp only [divideLong, divided, hzero, hleast, hone, hf]
  rfl

theorem div_pair (ha : w.Fits a) (hb : w.Fits b) :
    div (w.pair a b) = divided w a b (a.tdiv b) := by
  cases w with
  | int =>
      exact divideInt_ofInt ha hb (Int32.ofInt_tdiv ha.1 (Int.le_of_lt_add_one ha.2) hb.1
        (Int.le_of_lt_add_one hb.2)).symm
  | long =>
      exact divideLong_ofInt ha hb (Int64.ofInt_tdiv ha.1 (Int.le_of_lt_add_one ha.2) hb.1
        (Int.le_of_lt_add_one hb.2)).symm

theorem rem_pair (ha : w.Fits a) (hb : w.Fits b) :
    rem (w.pair a b) = divided w a b (a.tmod b) := by
  cases w with
  | int =>
      exact divideInt_ofInt ha hb (Int32.ofInt_tmod ha.1 (Int.le_of_lt_add_one ha.2) hb.1
        (Int.le_of_lt_add_one hb.2)).symm
  | long =>
      exact divideLong_ofInt ha hb (Int64.ofInt_tmod ha.1 (Int.le_of_lt_add_one ha.2) hb.1
        (Int.le_of_lt_add_one hb.2)).symm

theorem binary_div (hv : v.Integer w a) (hu : u.Integer w' b) :
    binary .div v u = divided (w.join w') a b (a.tdiv b) :=
  (onPair_eq _ _ hv hu).trans (div_pair (hv.fits.join_left w') (hu.fits.join_right w))

theorem binary_rem (hv : v.Integer w a) (hu : u.Integer w' b) :
    binary .rem v u = divided (w.join w') a b (a.tmod b) :=
  (onPair_eq _ _ hv hu).trans (rem_pair (hv.fits.join_left w') (hu.fits.join_right w))

/-! ### Comparisons -/

theorem less_pair (ha : w.Fits a) (hb : w.Fits b) : less (w.pair a b) = decide (a < b) := by
  cases w with
  | int =>
      exact decide_eq_decide.2 (Int32.ofInt_lt_iff_lt ha.1 (Int.le_of_lt_add_one ha.2) hb.1
        (Int.le_of_lt_add_one hb.2))
  | long =>
      exact decide_eq_decide.2 (Int64.ofInt_lt_iff_lt ha.1 (Int.le_of_lt_add_one ha.2) hb.1
        (Int.le_of_lt_add_one hb.2))

theorem lessOrEqual_pair (ha : w.Fits a) (hb : w.Fits b) :
    lessOrEqual (w.pair a b) = decide (a ≤ b) := by
  cases w with
  | int =>
      exact decide_eq_decide.2 (Int32.ofInt_le_iff_le ha.1 (Int.le_of_lt_add_one ha.2) hb.1
        (Int.le_of_lt_add_one hb.2))
  | long =>
      exact decide_eq_decide.2 (Int64.ofInt_le_iff_le ha.1 (Int.le_of_lt_add_one ha.2) hb.1
        (Int.le_of_lt_add_one hb.2))

theorem swap_pair (w : Width) (a b : Int) : (w.pair a b).swap = w.pair b a := by
  cases w <;> rfl

theorem equals_eq (hv : v.Integer w a) (hu : u.Integer w' b) : equals v u = decide (a = b) := by
  have ha := hv.fits.join_left w'
  have hb := hu.fits.join_right w
  rw [equals, hv.pair hu]
  generalize w.join w' = x at ha hb ⊢
  cases x with
  | int => exact decide_eq_decide.2 (Width.ofInt32_inj ha hb)
  | long => exact decide_eq_decide.2 (Width.ofInt64_inj ha hb)

theorem binary_of_comparison? {op : BinaryOp} {p : Int → Int → Bool}
    (hp : op.comparison? = some p) (hv : v.Integer w a) (hu : u.Integer w' b) :
    binary op v u = .ok (.bool (p a b)) := by
  have ha := hv.fits.join_left w'
  have hb := hu.fits.join_right w
  cases op <;> cases hp
  case eq => exact congrArg (fun t => Except.ok (Value.bool t)) (equals_eq hv hu)
  case ne => rw [binary, equals_eq hv hu, ← decide_not]
  case lt =>
      refine (onPair_eq _ _ hv hu).trans ?_
      rw [less_pair ha hb]
  case le =>
      refine (onPair_eq _ _ hv hu).trans ?_
      rw [lessOrEqual_pair ha hb]
  case gt =>
      refine (onPair_eq _ _ hv hu).trans ?_
      rw [swap_pair, less_pair hb ha]
  case ge =>
      refine (onPair_eq _ _ hv hu).trans ?_
      rw [swap_pair, lessOrEqual_pair hb ha]

/-! ### All operators -/

/-- The operators on two values are those on the integers `a` and `b` that they stand for, in the
widths of the values. -/
structure Exact (w w' : Width) (v u : Value) (a b : Int) : Prop where
  unary_wraps : ∀ op f, UnaryOp.exactResult? op = some f →
    ∃ r, unary op v = .ok r ∧ w.Holds r (w.wrap (f a))
  binary_wraps : ∀ op f, BinaryOp.exactResult? op = some f →
    ∃ r, binary op v u = .ok r ∧ (w.join w').Holds r ((w.join w').wrap (f a b))
  /-- A shift is in the width of its left operand. -/
  shl : w' = .int →
    ∃ r, binary .shl v u = .ok r ∧ w.Holds r (w.wrap (a * 2 ^ (b % w.bits).toNat))
  shr : w' = .int →
    ∃ r, binary .shr v u = .ok r ∧ w.Holds r (a.fdiv (2 ^ (b % w.bits).toNat))
  zero : ∀ op, op = .div ∨ op = .rem → (Raises (binary op v u) .divideByZero ↔ b = 0)
  overflow : ∀ op, op = .div ∨ op = .rem →
    (Raises (binary op v u) .overflow ↔ a = (w.join w').least ∧ b = -1)
  division : b ≠ 0 → ¬(a = (w.join w').least ∧ b = -1) → ∃ r s q m,
    binary .div v u = .ok r ∧ (w.join w').Holds r q ∧
    binary .rem v u = .ok s ∧ (w.join w').Holds s m ∧
    q = a.tdiv b ∧ a = q * b + m ∧ m.natAbs < b.natAbs ∧ (m = 0 ∨ m.sign = a.sign)
  comparison : ∀ op p, BinaryOp.comparison? op = some p → binary op v u = .ok (.bool (p a b))

theorem integer_operators_exact (hv : v.Integer w a) (hu : u.Integer w' b) :
    Exact w w' v u a b where
  unary_wraps _ f hf := ⟨_, unary_of_exactResult? hf hv, w.holds_value (f a)⟩
  binary_wraps _ f hf := ⟨_, binary_of_exactResult? hf hv hu, (w.join w').holds_value (f a b)⟩
  shl h := by
    subst h
    exact ⟨_, binary_shl hv hu, w.holds_value _⟩
  shr h := by
    subst h
    have hpow : 0 < (2 : Int) ^ (b % w.bits).toNat := Int.pow_pos (by decide)
    rw [Int.fdiv_eq_ediv_of_nonneg _ (Int.le_of_lt hpow)]
    exact ⟨_, binary_shr hv hu, Width.holds_of_fits (hv.fits.ediv hpow)⟩
  zero op h := by
    obtain rfl | rfl := h
    · rw [binary_div hv hu, raises_divideByZero_divided]
    · rw [binary_rem hv hu, raises_divideByZero_divided]
  overflow op h := by
    obtain rfl | rfl := h
    · rw [binary_div hv hu, raises_overflow_divided]
    · rw [binary_rem hv hu, raises_overflow_divided]
  division hb h := by
    have ha := hv.fits.join_left w'
    refine ⟨_, _, _, _, (binary_div hv hu).trans (divided_eq_ok hb h _),
      Width.holds_of_fits (ha.tdiv h), (binary_rem hv hu).trans (divided_eq_ok hb h _),
      Width.holds_of_fits (ha.tmod b), rfl, ?_, ?_, ?_⟩
    · rw [Int.mul_comm, Int.mul_tdiv_add_tmod]
    · rw [Int.natAbs_tmod]
      exact Nat.mod_lt _ (Int.natAbs_pos.2 hb)
    · rw [← Int.sign_eq_zero_iff_zero, Int.sign_tmod]
      split
      · exact Or.inl rfl
      · exact Or.inr rfl
  comparison _ _ hp := binary_of_comparison? hp hv hu

end

theorem integer_operators_exact_mixed :
    (Value.char 'a').Integer .int 97 ∧ (Value.long (-5)).Integer .long (-5) ∧
      Exact .int .long (.char 'a') (.long (-5)) 97 (-5) := by
  have hleft : (Value.char 'a').Integer .int 97 := .char 'a'
  have hright : (Value.long (-5)).Integer .long (-5) := .long (-5)
  exact ⟨hleft, hright, integer_operators_exact hleft hright⟩

end Machine

end Scriptlet
