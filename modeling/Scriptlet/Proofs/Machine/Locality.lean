import Scriptlet.Machine.Library

namespace Scriptlet.Machine

/-!
# Operations on values

Operators, conversions and library routines know nothing of the program that uses them. Whatever
goes wrong in them, it is not a reference to something that the program does not have.
-/

/-- Whether a defect is a reference of a program to something that does not exist. -/
def Defect.isDangling : Defect → Bool
  | noFrame | literalOutOfRange | slotOutOfRange | outsideModule => true
  | _ => false

def Fault.isDangling : Fault → Bool
  | .defective d => d.isDangling
  | _ => false

/-- No failure of an operation on values is a dangling reference. -/
def Local {α : Type} (x : Except Fault α) : Prop :=
  ∀ f, x = .error f → f.isDangling = false

@[simp] theorem local_ok {α : Type} (a : α) : Local (.ok a) := by
  intro f h
  cases h

@[simp] theorem local_pure {α : Type} (a : α) : Local (pure a) :=
  local_ok a

@[simp] theorem local_error_iff {α : Type} (f : Fault) :
    Local (.error f : Except Fault α) ↔ f.isDangling = false := by
  simp [Local]

@[simp] theorem local_map_iff {α β : Type} (x : Except Fault α) (f : α → β) :
    Local (x.map f) ↔ Local x := by
  cases x <;> simp [Except.map]

@[simp] theorem local_functor_map_iff {α β : Type} (x : Except Fault α) (f : α → β) :
    Local (f <$> x) ↔ Local x :=
  local_map_iff x f

@[simp] theorem local_bind_iff {α β : Type} (x : Except Fault α) (f : α → Except Fault β) :
    Local (x >>= f) ↔ Local x ∧ ∀ a, x = .ok a → Local (f a) := by
  cases x <;> simp [bind, Except.bind]

@[simp] theorem isDangling_failed (e : RuntimeError) : (Fault.failed e).isDangling = false := rfl

@[simp] theorem isDangling_thrown (c : ExceptionClass) (message : String) :
    (Fault.thrown c message).isDangling = false := rfl

@[simp] theorem isDangling_defective (d : Defect) :
    (Fault.defective d).isDangling = d.isDangling := rfl

attribute [simp] Defect.isDangling

@[simp] theorem local_binary (op : BinaryOp) (left right : Value) :
    Local (binary op left right) := by
  cases op
  all_goals simp only [binary, onPair, bitwise, shift, div, rem, divideInt, divideLong, mismatch]
  all_goals repeat' split
  all_goals simp

@[simp] theorem local_unary (op : UnaryOp) (v : Value) : Local (unary op v) := by
  cases op
  all_goals simp only [unary]
  all_goals split
  all_goals simp

@[simp] theorem local_cast (v : Value) (t : DataType) : Local (cast v t) := by
  unfold cast
  repeat' split
  all_goals simp

@[simp] theorem local_unbox (v : Value) (t : DataType) : Local (unbox v t) := by
  unfold unbox
  repeat' split
  all_goals simp

@[simp] theorem local_integral (n : Int) (t : DataType) : Local (integral n t) := by
  unfold integral
  dsimp only
  repeat' split
  all_goals simp

@[simp] theorem local_roundedIntegral (x : Binary.Datum) (t : DataType) :
    Local (roundedIntegral x t) := by
  unfold roundedIntegral
  split <;> simp

@[simp] theorem local_parseText (text : String) (t : DataType) : Local (parseText text t) := by
  unfold parseText
  split
  · simp
  · next b _ =>
      cases readValue text b with
      | ok v => exact local_ok v
      | error e => exact (local_error_iff _).2 rfl

@[simp] theorem local_convertToBool (v : Value) : Local (convertToBool v) := by
  unfold convertToBool
  repeat' split
  all_goals simp [noConversion]

@[simp] theorem local_convertNumber (v : Value) (t : DataType) : Local (convertNumber v t) := by
  unfold convertNumber
  repeat' split
  all_goals simp [noConversion]

@[simp] theorem local_convertTo (v : Value) (t : DataType) : Local (convertTo v t) := by
  unfold convertTo
  cases t with
  | string | bool => simp
  | _ => cases v <;> simp [noConversion]

@[simp] theorem local_parse (v : Value) (t : DataType) : Local (parse v t) := by
  unfold parse
  split <;> simp

@[simp] theorem local_receiverText (v : Value) : Local (receiverText v) := by
  unfold receiverText
  split <;> simp

@[simp] theorem local_receiver (v : Value) : Local (receiver v) := by
  simp [receiver]

@[simp] theorem local_textArgument (v : Value) (parameter : String) :
    Local (textArgument v parameter) := by
  unfold textArgument
  split <;> simp

@[simp] theorem local_intArgument (v : Value) : Local (intArgument v) := by
  unfold intArgument
  split <;> simp

@[simp] theorem local_doubleArgument (v : Value) : Local (doubleArgument v) := by
  unfold doubleArgument
  split <;> simp

@[simp] theorem local_abs (v : Value) : Local (abs v) := by
  unfold abs
  repeat' split
  all_goals simp

@[simp] theorem local_extremum (f : Pair → Value) (left right : Value) :
    Local (extremum f left right) := by
  unfold extremum
  split <;> simp

@[simp] theorem local_charAt (s : List Char) (index : Int) : Local (charAt s index) := by
  unfold charAt
  repeat' split
  all_goals simp

@[simp] theorem local_substring (s : List Char) (start length : Int) :
    Local (substring s start length) := by
  unfold substring
  dsimp only
  repeat' split
  all_goals simp

@[simp] theorem local_indexOf (s : List Char) (v : Value) : Local (indexOf s v) := by
  unfold indexOf
  cases v <;> simp

@[simp] theorem local_replace (s : List Char) (old new : Value) : Local (replace s old new) := by
  unfold replace
  repeat' split
  all_goals simp

@[simp] theorem local_exceptionMessage (v : Value) : Local (exceptionMessage v) := by
  unfold exceptionMessage
  split <;> simp

@[simp] theorem local_toText (v : Value) : Local (toText v) := by
  unfold toText
  split <;> simp

theorem local_call (r : Code.Routine) (args : List Value) : Local (call r args) := by
  cases r
  all_goals simp only [call]
  all_goals split
  all_goals simp [realFunction, textFunction, textTest, substringFrom]

end Scriptlet.Machine
