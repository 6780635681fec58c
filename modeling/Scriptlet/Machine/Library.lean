import Scriptlet.Machine.Conversion
import Scriptlet.Machine.Operator
import Scriptlet.Text.LetterCase
import Scriptlet.Text.Search

namespace Scriptlet.Machine

/-!
# Library routines

The built-in routines on numbers, texts, exceptions and the console. Texts are sequences of
characters, and all positions and lengths count characters.
-/

open Code (Routine)

/-- What a routine does besides failing. -/
inductive Reply where
  | value (v : Value)
  | print (text : String)

/-- A number of characters as an `int`. -/
def countInt (n : Nat) : Int32 :=
  Int32.ofNat (min n 2147483647)

/-- The text that a text routine is called on. -/
def receiverText (v : Value) : Except Fault String :=
  match v with
  | .string s => .ok s
  | .null => .error (.failed .nullReference)
  | _ => .error (.defective (.receiver v.runtimeName))

/-- The characters of the text that a text routine is called on. -/
def receiver (v : Value) : Except Fault (List Char) :=
  (receiverText v).map String.toList

/-- A text argument that must not be null. -/
def textArgument (v : Value) (parameter : String) : Except Fault (List Char) :=
  match v with
  | .string s => .ok s.toList
  | .null => .error (.failed (.nullArgument parameter))
  | _ => .error (.defective (.stringArgument v.runtimeName))

def intArgument (v : Value) : Except Fault Int :=
  match Promoted.of? v with
  | some (.int n) => .ok n.toInt
  | _ => .error (.defective (.intArgument v.runtimeName))

def doubleArgument (v : Value) : Except Fault Float :=
  match Promoted.of? v with
  | some p => .ok p.toDouble
  | none => .error (.defective (.doubleArgument v.runtimeName))

/-- A value of text. -/
def textValue (s : List Char) : Value :=
  .string (String.ofList s)

def abs (v : Value) : Except Fault Value :=
  match Promoted.of? v with
  | some (.int n) =>
      if n = Int32.minValue then .error (.failed .negateMinimum)
      else .ok (.int (if n < 0 then -n else n))
  | some (.long n) =>
      if n = Int64.minValue then .error (.failed .negateMinimum)
      else .ok (.long (if n < 0 then -n else n))
  | some (.float x) => .ok (.float x.abs)
  | some (.double x) => .ok (.double x.abs)
  | none => .error (.defective (.routineArgument .abs v.runtimeName))

/-- The left operand unless the right one is greater; what is not a number is greater than all. -/
def maximum : Pair → Value
  | .ints a b => .int (if a < b then b else a)
  | .longs a b => .long (if a < b then b else a)
  | .floats a b => .float (if a.isNaN then a else if b.isNaN then b else if a < b then b else a)
  | .doubles a b => .double (if a.isNaN then a else if b.isNaN then b else if a < b then b else a)

/-- The left operand unless the right one is less; what is not a number is less than all. -/
def minimum : Pair → Value
  | .ints a b => .int (if b < a then b else a)
  | .longs a b => .long (if b < a then b else a)
  | .floats a b => .float (if a.isNaN then a else if b.isNaN then b else if b < a then b else a)
  | .doubles a b => .double (if a.isNaN then a else if b.isNaN then b else if b < a then b else a)

def extremum (f : Pair → Value) (left right : Value) : Except Fault Value :=
  match Pair.of? left right with
  | some p => .ok (f p)
  | none => .error (.defective .extremum)

def charAt (s : List Char) (index : Int) : Except Fault Value :=
  if index < 0 then .error (.failed .indexOutOfRange)
  else
    match s[index.toNat]? with
    | some c => .ok (.char c)
    | none => .error (.failed .indexOutOfRange)

/-- `length` characters from position `start` on. -/
def substring (s : List Char) (start length : Int) : Except Fault Value :=
  let total := (countInt s.length).toInt
  if start < 0 then .error (.failed .negativeStart)
  else if total < start then .error (.failed .startBeyondEnd)
  else if length < 0 then .error (.failed .negativeLength)
  else if total < start + length then .error (.failed .endBeyondEnd)
  else .ok (textValue ((s.drop start.toNat).take length.toNat))

def position (t s : List Char) : Value :=
  match Text.indexOf? t s with
  | some k => .int (countInt k)
  | none => .int (-1)

def indexOf (s : List Char) (v : Value) : Except Fault Value :=
  match v with
  | .char c => .ok (position [c] s)
  | .string t => .ok (position t.toList s)
  | .null => .error (.failed (.nullArgument "value"))
  | _ => .error (.defective (.routineArgument .indexOf v.runtimeName))

def replace (s : List Char) (old new : Value) : Except Fault Value :=
  match old with
  | .null => .error (.failed (.nullArgument "oldValue"))
  | .char a =>
      match new with
      | .char b => .ok (textValue (s.map fun c => if c = a then b else c))
      | _ => .error (.defective (.routineArgument .replace old.runtimeName))
  | .string t =>
      if t.isEmpty then .error (.failed .emptyOldValue)
      else
        match new with
        | .string u => .ok (textValue (Text.replaceAll t.toList u.toList s))
        | .null => .ok (textValue (Text.replaceAll t.toList [] s))
        | _ => .error (.defective (.routineArgument .replace new.runtimeName))
  | _ => .error (.defective (.routineArgument .replace old.runtimeName))

def newException (c : ExceptionClass) : Value → Value
  | .string message => .exception c message
  | _ => .exception c c.defaultMessage

def exceptionMessage (v : Value) : Except Fault Value :=
  match v with
  | .exception _ message => .ok (.string message)
  | .null => .error (.failed .nullReference)
  | _ => .error (.defective (.routineArgument .message v.runtimeName))

def isNullOrEmpty : Value → Bool
  | .null => true
  | .string s => s.isEmpty
  | _ => false

/-- A routine of one number. -/
def realFunction (f : Float → Float) (v : Value) : Except Fault Value :=
  (doubleArgument v).map fun x => .double (f x)

/-- A routine of one text. -/
def textFunction (f : List Char → Value) (v : Value) : Except Fault Value :=
  (receiver v).map f

/-- A test of one text against another. -/
def textTest (f : List Char → List Char → Bool) (v w : Value) : Except Fault Value := do
  let s ← receiver v
  let t ← textArgument w "value"
  return .bool (f s t)

def toText (v : Value) : Except Fault Value :=
  if v.isNull then .error (.failed .nullReference) else .ok (.string v.text)

/-- The rest of a text from a position. -/
def substringFrom (v i : Value) : Except Fault Value := do
  let s ← receiver v
  let start ← intArgument i
  substring s start ((countInt s.length).toInt - max start 0)

/-- Calls a routine with its arguments in order. -/
def call (r : Routine) (args : List Value) : Except Fault Reply :=
  let wrongCount : Except Fault Reply := .error (.defective (.routineCount r args.length))
  let none (reply : Reply) : Except Fault Reply :=
    match args with
    | [] => .ok reply
    | _ => wrongCount
  let one (f : Value → Except Fault Value) : Except Fault Reply :=
    match args with
    | [a] => (f a).map .value
    | _ => wrongCount
  let two (f : Value → Value → Except Fault Value) : Except Fault Reply :=
    match args with
    | [a, b] => (f a b).map .value
    | _ => wrongCount
  let three (f : Value → Value → Value → Except Fault Value) : Except Fault Reply :=
    match args with
    | [a, b, c] => (f a b c).map .value
    | _ => wrongCount
  let printed (f : Value → String) : Except Fault Reply :=
    match args with
    | [a] => .ok (.print (f a))
    | _ => wrongCount
  match r with
  | .abs => one abs
  | .max => two (extremum maximum)
  | .min => two (extremum minimum)
  | .pow => two fun a b => do return .double ((← doubleArgument a).pow (← doubleArgument b))
  | .sqrt => one (realFunction Float.sqrt)
  | .floor => one (realFunction (Binary.roundFloat .down))
  | .ceiling => one (realFunction (Binary.roundFloat .up))
  | .round => one (realFunction (Binary.roundFloat .toEven))
  | .parse t => one (parse · t)
  | .convertTo t => one (convertTo · t)
  | .toText => one toText
  | .length => one fun v => (receiverText v).map fun s => .int (countInt s.length)
  | .charAt => two fun v i => do charAt (← receiver v) (← intArgument i)
  | .toUpper => one (textFunction fun s => textValue (Text.upper s))
  | .toLower => one (textFunction fun s => textValue (Text.lower s))
  | .trim => one (textFunction fun s => textValue (Text.trim s))
  | .substring => two substringFrom
  | .substringOf =>
      three fun v i n => do substring (← receiver v) (← intArgument i) (← intArgument n)
  | .contains => two (textTest fun s t => (Text.indexOf? t s).isSome)
  | .startsWith => two (textTest fun s t => t.isPrefixOf s)
  | .endsWith => two (textTest fun s t => t.isSuffixOf s)
  | .indexOf => two fun v w => do indexOf (← receiver v) w
  | .replace => three fun v old new => do replace (← receiver v) old new
  | .isNullOrEmpty => one fun v => .ok (.bool (isNullOrEmpty v))
  | .concat n =>
      if args.length = n.toNat then .ok (.value (.string (String.join (args.map Value.text))))
      else wrongCount
  | .newException c => one fun v => .ok (newException c v)
  | .newDefault c => none (.value (.exception c c.defaultMessage))
  | .message => one exceptionMessage
  | .writeLine => printed fun v => v.text ++ "\n"
  | .writeNewline => none (.print "\n")
  | .write => printed Value.text

end Scriptlet.Machine
