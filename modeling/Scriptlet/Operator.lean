namespace Scriptlet

/-!
# Operators

The operators that work on values. Each has a name, which listings of code show, and binary ones a
symbol, which programs write.
-/

inductive BinaryOp where
  | add
  | sub
  | mul
  | div
  | rem
  | bitAnd
  | bitOr
  | bitXor
  | shl
  | shr
  | eq
  | ne
  | lt
  | le
  | gt
  | ge
  deriving DecidableEq

def BinaryOp.name : BinaryOp → String
  | add => "Add"
  | sub => "Sub"
  | mul => "Mul"
  | div => "Div"
  | rem => "Rem"
  | bitAnd => "BitAnd"
  | bitOr => "BitOr"
  | bitXor => "BitXor"
  | shl => "Shl"
  | shr => "Shr"
  | eq => "Eq"
  | ne => "Ne"
  | lt => "Lt"
  | le => "Le"
  | gt => "Gt"
  | ge => "Ge"

/-- How programs write the operator. -/
def BinaryOp.symbol : BinaryOp → String
  | add => "+"
  | sub => "-"
  | mul => "*"
  | div => "/"
  | rem => "%"
  | bitAnd => "&"
  | bitOr => "|"
  | bitXor => "^"
  | shl => "<<"
  | shr => ">>"
  | eq => "=="
  | ne => "!="
  | lt => "<"
  | le => "<="
  | gt => ">"
  | ge => ">="

def BinaryOp.isComparison : BinaryOp → Bool
  | eq | ne | lt | le | gt | ge => true
  | _ => false

inductive UnaryOp where
  | neg
  | not
  | bitNot
  deriving DecidableEq

def UnaryOp.name : UnaryOp → String
  | neg => "Neg"
  | not => "Not"
  | bitNot => "BitNot"

end Scriptlet
