namespace Scriptlet.Text

/-!
# Decoding UTF-8

Characters are decoded one at a time. What is no character is either cut short by the end of the
input or wrong in itself; then the number of bytes that could still have begun a character is
reported.
-/

/-- What stands at the front of a byte sequence. -/
inductive Decoded where
  | char (c : Char) (rest : List UInt8)
  | invalid (length : Nat)
  | incomplete

/-- The length of the character that a byte begins; zero if none begins with it. -/
def sequenceLength (b : UInt8) : Nat :=
  if b < 0x80 then 1
  else if b < 0xC2 then 0
  else if b < 0xE0 then 2
  else if b < 0xF0 then 3
  else if b < 0xF5 then 4
  else 0

def isContinuation (b : UInt8) : Bool :=
  0x80 ≤ b && b ≤ 0xBF

/-- Whether the second byte of a character can follow the first one. -/
def canFollow (first second : UInt8) : Bool :=
  if first = 0xE0 then 0xA0 ≤ second && second ≤ 0xBF
  else if first = 0xED then 0x80 ≤ second && second ≤ 0x9F
  else if first = 0xF0 then 0x90 ≤ second && second ≤ 0xBF
  else if first = 0xF4 then 0x80 ≤ second && second ≤ 0x8F
  else isContinuation second

/-- The character with the given bits of its bytes, most significant first. -/
def ofPayload (payload : List Nat) : Char :=
  Char.ofNat (payload.foldl (fun n p => 64 * n + p) 0)

/-- The bits that a continuation byte carries. -/
def payload (b : UInt8) : Nat :=
  b.toNat - 0x80

def decodeFirst (a : UInt8) (rest : List UInt8) : Decoded :=
  match sequenceLength a with
  | 1 => .char (Char.ofNat a.toNat) rest
  | 2 =>
      match rest with
      | [] => .incomplete
      | b :: rest =>
          if canFollow a b then .char (ofPayload [a.toNat - 0xC0, payload b]) rest
          else .invalid 1
  | 3 =>
      match rest with
      | [] => .incomplete
      | [b] => if canFollow a b then .incomplete else .invalid 1
      | b :: c :: rest =>
          if !canFollow a b then .invalid 1
          else if !isContinuation c then .invalid 2
          else .char (ofPayload [a.toNat - 0xE0, payload b, payload c]) rest
  | 4 =>
      match rest with
      | [] => .incomplete
      | [b] => if canFollow a b then .incomplete else .invalid 1
      | [b, c] =>
          if !canFollow a b then .invalid 1
          else if !isContinuation c then .invalid 2
          else .incomplete
      | b :: c :: d :: rest =>
          if !canFollow a b then .invalid 1
          else if !isContinuation c then .invalid 2
          else if !isContinuation d then .invalid 3
          else .char (ofPayload [a.toNat - 0xF0, payload b, payload c, payload d]) rest
  | _ => .invalid 1

theorem length_lt_of_decodeFirst {a : UInt8} {rest tail : List UInt8} {c : Char}
    (h : decodeFirst a rest = .char c tail) : tail.length < (a :: rest).length := by
  unfold decodeFirst at h
  split at h <;> (try split at h) <;> (repeat' split at h) <;> simp_all <;> omega

/-- Why bytes are no text, with the number of bytes that were good. -/
inductive Utf8Error where
  | invalid (length index : Nat)
  | incomplete (index : Nat)
  deriving DecidableEq

def Utf8Error.message : Utf8Error → String
  | invalid length index =>
      "invalid utf-8 sequence of " ++ length.repr ++ " bytes from index " ++ index.repr
  | incomplete index => "incomplete utf-8 byte sequence from index " ++ index.repr

/-- The characters that bytes encode, with those decoded before them in reverse. -/
def decodeFrom (index : Nat) (before : List Char) : List UInt8 → Except Utf8Error (List Char)
  | [] => .ok before.reverse
  | a :: rest =>
      match _h : decodeFirst a rest with
      | .char c tail => decodeFrom (index + c.utf8Size) (c :: before) tail
      | .invalid length => .error (.invalid length index)
      | .incomplete => .error (.incomplete index)
termination_by bytes => bytes.length
decreasing_by exact length_lt_of_decodeFirst ‹_›

def decode (bytes : List UInt8) : Except Utf8Error (List Char) :=
  decodeFrom 0 [] bytes

def encode (s : List Char) : List UInt8 :=
  s.flatMap String.utf8EncodeChar

end Scriptlet.Text
