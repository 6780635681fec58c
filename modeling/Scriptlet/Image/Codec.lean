import Scriptlet.Text.Utf8

namespace Scriptlet.Image

/-!
# Codecs

A codec writes a value as bytes and reads it back from the front of a longer sequence. Numbers are
little endian and of fixed width, lists and texts begin with their length in eight bytes, and the
alternatives of a choice begin with their number in four bytes.
-/

/-- Why bytes cannot be read. -/
inductive ReadError where
  | endOfInput
  | endOfText
  | variant (found count : Nat)
  | truthValue (found : Nat)
  | character
  | text (e : Text.Utf8Error)
  deriving DecidableEq

def ReadError.message : ReadError → String
  | endOfInput => "io error: unexpected end of file"
  | endOfText => "io error: "
  | variant found count =>
      "invalid value: integer `" ++ found.repr ++ "`, expected variant index 0 <= i < " ++
        count.repr
  | truthValue found => "invalid u8 while decoding bool, expected 0 or 1, found " ++ found.repr
  | character => "char is not valid"
  | text e => "string is not valid utf8: " ++ e.message

/-- A reader gives the value at the front of the bytes and the bytes behind it. -/
structure Codec (α : Type) where
  put : α → List UInt8
  get : List UInt8 → Except ReadError (α × List UInt8)

/-- The low `n` bytes of a number, least significant first. -/
def littleEndian : Nat → Nat → List UInt8
  | 0, _ => []
  | n + 1, k => UInt8.ofNat k :: littleEndian n (k / 256)

def ofLittleEndian : List UInt8 → Nat
  | [] => 0
  | b :: bs => b.toNat + 256 * ofLittleEndian bs

/-- The first `n` bytes, if there are that many. -/
def takeBytes (missing : ReadError) (n : Nat) (bytes : List UInt8) :
    Except ReadError (List UInt8 × List UInt8) :=
  let front := bytes.take n
  if front.length = n then .ok (front, bytes.drop n) else .error missing

namespace Codec

/-- A codec for the values of `make`. -/
def map {α β : Type} (c : Codec α) (make : α → β) (of : β → α) : Codec β where
  put b := c.put (of b)
  get bytes := (c.get bytes).map fun (a, rest) => (make a, rest)

def pair {α β : Type} (c : Codec α) (d : Codec β) : Codec (α × β) where
  put p := c.put p.1 ++ d.put p.2
  get bytes := do
    let (a, bytes) ← c.get bytes
    let (b, bytes) ← d.get bytes
    return ((a, b), bytes)

/-- Numbers of `n` bytes. -/
def fixed (n : Nat) : Codec Nat where
  put k := littleEndian n k
  get bytes := (takeBytes .endOfInput n bytes).map fun (front, rest) => (ofLittleEndian front, rest)

def byte : Codec UInt8 := (fixed 1).map UInt8.ofNat UInt8.toNat

def word16 : Codec UInt16 := (fixed 2).map UInt16.ofNat UInt16.toNat

def word32 : Codec UInt32 := (fixed 4).map UInt32.ofNat UInt32.toNat

def word64 : Codec UInt64 := (fixed 8).map UInt64.ofNat UInt64.toNat

def bool : Codec Bool where
  put b := [if b then 1 else 0]
  get bytes := do
    let (n, rest) ← byte.get bytes
    if n = 0 then return (false, rest)
    else if n = 1 then return (true, rest)
    else throw (.truthValue n.toNat)

def char : Codec Char where
  put c := String.utf8EncodeChar c
  get
    | [] => .error .endOfInput
    | a :: rest =>
        match Text.decodeFirst a rest with
        | .char c rest => .ok (c, rest)
        | _ => .error .character

def string : Codec String where
  put s :=
    let bytes := Text.encode s.toList
    word64.put (UInt64.ofNat bytes.length) ++ bytes
  get bytes := do
    let (n, bytes) ← word64.get bytes
    let (front, rest) ← takeBytes .endOfText n.toNat bytes
    match Text.decode front with
    | .ok s => return (String.ofList s, rest)
    | .error e => throw (.text e)

/-- Reads `n` values after those in `before`, which are in reverse. -/
def getMany {α : Type} (c : Codec α) :
    Nat → List α → List UInt8 → Except ReadError (List α × List UInt8)
  | 0, before, bytes => .ok (before.reverse, bytes)
  | n + 1, before, bytes =>
      match c.get bytes with
      | .ok (a, rest) => getMany c n (a :: before) rest
      | .error e => .error e

def list {α : Type} (c : Codec α) : Codec (List α) where
  put as := word64.put (UInt64.ofNat as.length) ++ as.flatMap c.put
  get bytes := do
    let (n, bytes) ← word64.get bytes
    getMany c n.toNat [] bytes

def array {α : Type} (c : Codec α) : Codec (Array α) :=
  c.list.map List.toArray Array.toList

/-- The alternatives of a choice: each value has a number below `count` and a payload, and `get`
reads the payload of a number. -/
def choice {α : Type} (count : Nat) (number : α → Nat) (put : α → List UInt8)
    (get : Nat → List UInt8 → Except ReadError (α × List UInt8)) : Codec α where
  put a := word32.put (UInt32.ofNat (number a)) ++ put a
  get bytes := do
    let (n, bytes) ← word32.get bytes
    if n.toNat < count then get n.toNat bytes else throw (.variant n.toNat count)

/-- Reads a part and makes the whole of it. -/
def part {α β : Type} (c : Codec α) (make : α → β) (bytes : List UInt8) :
    Except ReadError (β × List UInt8) :=
  (c.get bytes).map fun (a, rest) => (make a, rest)

end Codec

end Scriptlet.Image
