namespace Scriptlet.Text

/-!
# Places in a text

Offsets count the bytes of the text in UTF-8. Positions count lines and characters from one.
-/

/-- The bytes from `start` up to `stop`. -/
structure Span where
  start : Nat
  stop : Nat
  deriving DecidableEq, Inhabited

namespace Span

def point (offset : Nat) : Span :=
  ⟨offset, offset⟩

def length (s : Span) : Nat :=
  s.stop - s.start

def isEmpty (s : Span) : Bool :=
  s.start == s.stop

/-- The least span that holds both. -/
def merge (s t : Span) : Span :=
  ⟨min s.start t.start, max s.stop t.stop⟩

def text (s : Span) : String :=
  s.start.repr ++ ".." ++ s.stop.repr

end Span

/-- The number of bytes of a text. -/
def byteLength (s : List Char) : Nat :=
  s.foldl (fun n c => n + c.utf8Size) 0

theorem foldl_utf8Size (s : List Char) (n : Nat) :
    s.foldl (fun n c => n + c.utf8Size) n = n + byteLength s := by
  unfold byteLength
  induction s generalizing n with
  | nil => rfl
  | cons c s ih =>
      simp only [List.foldl_cons, Nat.zero_add, ih (n + _), ih c.utf8Size, Nat.add_assoc]

@[simp] theorem byteLength_nil : byteLength [] = 0 := rfl

@[simp] theorem byteLength_cons (c : Char) (s : List Char) :
    byteLength (c :: s) = c.utf8Size + byteLength s := by
  rw [byteLength, List.foldl_cons, foldl_utf8Size, Nat.zero_add]

@[simp] theorem byteLength_append (s t : List Char) :
    byteLength (s ++ t) = byteLength s + byteLength t := by
  induction s with
  | nil => simp
  | cons c s ih => simp [ih, Nat.add_assoc]

/-- A line and a column, both counted from one. -/
structure Place where
  line : Nat
  column : Nat

/-- A place as it is shown, in 32 bits. -/
structure Position where
  line : UInt32
  column : UInt32
  deriving DecidableEq

/-- The lines and the columns of positions are written as natural numbers. -/
instance Position.coeNumber : CoeOut UInt32 Nat :=
  ⟨UInt32.toNat⟩

def Position.text (p : Position) : String :=
  "(" ++ p.line.toNat.repr ++ "," ++ p.column.toNat.repr ++ ")"

/-- A number in 32 bits; those beyond the greatest one count as that one. -/
def shownNumber (n : Nat) : UInt32 :=
  UInt32.ofNat (min n (UInt32.size - 1))

def Place.position (p : Place) : Position :=
  ⟨shownNumber p.line, shownNumber p.column⟩

/-- The place `offset` bytes into a text that begins on line `line`, behind `chars` characters and
`bytes` bytes of that line. Inside a character the column counts bytes. -/
def placeFrom (line chars bytes : Nat) : List Char → Nat → Place
  | [], _ => ⟨line, chars + 1⟩
  | c :: s, offset =>
      if offset = 0 then ⟨line, chars + 1⟩
      else if offset < c.utf8Size then ⟨line, bytes + offset + 1⟩
      else if c = '\n' then placeFrom (line + 1) 0 0 s (offset - c.utf8Size)
      else placeFrom line (chars + 1) (bytes + c.utf8Size) s (offset - c.utf8Size)

/-- The place of an offset; offsets past the end count as the end. -/
def place (s : List Char) (offset : Nat) : Place :=
  placeFrom 1 0 0 s offset

/-- The position of an offset. -/
def position (s : List Char) (offset : Nat) : Position :=
  (place s offset).position

/-- The position of an offset as seen from an origin, which has the position `(1,1)`. Everything
before the origin is moved to it. -/
def positionBeyond (s : List Char) (origin offset : Nat) : Position :=
  if offset < origin then ⟨1, 1⟩
  else
    let base := position s origin
    let here := position s offset
    if here.line = base.line then ⟨1, here.column - base.column + 1⟩
    else ⟨here.line - base.line + 1, here.column⟩

end Scriptlet.Text
