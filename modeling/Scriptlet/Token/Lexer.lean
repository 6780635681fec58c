import Scriptlet.Decimal.Reader
import Scriptlet.Diagnostic
import Scriptlet.Text.Escape
import Scriptlet.Token.Lexeme

namespace Scriptlet

/-!
# Lexing

Each lexeme but blanks and comments gives a token. A faulty literal gives a token too, with a value
in place of the one it lacks, so that parsing can go on.
-/

inductive LexError where
  | unterminatedString
  | unexpected (c : Char)
  | tooLarge
  | unterminatedChar
  | emptyChar
  | longChar
  | badEscape
  | unclosedComment
  deriving DecidableEq

namespace LexError

def code : LexError → ErrorCode
  | unterminatedString => ⟨1⟩
  | unexpected _ => ⟨2⟩
  | tooLarge => ⟨3⟩
  | unterminatedChar | emptyChar | longChar => ⟨4⟩
  | badEscape => ⟨5⟩
  | unclosedComment => ⟨6⟩

def message : LexError → String
  | unterminatedString | unterminatedChar => "Newline in constant"
  | unexpected c => "Unexpected character '" ++ c.toString ++ "'"
  | tooLarge => "Integral constant is too large"
  | emptyChar => "Empty character literal"
  | longChar => "Too many characters in character literal"
  | badEscape => "Unrecognized escape sequence"
  | unclosedComment => "End-of-file found, '*/' expected"

def diagnostic (e : LexError) (span : Text.Span) : Diagnostic :=
  ⟨e.code, .error, e.message, span⟩

end LexError

namespace Lexeme

/-- The text without a last character that satisfies a test, and whether there was one. -/
def dropSuffix (p : Char → Bool) (s : List Char) : List Char × Bool :=
  match s.getLast? with
  | some c => if p c then (s.dropLast, true) else (s, false)
  | none => (s, false)

def withoutUnderscores (s : List Char) : List Char :=
  s.filter (· != '_')

/-- Integers from here on are too large. -/
def intLimit : Nat := 18446744073709551616

def intToken (value : Nat) (long : Bool) (span : Text.Span) : TokenKind × List Diagnostic :=
  if value < intLimit then (.int value long, [])
  else (.int 0 long, [LexError.tooLarge.diagnostic span])

def decimalToken (text : List Char) (span : Text.Span) : TokenKind × List Diagnostic :=
  let (digits, long) := dropSuffix isLongSuffix text
  intToken (Numeral.digitsValue (withoutUnderscores digits)) long span

def hexToken (text : List Char) (span : Text.Span) : TokenKind × List Diagnostic :=
  let (digits, long) := dropSuffix isLongSuffix text
  intToken ((Text.hexValue? (withoutUnderscores (digits.drop 2))).getD 0) long span

/-- The double nearest to a numeral. -/
def realValue (digits : List Char) : Float :=
  match Numeral.read? digits with
  | some n => Binary.toFloat (n.toDatum Binary.double false)
  | none => 0

def realToken (text : List Char) : TokenKind :=
  let (digits, single) := dropSuffix (fun c => c == 'f' || c == 'F') text
  let (digits, _) := dropSuffix (fun c => !single && (c == 'd' || c == 'D')) digits
  .real (realValue (withoutUnderscores digits)) single

/-- The denoted text of a literal's content; content with a bad escape sequence stands for
itself. -/
def literalText (content : List Char) (span : Text.Span) : List Char × List Diagnostic :=
  match Text.unescape content with
  | .ok s => (s, [])
  | .error e =>
      let start := span.start + 1 + e.offset
      (content, [LexError.badEscape.diagnostic ⟨start, start + e.length⟩])

def stringToken (closed : Bool) (text : List Char) (span : Text.Span) :
    TokenKind × List Diagnostic :=
  let content := if closed then text.tail.dropLast else text.tail
  let (s, errors) := literalText content span
  let kind := .string (String.ofList s)
  if closed then (kind, errors)
  else (kind, LexError.unterminatedString.diagnostic span :: errors)

def charToken (closed : Bool) (text : List Char) (span : Text.Span) :
    TokenKind × List Diagnostic :=
  if closed then
    let (s, errors) := literalText text.tail.dropLast span
    match s with
    | [c] => (.char c, errors)
    | [] => (.char '\x00', errors ++ [LexError.emptyChar.diagnostic span])
    | c :: _ => (.char c, errors ++ [LexError.longChar.diagnostic span])
  else (.char '\x00', [LexError.unterminatedChar.diagnostic span])

def wordToken (text : List Char) : TokenKind :=
  let s := String.ofList text
  match Keyword.ofSpelling? s with
  | some k => .keyword k
  | none => .ident s

/-- What a lexeme contributes: at most one token, and diagnostics. -/
def evaluate (p : Pattern) (text : List Char) (span : Text.Span) :
    Option TokenKind × List Diagnostic :=
  match p with
  | .blank | .comment true => (none, [])
  | .comment false => (none, [LexError.unclosedComment.diagnostic span])
  | .decimalInt => (decimalToken text span).map some id
  | .hexInt => (hexToken text span).map some id
  | .real => (some (realToken text), [])
  | .string closed => (stringToken closed text span).map some id
  | .char closed => (charToken closed text span).map some id
  | .word => (some (wordToken text), [])
  | .mark m => (some (.mark m), [])
  | .unexpected => (none, [LexError.unexpected (text.headD '\uFFFD') |>.diagnostic span])

end Lexeme

structure Lexed where
  tokens : List Token
  diagnostics : List Diagnostic
  deriving DecidableEq

/-- The tokens and diagnostics of a text that starts at a byte offset. -/
def lexFrom (offset : Nat) : List Char → Lexed
  | [] => ⟨[⟨.eof, .point offset⟩], []⟩
  | c :: s =>
      let (pattern, n) := Lexeme.scan c s
      let text := c :: s.take n
      let stop := offset + Text.byteLength text
      let span := ⟨offset, stop⟩
      let (kind, errors) := Lexeme.evaluate pattern text span
      let rest := lexFrom stop (s.drop n)
      ⟨(kind.map fun k => ⟨k, span⟩).toList ++ rest.tokens, errors ++ rest.diagnostics⟩
termination_by s => s.length
decreasing_by
  simp only [List.length_drop, List.length_cons]
  omega

/-- The tokens of a source text, the last of which marks its end, and what is wrong with it. -/
def lex (source : List Char) : Lexed :=
  lexFrom 0 source

end Scriptlet
