import Scriptlet.Decimal.General
import Scriptlet.Text.Position

namespace Scriptlet

/-!
# Tokens

The words and symbols of the language, and the tokens that make up a source text.
-/

inductive Keyword where
  | kwUsing
  | kwClass
  | kwPublic
  | kwPrivate
  | kwInternal
  | kwProtected
  | kwStatic
  | kwVoid
  | kwBool
  | kwByte
  | kwShort
  | kwInt
  | kwLong
  | kwFloat
  | kwDouble
  | kwChar
  | kwString
  | kwObject
  | kwVar
  | kwIf
  | kwElse
  | kwWhile
  | kwDo
  | kwFor
  | kwReturn
  | kwThrow
  | kwNew
  | kwTrue
  | kwFalse
  | kwNull
  | kwBreak
  | kwContinue
  deriving DecidableEq

namespace Keyword

def spelling : Keyword → String
  | kwUsing => "using"
  | kwClass => "class"
  | kwPublic => "public"
  | kwPrivate => "private"
  | kwInternal => "internal"
  | kwProtected => "protected"
  | kwStatic => "static"
  | kwVoid => "void"
  | kwBool => "bool"
  | kwByte => "byte"
  | kwShort => "short"
  | kwInt => "int"
  | kwLong => "long"
  | kwFloat => "float"
  | kwDouble => "double"
  | kwChar => "char"
  | kwString => "string"
  | kwObject => "object"
  | kwVar => "var"
  | kwIf => "if"
  | kwElse => "else"
  | kwWhile => "while"
  | kwDo => "do"
  | kwFor => "for"
  | kwReturn => "return"
  | kwThrow => "throw"
  | kwNew => "new"
  | kwTrue => "true"
  | kwFalse => "false"
  | kwNull => "null"
  | kwBreak => "break"
  | kwContinue => "continue"

def all : List Keyword :=
  [kwUsing, kwClass, kwPublic, kwPrivate, kwInternal, kwProtected, kwStatic, kwVoid, kwBool, kwByte,
    kwShort, kwInt, kwLong, kwFloat, kwDouble, kwChar, kwString, kwObject, kwVar, kwIf, kwElse,
    kwWhile, kwDo, kwFor, kwReturn, kwThrow, kwNew, kwTrue, kwFalse, kwNull, kwBreak, kwContinue]

def ofSpelling? (s : String) : Option Keyword :=
  all.find? (·.spelling == s)

/-- Whether the word names a type that every program has. -/
def isTypeName : Keyword → Bool
  | kwBool | kwByte | kwShort | kwInt | kwLong | kwFloat | kwDouble | kwChar | kwString
  | kwObject => true
  | _ => false

def isModifier : Keyword → Bool
  | kwPublic | kwPrivate | kwInternal | kwProtected | kwStatic => true
  | _ => false

end Keyword

inductive Mark where
  | leftParen
  | rightParen
  | leftBrace
  | rightBrace
  | leftBracket
  | rightBracket
  | semicolon
  | comma
  | dot
  | question
  | colon
  | plus
  | minus
  | star
  | slash
  | percent
  | plusPlus
  | minusMinus
  | equalEqual
  | notEqual
  | less
  | lessEqual
  | greater
  | greaterEqual
  | andAnd
  | orOr
  | bang
  | tilde
  | and
  | or
  | caret
  | shiftLeft
  | shiftRight
  | equal
  | plusEqual
  | minusEqual
  | starEqual
  | slashEqual
  | percentEqual
  | andEqual
  | orEqual
  | caretEqual
  | shiftLeftEqual
  | shiftRightEqual
  deriving DecidableEq

namespace Mark

def spelling : Mark → String
  | leftParen => "("
  | rightParen => ")"
  | leftBrace => "\x7b"
  | rightBrace => "\x7d"
  | leftBracket => "["
  | rightBracket => "]"
  | semicolon => ";"
  | comma => ","
  | dot => "."
  | question => "?"
  | colon => ":"
  | plus => "+"
  | minus => "-"
  | star => "*"
  | slash => "/"
  | percent => "%"
  | plusPlus => "++"
  | minusMinus => "--"
  | equalEqual => "=="
  | notEqual => "!="
  | less => "<"
  | lessEqual => "<="
  | greater => ">"
  | greaterEqual => ">="
  | andAnd => "&&"
  | orOr => "||"
  | bang => "!"
  | tilde => "~"
  | and => "&"
  | or => "|"
  | caret => "^"
  | shiftLeft => "<<"
  | shiftRight => ">>"
  | equal => "="
  | plusEqual => "+="
  | minusEqual => "-="
  | starEqual => "*="
  | slashEqual => "/="
  | percentEqual => "%="
  | andEqual => "&="
  | orEqual => "|="
  | caretEqual => "^="
  | shiftLeftEqual => "<<="
  | shiftRightEqual => ">>="

/-- All marks, with none in front of a longer one that it begins. -/
def longestFirst : List Mark :=
  [shiftLeftEqual, shiftRightEqual,
    plusPlus, minusMinus, equalEqual, notEqual, lessEqual, greaterEqual, andAnd, orOr, shiftLeft,
    shiftRight, plusEqual, minusEqual, starEqual, slashEqual, percentEqual, andEqual, orEqual,
    caretEqual,
    leftParen, rightParen, leftBrace, rightBrace, leftBracket, rightBracket, semicolon, comma, dot,
    question, colon, plus, minus, star, slash, percent, less, greater, bang, tilde, and, or, caret,
    equal]

/-- The longest mark at the front of a text. -/
def longest? (s : List Char) : Option Mark :=
  longestFirst.find? fun m => m.spelling.toList.isPrefixOf s

end Mark

inductive TokenKind where
  | int (value : Nat) (long : Bool)
  | real (value : Float) (single : Bool)
  | string (s : String)
  | char (c : Char)
  | ident (name : String)
  | keyword (k : Keyword)
  | mark (m : Mark)
  | eof
  deriving DecidableEq

namespace TokenKind

def isTypeName : TokenKind → Bool
  | keyword k => k.isTypeName
  | _ => false

def isModifier : TokenKind → Bool
  | keyword k => k.isModifier
  | _ => false

/-- How messages name a token. -/
def text : TokenKind → String
  | int value _ => value.repr
  | real value _ => positionalText value
  | string s => "\"" ++ s ++ "\""
  | char c => "'" ++ c.toString ++ "'"
  | ident name => name
  | keyword k => k.spelling
  | mark m => m.spelling
  | eof => "end-of-file"

end TokenKind

structure Token where
  kind : TokenKind
  span : Text.Span
  deriving DecidableEq

end Scriptlet
