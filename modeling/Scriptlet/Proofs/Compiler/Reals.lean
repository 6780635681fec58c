import Scriptlet.Proofs.Compiler.Integers
import Scriptlet.Proofs.Decimal.Narrowing
import Scriptlet.Proofs.Token.Real

namespace Scriptlet

/-!
# Real literals keep their value

The constant of a real literal is the `double` that its digits are read as. If the literal is marked
as `float`, the constant is narrowed from that `double`, which is not always what its digits are
read as.
-/

open Binary (double single narrow ofFloat)
open Typing

/-- The constant of a real literal. That of a literal marked as `float` is the `float` its digits
are read as, unless the `double` in between has moved to the middle between two `float`s. -/
structure Tree.Expr.DenotesReal (e : Tree.Expr) (digits : List Char) (n : Numeral) (x : Float)
    (marked : Bool) : Prop where
  double : readValue (String.ofList digits) .double = .ok (.double x)
  unmarked : marked = false → e.Emits (.double x) .double
  marked : marked = true → e.Emits (.float (narrow x)) .float
  narrowed : readValue (String.ofList digits) .float = .ok (.float (narrow x)) ∨
    ∃ units, ofFloat x = .finite false units ∧ n.MovesToMiddle units

theorem Tree.Expr.denotesReal {digits : List Char} {n : Numeral} {x : Float}
    (hx : x = Binary.toFloat (n.toDatum double false))
    (hread : ∀ f, readReal f digits = .ok (n.toDatum f false)) (marked : Bool)
    (span : Text.Span) :
    (Tree.Expr.literal (.real x marked) span).DenotesReal digits n x marked := by
  have hdatum : ofFloat x = n.toDatum double false := by
    rw [hx]
    exact Binary.ofFloat_toFloat (Numeral.holdsDatum_toDatum (by decide) n false)
  refine ⟨?_, ?_, ?_, ?_⟩
  · rw [readValue, String.toList_ofList, hread, hx]
    rfl
  · rintro rfl
    exact ⟨⟨_, rfl, rfl⟩, Core.assemble_literal _⟩
  · rintro rfl
    exact ⟨⟨_, rfl, rfl⟩, Core.assemble_literal _⟩
  · rw [hdatum]
    refine (n.convert_toDatum false).imp_left fun hconvert => ?_
    rw [readValue, String.toList_ofList, hread, narrow, hdatum, hconvert]
    rfl

theorem Tree.Expr.eq_literal_of_bare {e : Tree.Expr} {l : Tree.Literal} {span : Text.Span}
    (h : e.bare = (Tree.Expr.literal l span).bare) : ∃ place, e = .literal l place := by
  cases e with
  | literal k place =>
      rw [bare, bare] at h
      exact ⟨place, by rw [(Tree.Expr.literal.inj h).1]⟩
  | _ =>
      rw [bare, bare] at h
      cases h

/-- Every real token has the text of a real literal. Its digits are a numeral, and where the token
is an operand or an expression, it is read as a literal with the constant of the numeral. -/
theorem real_literals_denote {source : List Char} {token : Token} {x : Float} {marked : Bool}
    (htoken : token ∈ (lex source).tokens) (hkind : token.kind = .real x marked) :
    ∃ text digits n, token.span.Holds 0 source text ∧ RealText text digits marked ∧
      Numeral.read? digits = some n ∧
      (∀ depth s s', 8 ≤ depth → Parser.Took [token.kind] s s' →
        (Parser.isPostfix s'.kind = false →
          ∃ span, Parser.Reads (Parser.unary depth) s (.literal (.real x marked) span) s') ∧
        (Parser.EndsExpr s'.kind →
          ∃ span, Parser.Reads (Parser.expr depth) s (.literal (.real x marked) span) s')) ∧
      ∀ span, (Tree.Expr.literal (.real x marked) span).DenotesReal digits n x marked := by
  obtain ⟨text, digits, n, hholds, htext, hread, hx, hvalue⟩ :=
    exists_realText_of_mem_lex htoken hkind
  refine ⟨text, digits, n, hholds, htext, hread, fun depth s s' hdepth htook => ?_,
    Tree.Expr.denotesReal hx hvalue marked⟩
  rw [hkind] at htook
  have hspells : Grammar.Spells (.expr 12 (.literal (.real x marked) Tree.noSpan))
      [.real x marked] := .literal _ _ (by decide)
  obtain ⟨hunary, hexpr⟩ := reads_operand hspells hdepth htook
  refine ⟨fun hend => ?_, fun hend => ?_⟩
  · obtain ⟨e, hbare, hread⟩ := hunary hend
    obtain ⟨span, rfl⟩ := e.eq_literal_of_bare hbare
    exact ⟨span, hread⟩
  · obtain ⟨e, hbare, hread⟩ := hexpr hend
    obtain ⟨span, rfl⟩ := e.eq_literal_of_bare hbare
    exact ⟨span, hread⟩

theorem real_literals_denote_tenth :
    (⟨.real (Float.ofBits 0x3fb999999999999a) true, ⟨0, 6⟩⟩ : Token) ∈
        (lex "0.1_0f".toList).tokens ∧
      ∃ text digits n, Text.Span.Holds 0 "0.1_0f".toList ⟨0, 6⟩ text ∧ RealText text digits true ∧
        Numeral.read? digits = some n ∧
        ∀ span, (Tree.Expr.literal (.real (Float.ofBits 0x3fb999999999999a) true) span).DenotesReal
          digits n (Float.ofBits 0x3fb999999999999a) true := by
  have htoken : (⟨.real (Float.ofBits 0x3fb999999999999a) true, ⟨0, 6⟩⟩ : Token) ∈
      (lex "0.1_0f".toList).tokens := by decide +kernel
  obtain ⟨text, digits, n, hholds, htext, hread, -, hdenotes⟩ := real_literals_denote htoken rfl
  exact ⟨htoken, text, digits, n, hholds, htext, hread, hdenotes⟩

/-- A program with a literal that is marked as `float`. As a `double` it lies in the middle between
two `float`s, as a number it does not. -/
def middleText : List Char :=
  "class C \x7b public float F() \x7b return 16777217.000000001f; \x7d \x7d".toList

def middleModule : Code.Module :=
  ⟨"M", #[⟨"C", #[⟨"F", true, false, [], [], .float, 0, #[.float (Float32.ofBits 0x4b800000)],
    #[.const 0, .ret]⟩]⟩]⟩

theorem marked_literal_rounded_twice :
    compile middleText "M" = .ok middleModule ∧
      Text.Span.Holds 0 middleText ⟨36, 55⟩ "16777217.000000001f".toList ∧
      (⟨.real (Float.ofBits 0x4170000010000000) true, ⟨36, 55⟩⟩ : Token) ∈
        (lex middleText).tokens ∧
      RealText "16777217.000000001f".toList "16777217.000000001".toList true ∧
      (∀ span, (Tree.Expr.literal (.real (Float.ofBits 0x4170000010000000) true) span).Emits
        (.float (Float32.ofBits 0x4b800000)) .float) ∧
      readValue "16777217.000000001" .float = .ok (.float (Float32.ofBits 0x4b800001)) ∧
      Float32.ofBits 0x4b800000 ≠ Float32.ofBits 0x4b800001 := by
  have hwhole : DigitRow "16777217".toList := .of_all (by decide) (by decide)
  have hfraction : DigitRow "000000001".toList := .of_all (by decide) (by decide)
  have hnarrow : narrow (Float.ofBits 0x4170000010000000) = Float32.ofBits 0x4b800000 := by
    decide +kernel
  refine ⟨by decide +kernel, ?_, by decide +kernel, ?_, fun span => ?_, by decide +kernel,
    by decide +kernel⟩
  · exact ⟨middleText.take 36, middleText.drop 55, by decide, by decide, by decide⟩
  · exact .text (.pointed (.inr hwhole) hfraction .absent) (.single (.inl rfl)) fun _ => by simp
  · rw [← hnarrow]
    exact ⟨⟨_, rfl, rfl⟩, Core.assemble_literal _⟩

end Scriptlet
