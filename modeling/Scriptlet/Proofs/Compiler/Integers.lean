import Scriptlet.Proofs.Linking
import Scriptlet.Proofs.Token.Integer
import Scriptlet.Proofs.Typing.Integers

namespace Scriptlet

/-!
# Integer literals keep their value

The number that a text denotes is the value of its token, the tree has the literals of the tokens,
checking makes a constant of the same value from each, and the code pushes that constant.
-/

open Code (Module placeOperand)
open Text (Span)
open Typing

/-- Wherever the expression stands, it is the constant: checking neither reports anything nor looks
at what is around it, and the code is one instruction, which pushes the constant from the pool. -/
structure Tree.Expr.Emits (e : Tree.Expr) (k : Code.Literal) (t : DataType) : Prop where
  checks : ∃ o, o.type = .of t ∧ checkExpr e = pure ⟨.literal k, o⟩
  code : ∀ d, ∃ place pool, (Core.Expr.literal k).assemble.run d =
      ((), ⟨d.code.push (.const (placeOperand place)), pool, d.locals⟩) ∧
    pool[place]? = some k ∧ pool = if k ∈ d.literals then d.literals else d.literals.push k

/-- A text does not compile, and one of the reasons is an error at a place. -/
def Refused (source : List Char) (name : String) (code : ErrorCode) (span : Span) : Prop :=
  ∃ ds, compile source name = .error ds ∧ ∃ d ∈ ds, d.code = code ∧ d.span = span

section

variable {source : List Char} {name : String} {i : SignedInteger} {e : Tree.Expr}

theorem refused_of_mem_parseText {d : Diagnostic} (hd : d ∈ (parseText source).diagnostics)
    (herror : d.isError = true) : Refused source name d.code d.span := by
  have herrors : Diagnostic.hasErrors (parseText source).diagnostics = true :=
    List.any_eq_true.2 ⟨d, hd, herror⟩
  refine ⟨(parseText source).diagnostics, ?_, d, hd, rfl, rfl⟩
  unfold compile
  exact if_pos herrors

theorem refused_of_mem_checkSource {r : Report}
    (hparses : Diagnostic.hasErrors (parseText source).diagnostics = false)
    (hr : r ∈ (checkSource (parseText source).source).reports) :
    Refused source name r.error.code r.span := by
  refine ⟨_, ?_, r.diagnostic, List.mem_map_of_mem hr, rfl, rfl⟩
  unfold compile compileSource
  dsimp only
  rw [if_neg (by rw [hparses]; decide), if_pos]
  rw [Report.hasErrors_map, List.isEmpty_eq_false_iff_exists_mem.2 ⟨r, hr⟩]
  rfl

/-- A literal that fits is one constant. -/
theorem emits_of_fits (h : e.integer? = some i) (hfits : i.Fits) :
    ∃ k t, i.Constant k t ∧ e.Emits k t := by
  obtain ⟨k, t, o, hconstant, htype, hcheck⟩ := exists_constant_of_fits h hfits
  exact ⟨k, t, hconstant, ⟨o, htype, hcheck⟩, Core.assemble_literal k⟩

/-- A literal that does not fit is an error in every program in which it is an operand or stands on
its own. -/
theorem refused_of_not_fits (h : e.integer? = some i) (hfits : ¬i.Fits)
    (hparses : Diagnostic.hasErrors (parseText source).diagnostics = false) {root : Tree.Expr}
    (hroot : root ∈ (parseText source).source.expressions) (he : root.Exposes e) :
    Refused source name ⟨2003⟩ e.span :=
  refused_of_mem_checkSource hparses
    (mem_reports_checkSource (reports_of_exposes he (reports_of_not_fits h hfits)) hroot)

/-- A compiled program has the methods of its tree in their places, and each of them pushes the
constants of the integer literals of its method. -/
theorem exists_method_of_compile {m : Module} (h : compile source name = .ok m) {k j : ℕ}
    {c : Tree.Class} {t : Tree.Method} (hc : (parseText source).source.classes[k]? = some c)
    (ht : c.methods[j]? = some t) :
    ∃ cls f, m.classes[k]? = some cls ∧ cls.methods[j]? = some f ∧
      ∀ i ∈ t.expressions.flatMap Tree.Expr.integers,
        ∃ l type, i.Constant l type ∧ Core.Pushes f.code f.literals l := by
  obtain ⟨classes, hchecked, rfl⟩ := exists_checked_of_compile h
  rcases hchecked k with ⟨hnone, -⟩ | ⟨c', sig, core, hc', -, hcore, hclass⟩
  · cases hnone.symm.trans hc
  obtain rfl := Option.some.inj (hc.symm.trans hc')
  rcases hclass j with ⟨hnone, -⟩ | ⟨t', sig', method, ht', -, hmethod, -, helaborates⟩
  · cases hnone.symm.trans ht
  obtain rfl := Option.some.inj (ht.symm.trans ht')
  refine ⟨core.assemble, method.assemble, by simp [Core.assemble, hcore],
    by simp [Core.Class.assemble, hmethod], fun i hi => ?_⟩
  have hkept : KeptOf t.expressions method.body.literals := by
    cases helaborates with
    | mk _ hbody _ =>
        have hbody := StmtElaborates.kept _ hbody
        rwa [Tree.Stmt.expressions] at hbody
  obtain ⟨l, type, hconstant, hl⟩ := hkept i hi
  exact ⟨l, type, hconstant, Core.Method.pushes hl⟩

theorem hasErrors_of_compile {m : Module} (h : compile source name = .ok m) :
    Diagnostic.hasErrors (parseText source).diagnostics = false := by
  unfold compile at h
  dsimp only at h
  split at h
  · cases h
  · next hparses => exact Bool.not_eq_true _ ▸ hparses

/-- In a compiled program a literal with the text of the token is pushed as the constant of its
value, and its method is one of the program's. -/
theorem exists_pushed_of_compile {m : Module} (h : compile source name = .ok m) {token : Token}
    (htoken : token ∈ (lex source).tokens) {n : ℕ} {long : Bool}
    (hkind : token.kind = .int n long) :
    ∃ i : SignedInteger, ∃ l t, i.unsigned = (n, long) ∧ i.Constant l t ∧
      ∃ c ∈ m.classes, ∃ f ∈ c.methods, Core.Pushes f.code f.literals l := by
  have hsame := integers_parseText (hasErrors_of_compile h)
  have hmem : (n, long) ∈ TokenKind.integers ((lex source).tokens.map Token.kind) :=
    List.mem_filterMap.2 ⟨_, List.mem_map_of_mem htoken, by rw [hkind]; rfl⟩
  rw [← hsame] at hmem
  obtain ⟨i, hi, hunsigned⟩ := List.mem_map.1 hmem
  obtain ⟨root, hroot, hi⟩ := List.mem_flatMap.1 hi
  obtain ⟨c, hc, hroot⟩ := List.mem_flatMap.1 hroot
  obtain ⟨t, ht, hroot⟩ := List.mem_flatMap.1 hroot
  obtain ⟨k, hk⟩ := List.mem_iff_getElem?.1 hc
  obtain ⟨j, hj⟩ := List.mem_iff_getElem?.1 ht
  obtain ⟨cls, f, hcls, hf, hpushes⟩ := exists_method_of_compile h hk hj
  obtain ⟨l, type, hconstant, hl⟩ := hpushes i (List.mem_flatMap.2 ⟨root, hroot, hi⟩)
  exact ⟨i, l, type, hunsigned, hconstant, cls, Array.mem_of_getElem? hcls, f,
    Array.mem_of_getElem? hf, hl⟩

end

/-- A token with the text of an integer literal has its number, a number that is too large is an
error, and a compiled program pushes the number, with the sign that belongs to it, as a constant. -/
structure Token.KeepsValue (token : Token) (source : List Char) (n : ℕ) (long : Bool) : Prop where
  kind : n < 2 ^ 64 → token.kind = .int n long
  tooLarge : 2 ^ 64 ≤ n → ∀ name, Refused source name ⟨3⟩ token.span
  pushed : ∀ name m, compile source name = .ok m → n < 2 ^ 64 ∧
    ∃ i : SignedInteger, ∃ l t, i.unsigned = (n, long) ∧ i.Constant l t ∧
      ∃ c ∈ m.classes, ∃ f ∈ c.methods, Core.Pushes f.code f.literals l

/-- A literal, or a minus and a literal, is an `int` if that has its value, else a `long`, and else
an error in every program in which it is an operand or stands on its own. -/
structure Tree.Expr.KeepsValue (e : Tree.Expr) (i : SignedInteger) : Prop where
  int : i.IsInt → ∃ k : Int32, k.toInt = i.value ∧ e.Emits (.int k) .int
  long : ¬i.IsInt → i.Fits → ∃ k : Int64, k.toInt = i.value ∧ e.Emits (.long k) .long
  tooLarge : ¬i.Fits → ∀ source name, Diagnostic.hasErrors (parseText source).diagnostics = false →
    ∀ root ∈ (parseText source).source.expressions, root.Exposes e →
      Refused source name ⟨2003⟩ e.span

theorem Token.keepsValue {source text : List Char} {token : Token} {n : ℕ} {long : Bool}
    (h : IntegerText text n long) (htoken : token ∈ (lex source).tokens)
    (hholds : token.span.Holds 0 source text) : token.KeepsValue source n long := by
  obtain ⟨hkind, hlarge⟩ := readsInteger_lex h htoken hholds
  have htooLarge : 2 ^ 64 ≤ n → ∀ name, Refused source name ⟨3⟩ token.span := fun hn _ =>
    refused_of_mem_parseText (List.mem_append_left _ (hlarge hn)) rfl
  refine ⟨hkind, htooLarge, fun name m hcompile => ?_⟩
  have hn : n < 2 ^ 64 := by
    by_contra hn
    obtain ⟨ds, herror, -⟩ := htooLarge (Nat.le_of_not_lt hn) name
    cases hcompile.symm.trans herror
  exact ⟨hn, exists_pushed_of_compile hcompile htoken (hkind hn)⟩

theorem Tree.Expr.keepsValue {e : Tree.Expr} {i : SignedInteger} (h : e.integer? = some i) :
    e.KeepsValue i := by
  refine ⟨fun hint => ?_, fun hnot hfits => ?_, fun hfits source name hparses root hroot he => ?_⟩
  · obtain ⟨k, t, hconstant, hemits⟩ := emits_of_fits h hint.fits
    cases hconstant with
    | int _ hk => exact ⟨_, hk, hemits⟩
    | long hnot _ => exact absurd hint hnot
  · obtain ⟨k, t, hconstant, hemits⟩ := emits_of_fits h hfits
    cases hconstant with
    | int hint _ => exact absurd hint hnot
    | long _ hk => exact ⟨_, hk, hemits⟩
  · exact refused_of_not_fits h hfits hparses hroot he

/-- The text of an integer literal is one token, and wherever it stands the token keeps the number.
The token, and a minus with it, are read as an operand and as an expression of that value, which is
kept in turn by the code. -/
theorem integerText_keeps_value {text : List Char} {n : ℕ} {long : Bool}
    (h : IntegerText text n long) :
    (∃ token last, (lex text).tokens = [token, last] ∧ last.kind = .eof ∧
        token.span.Holds 0 text text) ∧
      (∀ source, ∀ token ∈ (lex source).tokens, token.span.Holds 0 source text →
        token.KeepsValue source n long) ∧
      ∀ i : SignedInteger, i.unsigned = (n, long) →
        (∀ depth s s', 16 ≤ depth → Parser.Took i.tokens s s' →
          (Parser.isPostfix s'.kind = false →
            ∃ e, e.integer? = some i ∧ Parser.Reads (Parser.unary depth) s e s') ∧
          (Parser.EndsExpr s'.kind →
            ∃ e, e.integer? = some i ∧ Parser.Reads (Parser.expr depth) s e s')) ∧
        ∀ e : Tree.Expr, e.integer? = some i → e.KeepsValue i := by
  refine ⟨?_, fun source token htoken hholds => Token.keepsValue h htoken hholds, fun i _ => ?_⟩
  · refine ⟨_, _, congrArg Lexed.tokens (lexFrom_integerText h 0), rfl, [], [], ?_, rfl, rfl⟩
    exact (List.append_nil text).symm
  · exact ⟨fun depth s s' hdepth htook => reads_integer hdepth htook, fun e he => e.keepsValue he⟩

/-- A program with a hexadecimal literal that is marked as `long` behind a minus. -/
def negativeText : List Char :=
  "class C \x7b static long F() \x7b return -0xF_L; \x7d \x7d".toList

def negativeModule : Module :=
  ⟨"M", #[⟨"C", #[⟨"F", false, true, [], [], .long, 0, #[.long (-15)], #[.const 0, .ret]⟩]⟩]⟩

theorem integerText_keeps_value_negative :
    compile negativeText "M" = .ok negativeModule ∧
      (∃ i : SignedInteger, ∃ l t, i.unsigned = (15, true) ∧ i.Constant l t ∧
        ∃ c ∈ negativeModule.classes, ∃ f ∈ c.methods, Core.Pushes f.code f.literals l) ∧
      ∃ e : Tree.Expr, e.integer? = some ⟨15, true, true⟩ ∧
        ∃ k : Int64, k.toInt = -15 ∧ e.Emits (.long k) .long := by
  have hdigit : IsDigitOf 16 15 'F' := ⟨by decide, .inr rfl⟩
  have hdigits : Denotes 16 ['F', '_'] 15 := .underscore (.first hdigit)
  have htext : IntegerText ['0', 'x', 'F', '_', 'L'] 15 true := .hex (.inl rfl) hdigits .upper
  have hcompile : compile negativeText "M" = .ok negativeModule := by decide +kernel
  have htoken : (⟨.int 15 true, ⟨36, 41⟩⟩ : Token) ∈ (lex negativeText).tokens := by
    decide +kernel
  have hholds : Span.Holds 0 negativeText ⟨36, 41⟩ ['0', 'x', 'F', '_', 'L'] :=
    ⟨negativeText.take 36, negativeText.drop 41, by decide, by decide, by decide⟩
  obtain ⟨-, htokens, hexprs⟩ := integerText_keeps_value htext
  obtain ⟨-, hpushed⟩ := (htokens negativeText _ htoken hholds).pushed "M" _ hcompile
  refine ⟨hcompile, hpushed,
    .unary (.strict .neg) (.literal (.int 15 true) Tree.noSpan) Tree.noSpan, rfl, ?_⟩
  refine ((hexprs ⟨15, true, true⟩ rfl).2 _ rfl).long ?_ ⟨by decide, by decide⟩
  rintro ⟨hshort, -⟩
  cases hshort

end Scriptlet
