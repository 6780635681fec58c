import Scriptlet.Proofs.Parser.Completeness.Stmt
import Scriptlet.Proofs.Parser.Grammar.Ends
import Scriptlet.Proofs.Parser.Soundness.Source
import Scriptlet.Proofs.Parser.Termination
import Scriptlet.Proofs.Token.Lexer

namespace Scriptlet

/-!
# The integer literals of a tree

Parsing neither loses an integer literal nor makes one up: those of the tree are those of the
tokens, in the same order. A minus that stands right before a literal belongs to it.
-/

/-- An integer literal, and whether a minus belongs to it. -/
structure SignedInteger where
  magnitude : Nat
  long : Bool
  negative : Bool
  deriving DecidableEq

namespace SignedInteger

def value (i : SignedInteger) : Int :=
  if i.negative then -i.magnitude else i.magnitude

/-- What the token tells about the literal. -/
def unsigned (i : SignedInteger) : Nat × Bool :=
  (i.magnitude, i.long)

/-- The tokens of the literal with its sign. -/
def tokens (i : SignedInteger) : List TokenKind :=
  (if i.negative then [.mark .minus] else []) ++ [.int i.magnitude i.long]

end SignedInteger

namespace TokenKind

def integer? : TokenKind → Option (Nat × Bool)
  | .int value long => some (value, long)
  | _ => none

/-- The integers among tokens. -/
def integers (ts : List TokenKind) : List (Nat × Bool) :=
  ts.filterMap integer?

section

variable (ts us : List TokenKind)

@[simp] theorem integers_nil : integers [] = [] := rfl

@[simp] theorem integers_append : integers (ts ++ us) = integers ts ++ integers us :=
  List.filterMap_append

@[simp] theorem integers_mark (m : Mark) : integers (mark m :: ts) = integers ts := rfl

@[simp] theorem integers_keyword (k : Keyword) : integers (keyword k :: ts) = integers ts := rfl

@[simp] theorem integers_ident (s : String) : integers (ident s :: ts) = integers ts := rfl

end

end TokenKind

namespace Tree

/-- The integer literal that an expression is, on its own or behind a minus. -/
def Expr.integer? : Expr → Option SignedInteger
  | .literal (.int value long) _ => some ⟨value, long, false⟩
  | .unary (.strict .neg) (.literal (.int value long) _) _ => some ⟨value, long, true⟩
  | _ => none

theorem Expr.integer?_bare (e : Expr) : e.bare.integer? = e.integer? := by
  cases e with
  | literal l span => rw [bare]; cases l <;> rfl
  | unary sign operand span =>
      rw [bare]
      rcases sign with _ | (_ | _ | _)
      case strict.neg => cases operand with
        | literal l span => rw [bare]; cases l <;> rfl
        | _ => rw [bare]; rfl
      all_goals rfl
  | _ => rw [bare]; rfl

mutual

/-- The integer literals of an expression, from left to right. -/
def Expr.integers : Expr → List SignedInteger
  | .literal l span => (Expr.integer? (.literal l span)).toList
  | .name _ _ | .type _ _ => []
  | .member receiver _ _ => receiver.integers
  | .call callee args _ => callee.integers ++ integersOf args
  | .index receiver index _ => receiver.integers ++ index.integers
  | .new _ args _ => integersOf args
  | .unary sign operand span =>
      match Expr.integer? (.unary sign operand span) with
      | some i => [i]
      | none => operand.integers
  | .binary _ left right _ => left.integers ++ right.integers
  | .assign _ target value _ => target.integers ++ value.integers
  | .step _ _ target _ => target.integers
  | .conditional condition yes no _ => condition.integers ++ yes.integers ++ no.integers
  | .cast _ operand _ => operand.integers

def integersOf : List Expr → List SignedInteger
  | [] => []
  | e :: es => e.integers ++ integersOf es

end

/-! ### The expressions of statements and programs -/

def LocalDecl.expressions (d : LocalDecl) : List Expr :=
  d.declarators.flatMap fun d => d.value.toList

def ForInit.expressions : ForInit → List Expr
  | .nothing => []
  | .locals d => d.expressions
  | .exprs es => es

mutual

/-- The expressions that are parts of a statement, but not parts of other expressions. -/
def Stmt.expressions : Stmt → List Expr
  | .block body _ => blockExpressions body
  | .empty _ | .leave _ | .next _ => []
  | .locals d _ => d.expressions
  | .expr e _ | .throw e _ => [e]
  | .cond condition yes none _ => condition :: yes.expressions
  | .cond condition yes (some no) _ => condition :: yes.expressions ++ no.expressions
  | .loop condition body _ => condition :: body.expressions
  | .doLoop body condition _ => body.expressions ++ [condition]
  | .forLoop init condition steps body _ =>
      init.expressions ++ condition.toList ++ steps ++ body.expressions
  | .ret value _ => value.toList

def blockExpressions : List Stmt → List Expr
  | [] => []
  | s :: rest => s.expressions ++ blockExpressions rest

end

def Method.expressions (m : Method) : List Expr :=
  blockExpressions m.body.body

def Class.expressions (c : Class) : List Expr :=
  c.methods.flatMap Method.expressions

def Source.expressions (s : Source) : List Expr :=
  s.classes.flatMap Class.expressions

theorem integersOf_eq (es : List Expr) : integersOf es = es.flatMap Expr.integers := by
  induction es with
  | nil => rfl
  | cons e es ih => rw [integersOf, ih, List.flatMap_cons]

end Tree

namespace Grammar

open Scriptlet.Tree (Expr TypeRef)

/-- The integer literals of expressions are those of their tokens. -/
def SameIntegers (es : List Expr) (ts : List TokenKind) : Prop :=
  (es.flatMap Expr.integers).map SignedInteger.unsigned = TokenKind.integers ts

section

variable {es fs : List Expr} {e : Expr} {ts us : List TokenKind}

theorem sameIntegers_iff : SameIntegers es ts ↔
    (es.flatMap Expr.integers).map SignedInteger.unsigned = TokenKind.integers ts :=
  Iff.rfl

@[simp] theorem integers_pathSpelling (path : List Tree.Ident) :
    TokenKind.integers (Tree.pathSpelling path) = [] := by
  have htail (path : List Tree.Ident) :
      TokenKind.integers (path.flatMap fun j => [.mark .dot, .ident j.name]) = [] := by
    induction path with
    | nil => rfl
    | cons i path ih => simp [ih]
  cases path with
  | nil => rfl
  | cons i path => simp [Tree.pathSpelling, htail]

@[simp] theorem integers_spelling (t : TypeRef) : TokenKind.integers t.spelling = [] := by
  unfold TypeRef.spelling
  split
  · rfl
  · rfl
  · exact integers_pathSpelling _

theorem integers_of_spellsModifiers {m : Tree.Modifiers} (h : SpellsModifiers m ts) :
    TokenKind.integers ts = [] := by
  cases h with
  | words words hwords =>
      clear hwords
      induction words with
      | nil => rfl
      | cons k words ih => simpa using ih

theorem SameIntegers.append (h : SameIntegers es ts) (h' : SameIntegers fs us) :
    SameIntegers (es ++ fs) (ts ++ us) := by
  rw [sameIntegers_iff] at *
  rw [List.flatMap_append, List.map_append, h, h', TokenKind.integers_append]

/-- The expressions of a phrase. -/
def Phrase.expressions : Phrase → List Expr
  | .expr _ e => [e]
  | .list es | .args es => es

/-- A minus before a literal leaves it the only literal of the expression. -/
theorem unsigned_integers_unary (sign : Tree.Sign) (e : Expr) (span : Text.Span) :
    (Expr.integers (.unary sign e span)).map SignedInteger.unsigned =
      e.integers.map SignedInteger.unsigned := by
  rw [Expr.integers]
  split
  · next i hi =>
      unfold Expr.integer? at hi
      split at hi
      · next heq => cases heq
      · next heq =>
          cases heq
          cases hi
          rfl
      · cases hi
  · rfl

theorem sameIntegers_of_spells {phrase : Phrase} (h : Spells phrase ts) :
    SameIntegers phrase.expressions ts := by
  rw [sameIntegers_iff]
  induction h with
  | literal l span hp => rcases l with _ | _ | _ | _ | (_ | _) | _ <;> rfl
  | unary sign span hp he ih =>
      simp only [Phrase.expressions, List.flatMap_cons, List.flatMap_nil, List.append_nil] at ih ⊢
      rw [unsigned_integers_unary, ih, TokenKind.integers_mark]
  | _ => simp_all [Phrase.expressions, Expr.integers, Tree.integersOf_eq]

theorem sameIntegers_of_separated {α : Type} {P : α → List TokenKind → Prop}
    {f : α → List Expr} {as : List α} (hP : ∀ {a ts}, P a ts → SameIntegers (f a) ts)
    (h : Separated P as ts) :
    SameIntegers (as.flatMap f) ts := by
  rw [sameIntegers_iff]
  induction h with
  | one ha => simpa using sameIntegers_iff.1 (hP ha)
  | more ha _ ih => simp [← ih, ← sameIntegers_iff.1 (hP ha)]

theorem sameIntegers_of_sequence {α : Type} {P : α → List TokenKind → Prop}
    {f : α → List Expr} {as : List α} (hP : ∀ {a ts}, P a ts → SameIntegers (f a) ts)
    (h : Sequence P as ts) :
    SameIntegers (as.flatMap f) ts := by
  rw [sameIntegers_iff]
  induction h with
  | nil => rfl
  | cons ha _ ih => simp [← ih, ← sameIntegers_iff.1 (hP ha)]

theorem sameIntegers_of_spellsLocals {d : Tree.LocalDecl} (h : SpellsLocals d ts) :
    SameIntegers d.expressions ts := by
  have hdeclarator {d : Tree.Declarator} {ts : List TokenKind} (hd : SpellsDeclarator d ts) :
      SameIntegers d.value.toList ts := by
    cases hd with
    | bare name => rfl
    | initial name he => exact sameIntegers_of_spells he
  rw [sameIntegers_iff]
  cases h with
  | var hds =>
      rw [TokenKind.integers_keyword]
      exact sameIntegers_of_separated hdeclarator hds
  | typed ht hds =>
      rw [TokenKind.integers_append, integers_spelling]
      exact sameIntegers_of_separated hdeclarator hds

theorem sameIntegers_of_spellsOption {e : Option Expr} (h : SpellsOption e ts) :
    SameIntegers e.toList ts := by
  cases h with
  | none => rfl
  | some he => exact sameIntegers_of_spells he

theorem sameIntegers_of_spellsSteps (h : SpellsSteps es ts) : SameIntegers es ts := by
  cases h with
  | none => rfl
  | some hes => exact sameIntegers_of_spells hes

theorem sameIntegers_of_spellsInit {i : Tree.ForInit} (h : SpellsInit i ts) :
    SameIntegers i.expressions ts := by
  cases h with
  | nothing => rfl
  | locals hd => exact sameIntegers_of_spellsLocals hd
  | exprs hes => exact sameIntegers_of_spells hes

/-- The expressions of a phrase of a method body. -/
def BodyPhrase.expressions : BodyPhrase → List Expr
  | .stmt s => s.expressions
  | .stmts ss => Tree.blockExpressions ss

theorem sameIntegers_of_spellsBody {phrase : BodyPhrase} (h : SpellsBody phrase ts) :
    SameIntegers phrase.expressions ts := by
  have hexpr {e : Expr} {ts : List TokenKind} (he : Spells (.expr 0 e) ts) :
      e.integers.map SignedInteger.unsigned = TokenKind.integers ts := by
    simpa [Phrase.expressions, sameIntegers_iff] using sameIntegers_of_spells he
  rw [sameIntegers_iff]
  induction h with
  | locals span hd =>
      simpa [BodyPhrase.expressions, Tree.Stmt.expressions] using
        sameIntegers_iff.1 (sameIntegers_of_spellsLocals hd)
  | ret span he =>
      simpa [BodyPhrase.expressions, Tree.Stmt.expressions] using
        sameIntegers_iff.1 (sameIntegers_of_spellsOption he)
  | expr span he | throw span he =>
      simpa [BodyPhrase.expressions, Tree.Stmt.expressions] using hexpr he
  | cond span hc hy ih | loop span hc hy ih =>
      simp_all [BodyPhrase.expressions, Tree.Stmt.expressions, hexpr hc]
  | doLoop span hb hc ih =>
      simp_all [BodyPhrase.expressions, Tree.Stmt.expressions, hexpr hc]
  | condElse span hc hy hn ihy ihn =>
      simp_all [BodyPhrase.expressions, Tree.Stmt.expressions, hexpr hc]
  | forLoop span hi hc hsteps hb ih =>
      have hinit := sameIntegers_iff.1 (sameIntegers_of_spellsInit hi)
      have hcondition := sameIntegers_iff.1 (sameIntegers_of_spellsOption hc)
      have hsteps := sameIntegers_iff.1 (sameIntegers_of_spellsSteps hsteps)
      simp_all [BodyPhrase.expressions, Tree.Stmt.expressions]
  | block span hss ih => simp_all [BodyPhrase.expressions, Tree.Stmt.expressions]
  | empty | leave | next | nil => rfl
  | cons hs hss ihs ihss => simp_all [BodyPhrase.expressions, Tree.blockExpressions]

theorem sameIntegers_of_spellsMethod {m : Tree.Method} (h : SpellsMethod m ts) :
    SameIntegers m.expressions ts := by
  have hparam {p : Tree.Param} {ts : List TokenKind} (hp : SpellsParam p ts) :
      SameIntegers [] ts := by
    cases hp with
    | param name ht => simp [sameIntegers_iff]
  have hparams {ps : List Tree.Param} {ts : List TokenKind} (hps : SpellsParams ps ts) :
      TokenKind.integers ts = [] := by
    cases hps with
    | none => rfl
    | some hps =>
        have hsame := sameIntegers_of_separated (f := fun _ => []) hparam hps
        rw [List.flatMap_eq_nil_iff.2 fun _ _ => rfl] at hsame
        exact hsame.symm
  cases h with
  | method name bspan span hm ht hps hbody =>
      refine (sameIntegers_iff.1 (sameIntegers_of_spellsBody hbody)).trans ?_
      simp [integers_of_spellsModifiers hm, hparams hps]

theorem sameIntegers_of_spellsClass {c : Tree.Class} (h : SpellsClass c ts) :
    SameIntegers c.expressions ts := by
  cases h with
  | cls name span hm hmethods =>
      have hmethods := sameIntegers_of_sequence (f := Tree.Method.expressions)
        sameIntegers_of_spellsMethod hmethods
      refine (sameIntegers_iff.1 hmethods).trans ?_
      simp [integers_of_spellsModifiers hm]

/-- A tree has the integer literals of its tokens. -/
theorem sameIntegers_of_spellsSource {u : Tree.Source} (h : SpellsSource u ts) :
    SameIntegers u.expressions ts := by
  have himport {i : Tree.Import} {ts : List TokenKind} (hi : SpellsImport i ts) :
      SameIntegers [] ts := by
    cases hi with
    | path i path span => simp [sameIntegers_iff]
  cases h with
  | source his hcs =>
      have himports := sameIntegers_of_sequence (f := fun _ => []) himport his
      rw [List.flatMap_eq_nil_iff.2 fun _ _ => rfl] at himports
      exact himports.append (sameIntegers_of_sequence sameIntegers_of_spellsClass hcs)

end

end Grammar

/-- Wherever the tokens of an operand are all of an operand or of an expression, they are read as
it. -/
theorem reads_operand {e : Tree.Expr} {ts : List TokenKind} {n : Nat} {s s' : Parser.State}
    (hspells : Grammar.Spells (.expr 12 e) ts) (hn : 8 * ts.length ≤ n)
    (htook : Parser.Took ts s s') :
    (Parser.isPostfix s'.kind = false →
      ∃ e', e'.bare = e.bare ∧ Parser.Reads (Parser.unary n) s e' s') ∧
    (Parser.EndsExpr s'.kind →
      ∃ e', e'.bare = e.bare ∧ Parser.Reads (Parser.expr n) s e' s') := by
  have hat : Parser.AtPosition 12 e ts := Parser.readBack_of_spells hspells
  refine ⟨fun hend => hat.unary (Nat.le_refl _) ?_ htook hend, fun hend => hat.expr hn htook hend⟩
  omega

/-- Wherever the tokens of an integer literal are all of an operand or of an expression, they are
read as the literal with its sign. -/
theorem reads_integer {i : SignedInteger} {n : Nat} {s s' : Parser.State} (hn : 16 ≤ n)
    (htook : Parser.Took i.tokens s s') :
    (Parser.isPostfix s'.kind = false →
      ∃ e, e.integer? = some i ∧ Parser.Reads (Parser.unary n) s e s') ∧
    (Parser.EndsExpr s'.kind →
      ∃ e, e.integer? = some i ∧ Parser.Reads (Parser.expr n) s e s') := by
  have hspells : ∃ e, e.integer? = some i ∧ Grammar.Spells (.expr 12 e) i.tokens := by
    obtain ⟨magnitude, long, _ | _⟩ := i
    · exact ⟨.literal (.int magnitude long) Tree.noSpan, rfl, .literal _ _ (by decide)⟩
    · exact ⟨.unary (.strict .neg) (.literal (.int magnitude long) Tree.noSpan) Tree.noSpan, rfl,
        .unary (.strict .neg) _ (by decide) (.literal _ _ (by decide))⟩
  obtain ⟨e, he, hspells⟩ := hspells
  have hlength : 8 * i.tokens.length ≤ n := by
    unfold SignedInteger.tokens
    split <;> simp only [List.length_append, List.length_cons, List.length_nil] <;> omega
  have hsame {e' : Tree.Expr} (hbare : e'.bare = e.bare) : e'.integer? = some i := by
    rw [← e'.integer?_bare, hbare, e.integer?_bare, he]
  obtain ⟨hunary, hexpr⟩ := reads_operand hspells hlength htook
  refine ⟨fun hend => ?_, fun hend => ?_⟩
  · obtain ⟨e', hbare, hread⟩ := hunary hend
    exact ⟨e', hsame hbare, hread⟩
  · obtain ⟨e', hbare, hread⟩ := hexpr hend
    exact ⟨e', hsame hbare, hread⟩

/-- What the parser reports are errors. Without one, the tree is spelled by the tokens in front of
the end. -/
theorem parse_lex (source : List Char) :
    (∀ d ∈ (parse (lex source).tokens).diagnostics, d.isError = true) ∧
      ((parse (lex source).tokens).diagnostics = [] → ∃ front last,
        (lex source).tokens = front ++ [last] ∧ last.kind = .eof ∧
          Grammar.SpellsSource (parse (lex source).tokens).source (front.map Token.kind)) := by
  obtain ⟨front, htokens, hfront⟩ := exists_tokens_lexFrom 0 source
  generalize hlast : (⟨.eof, .point (0 + Text.byteLength source)⟩ : Token) = last at htokens
  have hkind : last.kind = .eof := hlast ▸ rfl
  obtain ⟨u, t, hreads, hmoves, hend⟩ :=
    Parser.exists_reads_to_end ⟨front ++ [last], none, []⟩
  have hparse : parse (front ++ [last]) = ⟨u, t.diagnostics⟩ := by
    have hrun := hreads (Parser.depthFor (front ++ [last]).length)
      (by unfold Parser.depthFor; dsimp only; omega)
    unfold Parser.Reads at hrun
    unfold parse
    rw [withEnd_concat hkind]
    dsimp only
    rw [hrun]
  have hlex : (lex source).tokens = front ++ [last] := htokens
  rw [hlex, hparse]
  refine ⟨fun d hd => ?_, fun hclean => ⟨front, last, rfl, hkind, ?_⟩⟩
  · obtain ⟨new, hnew, herrors⟩ := hmoves.reports
    obtain rfl : t.diagnostics = new := hnew
    exact (herrors d hd).1.2
  · obtain ⟨-, ts, hts, hspells⟩ :=
      Parser.spells_of_reads_source (hreads _ (Nat.lt_succ_self _)) hclean
    obtain ⟨v, htook, hrest⟩ :=
      Parser.Took.exists_of_rest (s := ⟨front ++ [last], none, []⟩) rfl hfront
    have hstop : v.kind = .eof := by
      rw [Parser.State.kind, Parser.State.ahead, hrest]
      exact hkind
    obtain ⟨rfl, -⟩ := hts.unique (Parser.atEnd_iff.1 hend) htook hstop
    exact hspells

/-- A text without errors has the integer literals of its tokens, in the same order. -/
theorem integers_parseText {source : List Char}
    (h : Diagnostic.hasErrors (parseText source).diagnostics = false) :
    ((parseText source).source.expressions.flatMap Tree.Expr.integers).map SignedInteger.unsigned =
      TokenKind.integers ((lex source).tokens.map Token.kind) := by
  obtain ⟨herrors, hspells⟩ := parse_lex source
  have hclean : (parse (lex source).tokens).diagnostics = [] := by
    refine List.eq_nil_iff_forall_not_mem.2 fun d hd => ?_
    have hnone := List.any_eq_false.1 h d (List.mem_append_right _ hd)
    exact hnone (herrors d hd)
  obtain ⟨front, last, htokens, hlast, hspells⟩ := hspells hclean
  rw [htokens, List.map_append, TokenKind.integers_append]
  have hend : TokenKind.integers ([last].map Token.kind) = [] := by
    simp [TokenKind.integers, TokenKind.integer?, hlast]
  rw [hend, List.append_nil]
  exact Grammar.sameIntegers_of_spellsSource hspells

end Scriptlet
