import Mathlib.Data.List.Forall2
import Scriptlet.Typing.Source

namespace Scriptlet.Typing

/-!
# Elaboration

The core program that belongs to a tree, as a relation. Checking computes it; the rules say which
trees have a core program at all, and what it is, without saying what is reported for the others.
-/

open Code (Literal)

/-- The variables that names mean. -/
abbrev Look :=
  String → Option Local

/-- An integer literal with its sign. -/
def integer? (n : Int) (long : Bool) : Option (Literal × Operand) :=
  if !long ∧ -2147483648 ≤ n ∧ n ≤ 2147483647 then
    some (.int (Int32.ofInt n), ⟨.of .int, some n⟩)
  else if -9223372036854775808 ≤ n ∧ n ≤ 9223372036854775807 then
    some (.long (Int64.ofInt n), .ofType (.of .long))
  else none

def literal? : Tree.Literal → Option (Literal × Operand)
  | .int value long => integer? value long
  | .real x true => some (.float (Binary.narrow x), .ofType (.of .float))
  | .real x false => some (.double x, .ofType (.of .double))
  | .string s => some (.string s, .ofType (.of .string))
  | .char c => some (.char c, .ofType (.of .char))
  | .bool b => some (.bool b, .ofType (.of .bool))
  | .null => some (.null, .ofType .null)

/-- What an expression stands for if it is no value, where some names are hidden by variables. -/
def ownerOf? (names : TypeNames) (hidden : String → Bool) : Tree.Expr → Option Owner
  | .type t _ => some (.type t.toDataType)
  | .name name _ => if hidden name then none else names.owner? name
  | .member (.name space _) name _ =>
      if space = "System" ∧ !hidden space ∧ (names.class? space).isNone then
        Catalogue.owner? name.name
      else none
  | _ => none

/-- The first overload that takes the operands. -/
def overload? (overloads : List Overload) (args : List Operand) : Option Overload :=
  (overloads.filter (·.params.length == args.length)).find? (takes · args)

/-- The conversion of the result of a compound assignment back to the type of the variable. -/
def compoundConversion? (op : BinaryOp) (result : DataType) (operand : Operand)
    (target : DataType) : Option Conversion :=
  match Conversion.implicit? (.ofType (.of result)) target with
  | some c => some c
  | none =>
      if Conversion.explicit? (.ofType (.of result)) target = some .numeric ∧
          ((Conversion.implicit? operand target).isSome ∨ op = .shl ∨ op = .shr) then
        some .numeric
      else none

/-- The conversion of a number between its own type and that in which operators work. -/
def promotion (source target : DataType) : Conversion :=
  if source = target then .identity else .numeric

def stepOp (increment : Bool) : BinaryOp :=
  if increment then .add else .sub

/-- Arguments converted to the types of parameters. -/
inductive Fitted : List Typed → List DataType → List Core.Expr → Prop where
  | nil : Fitted [] [] []
  | convert {a t c as ts es} : Conversion.implicit? a.operand t = some c → Fitted as ts es →
      Fitted (a :: as) (t :: ts) (.convert c t a.expr :: es)
  | settle {a t c as ts es} : Conversion.implicit? a.operand t = some c → Fitted as ts es →
      Fitted (a :: as) (t :: ts) (.settle c t a.expr :: es)

/-- The branches of a conditional with their common type. -/
inductive Joined (a b : Typed) : Core.Expr → Core.Expr → StaticType → Prop where
  | same : a.type ≠ .unknown → a.type = b.type →
      Joined a b (.settle .identity .object a.expr) (.settle .identity .object b.expr) a.type
  | toSecond {c t} : a.type ≠ b.type → branchConversion? a.type b.type = some (c, t) →
      branchConversion? b.type a.type = none →
      Joined a b (.settle c t a.expr) (.settle .identity .object b.expr) b.type
  | toFirst {c t} : a.type ≠ b.type → branchConversion? a.type b.type = none →
      branchConversion? b.type a.type = some (c, t) →
      Joined a b (.settle .identity .object a.expr) (.settle c t b.expr) a.type

mutual

inductive Elaborates (ctx : Context) (look : Look) : Tree.Expr → Typed → Prop where
  | literal {l span k o} : literal? l = some (k, o) →
      Elaborates ctx look (.literal l span) ⟨.literal k, o⟩
  | negative {value : Nat} {long span span' k o} : integer? (-value) long = some (k, o) →
      Elaborates ctx look (.unary (.strict .neg) (.literal (.int value long) span') span)
        ⟨.literal k, o⟩
  | name {name span l} : look name = some l →
      Elaborates ctx look (.name name span) (.of (.load l.slot) l.type)
  | constant {receiver name span owner k t} :
      ownerOf? ctx.signatures.names (look · |>.isSome) receiver = some owner →
      Catalogue.constant? owner name.name = some (k, t) →
      Elaborates ctx look (.member receiver name span) (.of (.literal k) t)
  | property {receiver name span r s routine t} :
      ownerOf? ctx.signatures.names (look · |>.isSome) receiver = none →
      Elaborates ctx look receiver r → r.type = .of s →
      Catalogue.property? s name.name = some (routine, t) →
      Elaborates ctx look (.member receiver name span) (.of (.routine routine [r.expr]) t)
  | callHere {name span span' args i m ts es} : look name = none →
      ctx.cls.method? name = some (i, m) → (m.isStatic = true ∨ ctx.method.isStatic = false) →
      ElaborateAll ctx look args ts → Fitted ts m.params es →
      Elaborates ctx look (.call (.name name span') args span)
        (.of (.call (.ofPlace ctx.clsIndex i) es) m.result)
  | callThere {receiver name span span' args k c i m ts es} :
      ownerOf? ctx.signatures.names (look · |>.isSome) receiver = some (.cls k) →
      ctx.signatures.classes[k]? = some c → c.method? name.name = some (i, m) →
      m.isStatic = true → ElaborateAll ctx look args ts → Fitted ts m.params es →
      Elaborates ctx look (.call (.member receiver name span') args span)
        (.of (.call (.ofPlace k i) es) m.result)
  | routine {receiver name span span' args owner os ts o es} :
      ownerOf? ctx.signatures.names (look · |>.isSome) receiver = some owner →
      Catalogue.staticMethods? owner name.name = some os → ElaborateAll ctx look args ts →
      overload? os (ts.map Typed.operand) = some o → Fitted ts o.params es →
      Elaborates ctx look (.call (.member receiver name span') args span)
        (.of (.routine o.routine es) o.result)
  | routineOf {receiver name span span' args r s os ts o es} :
      ownerOf? ctx.signatures.names (look · |>.isSome) receiver = none →
      Elaborates ctx look receiver r → r.type = .of s →
      Catalogue.methods? s name.name = some os → ElaborateAll ctx look args ts →
      overload? os (ts.map Typed.operand) = some o → Fitted ts o.params es →
      Elaborates ctx look (.call (.member receiver name span') args span)
        (.of (.routine o.routine (r.expr :: es)) o.result)
  | index {receiver index span r i c} : Elaborates ctx look receiver r → r.type = .of .string →
      Elaborates ctx look index i → Conversion.implicit? i.operand .int = some c →
      Elaborates ctx look (.index receiver index span)
        (.of (.routine .charAt [r.expr, .convert c .int i.expr]) .char)
  | newDefault {type span c} : ctx.signatures.names.resolve type = .ok (.exception c) →
      Elaborates ctx look (.new type [] span) (.of (.routine (.newDefault c) []) (.exception c))
  | newMessage {type message span c m es} :
      ctx.signatures.names.resolve type = .ok (.exception c) → Elaborates ctx look message m →
      Fitted [m] [.string] es →
      Elaborates ctx look (.new type [message] span)
        (.of (.routine (.newException c) es) (.exception c))
  | plus {operand span e t u} : Elaborates ctx look operand e → e.type = .of t →
      t.promoted? = some u →
      Elaborates ctx look (.unary .plus operand span)
        ⟨.convert (promotion u t) u e.expr, ⟨.of u, e.operand.constant⟩⟩
  | unary {op operand span e t u} :
      (∀ value long s, op = .neg → operand = .literal (.int value long) s → False) →
      Elaborates ctx look operand e → e.type = .of t → Combiner.unaryType? op t = some u →
      Elaborates ctx look (.unary (.strict op) operand span) (.of (.unary op e.expr) u)
  | andAlso {left right span l r} : Elaborates ctx look left l → Elaborates ctx look right r →
      l.type = .of .bool → r.type = .of .bool →
      Elaborates ctx look (.binary .andAlso left right span) (.of (.andAlso l.expr r.expr) .bool)
  | orElse {left right span l r} : Elaborates ctx look left l → Elaborates ctx look right r →
      l.type = .of .bool → r.type = .of .bool →
      Elaborates ctx look (.binary .orElse left right span) (.of (.orElse l.expr r.expr) .bool)
  | binary {op left right span l r c u} : Elaborates ctx look left l →
      Elaborates ctx look right r → Combiner.of? op l.type r.type = some (c, u) →
      Elaborates ctx look (.binary (.strict op) left right span) (.of (.combine c l.expr r.expr) u)
  | assign {name span' value span l e c} : look name = some l → Elaborates ctx look value e →
      Conversion.implicit? e.operand l.type = some c →
      Elaborates ctx look (.assign none (.name name span') value span)
        (.of (.assign l.slot (.convert c l.type e.expr)) l.type)
  | compound {op name span' value span l e k u c} : look name = some l →
      Elaborates ctx look value e → Combiner.of? op (.of l.type) e.type = some (k, u) →
      compoundConversion? op u e.operand l.type = some c →
      Elaborates ctx look (.assign (some op) (.name name span') value span)
        (.of (.assign l.slot (.convert c l.type (.combine k (.load l.slot) e.expr))) l.type)
  | stepBefore {increment name span' span l u} : look name = some l →
      l.type.commonType? .int = some u →
      Elaborates ctx look (.step increment true (.name name span') span)
        (.of (.assign l.slot (.convert (promotion u l.type) l.type
          (.combine (.operator (stepOp increment)) (.load l.slot) (.literal (.int 1))))) l.type)
  | stepBehind {increment name span' span l u} : look name = some l →
      l.type.commonType? .int = some u →
      Elaborates ctx look (.step increment false (.name name span') span)
        (.of (.advance l.slot (stepOp increment) (promotion u l.type) l.type) l.type)
  | conditional {condition yes no span c k a b x y t} : Elaborates ctx look condition c →
      Conversion.implicit? c.operand .bool = some k → Elaborates ctx look yes a →
      Elaborates ctx look no b → Joined a b x y t →
      Elaborates ctx look (.conditional condition yes no span)
        ⟨.choose (.convert k .bool c.expr) x y, .ofType t⟩
  | cast {type operand span t e c} : ctx.signatures.names.resolve type = .ok t →
      Elaborates ctx look operand e → Conversion.explicit? e.operand t = some c →
      (∀ n, e.operand.constant = some n → c = .numeric → Conversion.constantInRange n t = true) →
      Elaborates ctx look (.cast type operand span)
        ⟨.convert c t e.expr, ⟨.of t, if t = .int then e.operand.constant else none⟩⟩

inductive ElaborateAll (ctx : Context) (look : Look) : List Tree.Expr → List Typed → Prop where
  | nil : ElaborateAll ctx look [] []
  | cons {e t es ts} : Elaborates ctx look e t → ElaborateAll ctx look es ts →
      ElaborateAll ctx look (e :: es) (t :: ts)

end

theorem known_of_integer? {n : Int} {long : Bool} {k : Literal} {o : Operand}
    (h : integer? n long = some (k, o)) : o.type ≠ .unknown := by
  unfold integer? at h
  split at h
  · cases h
    exact StaticType.noConfusion
  · split at h
    · cases h
      exact StaticType.noConfusion
    · cases h

theorem known_of_literal? {l : Tree.Literal} {k : Literal} {o : Operand}
    (h : literal? l = some (k, o)) : o.type ≠ .unknown := by
  cases l with
  | int value long => exact known_of_integer? h
  | real x single =>
      cases single <;>
        · cases h
          exact StaticType.noConfusion
  | _ =>
      cases h
      exact StaticType.noConfusion

theorem known_of_branchConversion? {source target : StaticType} {r : Conversion × DataType}
    (h : branchConversion? source target = some r) : target ≠ .unknown := by
  rintro rfl
  cases h

/-- What is elaborated has a known type. -/
theorem Elaborates.known {ctx : Context} {look : Look} {e : Tree.Expr} {t : Typed}
    (h : Elaborates ctx look e t) : t.type ≠ .unknown := by
  cases h with
  | literal hl => exact known_of_literal? hl
  | negative hl => exact known_of_integer? hl
  | conditional _ _ _ _ hj =>
      cases hj with
      | same hknown _ => exact hknown
      | toSecond _ hc _ => exact known_of_branchConversion? hc
      | toFirst _ _ hc => exact known_of_branchConversion? hc
  | _ => exact StaticType.noConfusion

/-- A condition, converted to a truth value. -/
inductive Decides (ctx : Context) (look : Look) (e : Tree.Expr) : Core.Expr → Prop where
  | mk {t c} : Elaborates ctx look e t → Conversion.implicit? t.operand .bool = some c →
      Decides ctx look e (.convert c .bool t.expr)

/-- An expression that runs as a statement. -/
inductive Acts (ctx : Context) (look : Look) (e : Tree.Expr) : Core.Stmt → Prop where
  | mk {t} : Elaborates ctx look e t → Acts ctx look e (.eval t.expr (t.type != .of .void))

/-- The type of variables that are declared with a type or without one. -/
inductive States (ctx : Context) : Option Tree.TypeRef → Option DataType → Prop where
  | type {r t} : ctx.signatures.names.resolve r = .ok t → t ≠ .void → States ctx (some r) (some t)
  | inferred : States ctx none none

/-- The type and the first value of a variable. -/
inductive Begins (ctx : Context) (look : Look) :
    Option DataType → Option Tree.Expr → DataType → Core.Expr → Prop where
  | stated {t e a c} : Elaborates ctx look e a → Conversion.implicit? a.operand t = some c →
      Begins ctx look (some t) (some e) t (.convert c t a.expr)
  | default {t} : Begins ctx look (some t) none t (.literal (.defaultOf t))
  | inferred {e a t} : Elaborates ctx look e a → a.type = .of t → t ≠ .void →
      Begins ctx look none (some e) t a.expr

namespace Variables

def look (v : Variables) : Look :=
  v.scopes.lookup?

def opened (v : Variables) : Variables :=
  ⟨v.scopes.push, v.draft⟩

def closed (v : Variables) : Variables :=
  ⟨v.scopes.pop, v.draft⟩

end Variables

/-- The declaration of a variable, which gets the next slot. -/
structure Declares (v : Variables) (name : String) (t : DataType) (u : Variables) : Prop where
  scopes : v.scopes.declare name ⟨v.draft.locals, t⟩ = .ok u.scopes
  draft : u.draft = (Code.Drafting.reserve.run v.draft).2

inductive DeclareAll (ctx : Context) (type : Option DataType) :
    Variables → List Tree.Declarator → List Core.Stmt → Variables → Prop where
  | nil {v} : DeclareAll ctx type v [] [] v
  | cons {v d t e u ds rest w} : Begins ctx v.look type d.value t e →
      Declares v d.name.name t u → DeclareAll ctx type u ds rest w →
      DeclareAll ctx type v (d :: ds) (.store v.draft.locals e :: rest) w

inductive Initializes (ctx : Context) (v : Variables) :
    Tree.ForInit → List Core.Stmt → Variables → Prop where
  | nothing : Initializes ctx v .nothing [] v
  | locals {d type core u} : States ctx d.type type →
      DeclareAll ctx type v d.declarators core u → Initializes ctx v (.locals d) core u
  | exprs {es core} : List.Forall₂ (Acts ctx v.look) es core → Initializes ctx v (.exprs es) core v

mutual

/-- The core statement of a statement, inside a loop or not. -/
inductive StmtElaborates (ctx : Context) :
    Bool → Variables → Tree.Stmt → Core.Stmt → Variables → Prop where
  | block {inLoop v body span core u} : BlockElaborates ctx inLoop v.opened body core u →
      StmtElaborates ctx inLoop v (.block body span) (.block core) u.closed
  | empty {inLoop v span} : StmtElaborates ctx inLoop v (.empty span) (.block []) v
  | locals {inLoop v d span type core u} : States ctx d.type type →
      DeclareAll ctx type v d.declarators core u →
      StmtElaborates ctx inLoop v (.locals d span) (.block core) u
  | expr {inLoop v e span core} : Acts ctx v.look e core →
      StmtElaborates ctx inLoop v (.expr e span) core v
  | condOnly {inLoop v condition yes span c y u} : Decides ctx v.look condition c →
      StmtElaborates ctx inLoop v.opened yes y u →
      StmtElaborates ctx inLoop v (.cond condition yes none span) (.cond c y none) u.closed
  | condElse {inLoop v condition yes no span c y u n w} : Decides ctx v.look condition c →
      StmtElaborates ctx inLoop v.opened yes y u →
      StmtElaborates ctx inLoop u.closed.opened no n w →
      StmtElaborates ctx inLoop v (.cond condition yes (some no) span) (.cond c y (some n)) w.closed
  | loop {inLoop v condition body span c b u} : Decides ctx v.look condition c →
      StmtElaborates ctx true v.opened body b u →
      StmtElaborates ctx inLoop v (.loop condition body span) (.loop c b) u.closed
  | doLoop {inLoop v body condition span b c u} : StmtElaborates ctx true v.opened body b u →
      Decides ctx u.closed.look condition c →
      StmtElaborates ctx inLoop v (.doLoop body condition span) (.doLoop b c) u.closed
  | forEver {inLoop v init steps body span first u b w s} : Initializes ctx v.opened init first u →
      StmtElaborates ctx true u.opened body b w →
      List.Forall₂ (Acts ctx w.closed.look) steps s →
      StmtElaborates ctx inLoop v (.forLoop init none steps body span)
        (.block (first ++ [.forLoop none b s])) w.closed.closed
  | forWhile {inLoop v init condition steps body span first u c b w s} :
      Initializes ctx v.opened init first u → Decides ctx u.look condition c →
      StmtElaborates ctx true u.opened body b w →
      List.Forall₂ (Acts ctx w.closed.look) steps s →
      StmtElaborates ctx inLoop v (.forLoop init (some condition) steps body span)
        (.block (first ++ [.forLoop (some c) b s])) w.closed.closed
  | retVoid {inLoop v span} : ctx.method.result = .void →
      StmtElaborates ctx inLoop v (.ret none span) (.ret none) v
  | ret {inLoop v e span t c} : ctx.method.result ≠ .void → Elaborates ctx v.look e t →
      Conversion.implicit? t.operand ctx.method.result = some c →
      StmtElaborates ctx inLoop v (.ret (some e) span)
        (.ret (some (.convert c ctx.method.result t.expr))) v
  | throw {inLoop v e span t} : Elaborates ctx v.look e t → isThrowable t.type = true →
      StmtElaborates ctx inLoop v (.throw e span) (.throw t.expr) v
  | leave {v span} : StmtElaborates ctx true v (.leave span) .leave v
  | next {v span} : StmtElaborates ctx true v (.next span) .next v

inductive BlockElaborates (ctx : Context) :
    Bool → Variables → List Tree.Stmt → List Core.Stmt → Variables → Prop where
  | nil {inLoop v} : BlockElaborates ctx inLoop v [] [] v
  | cons {inLoop v s core u rest cores w} : StmtElaborates ctx inLoop v s core u →
      BlockElaborates ctx inLoop u rest cores w →
      BlockElaborates ctx inLoop v (s :: rest) (core :: cores) w

end

end Scriptlet.Typing
