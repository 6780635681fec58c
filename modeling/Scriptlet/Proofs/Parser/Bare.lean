import Scriptlet.Tree

namespace Scriptlet.Tree

/-!
# Trees without spans

Two trees are equal up to spans if they are equal without them.
-/

open Text (Span)

/-- The span that stands for none. -/
def noSpan : Span :=
  .point 0

def Ident.bare (i : Ident) : Ident :=
  ⟨i.name, noSpan⟩

def TypeShape.bare : TypeShape → TypeShape
  | .named path => .named (path.map Ident.bare)
  | t => t

def TypeRef.bare (t : TypeRef) : TypeRef :=
  ⟨t.shape.bare, noSpan⟩

mutual

def Expr.bare : Expr → Expr
  | .literal l _ => .literal l noSpan
  | .name name _ => .name name noSpan
  | .type t _ => .type t noSpan
  | .member e name _ => .member e.bare name.bare noSpan
  | .call e es _ => .call e.bare (bareExprs es) noSpan
  | .index e i _ => .index e.bare i.bare noSpan
  | .new t es _ => .new t.bare (bareExprs es) noSpan
  | .unary sign e _ => .unary sign e.bare noSpan
  | .binary op l r _ => .binary op l.bare r.bare noSpan
  | .assign op t v _ => .assign op t.bare v.bare noSpan
  | .step increment before e _ => .step increment before e.bare noSpan
  | .conditional c y n _ => .conditional c.bare y.bare n.bare noSpan
  | .cast t e _ => .cast t.bare e.bare noSpan

def bareExprs : List Expr → List Expr
  | [] => []
  | e :: es => e.bare :: bareExprs es

end

theorem bareExprs_eq_map (es : List Expr) : bareExprs es = es.map Expr.bare := by
  induction es with
  | nil => rfl
  | cons e es ih => rw [bareExprs, ih, List.map_cons]

def Declarator.bare (d : Declarator) : Declarator :=
  ⟨d.name.bare, d.value.map Expr.bare⟩

def LocalDecl.bare (d : LocalDecl) : LocalDecl :=
  ⟨d.type.map TypeRef.bare, d.declarators.map Declarator.bare⟩

def ForInit.bare : ForInit → ForInit
  | .nothing => .nothing
  | .locals d => .locals d.bare
  | .exprs es => .exprs (bareExprs es)

mutual

def Stmt.bare : Stmt → Stmt
  | .block body _ => .block (bareStmts body) noSpan
  | .empty _ => .empty noSpan
  | .locals d _ => .locals d.bare noSpan
  | .expr e _ => .expr e.bare noSpan
  | .cond c y n _ => .cond c.bare y.bare (bareStmt? n) noSpan
  | .loop c b _ => .loop c.bare b.bare noSpan
  | .doLoop b c _ => .doLoop b.bare c.bare noSpan
  | .forLoop i c steps b _ => .forLoop i.bare (c.map Expr.bare) (bareExprs steps) b.bare noSpan
  | .ret e _ => .ret (e.map Expr.bare) noSpan
  | .throw e _ => .throw e.bare noSpan
  | .leave _ => .leave noSpan
  | .next _ => .next noSpan

def bareStmts : List Stmt → List Stmt
  | [] => []
  | s :: ss => s.bare :: bareStmts ss

def bareStmt? : Option Stmt → Option Stmt
  | none => none
  | some s => some s.bare

end

def Block.bare (b : Block) : Block :=
  ⟨bareStmts b.body, noSpan⟩

def Param.bare (p : Param) : Param :=
  ⟨p.type.bare, p.name.bare⟩

def Method.bare (m : Method) : Method :=
  ⟨m.modifiers, m.result.bare, m.name.bare, m.params.map Param.bare, m.body.bare, noSpan⟩

def Class.bare (c : Class) : Class :=
  ⟨c.modifiers, c.name.bare, c.methods.map Method.bare, noSpan⟩

def Import.bare (i : Import) : Import :=
  ⟨i.path.map Ident.bare, noSpan⟩

def Source.bare (u : Source) : Source :=
  ⟨u.imports.map Import.bare, u.classes.map Class.bare⟩

end Scriptlet.Tree
