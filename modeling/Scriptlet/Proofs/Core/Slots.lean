import Scriptlet.Proofs.Core.Layout

namespace Scriptlet.Core

/-!
# Declared slots

The slots of the variables that a statement declares, in the order of their declarations. Each is
stored into somewhere in the code of the statement.
-/

open Code (Instr Literal)

mutual

def Stmt.declared : Stmt → List UInt16
  | .block body => blockDeclared body
  | .store slot _ => [slot]
  | .cond _ yes none => yes.declared
  | .cond _ yes (some no) => yes.declared ++ no.declared
  | .loop _ body | .doLoop body _ => body.declared
  | .forLoop _ body steps => body.declared ++ blockDeclared steps
  | .eval _ _ | .ret _ | .throw _ | .leave | .next => []

def blockDeclared : List Stmt → List UInt16
  | [] => []
  | s :: rest => s.declared ++ blockDeclared rest

end

theorem blockDeclared_append (first rest : List Stmt) :
    blockDeclared (first ++ rest) = blockDeclared first ++ blockDeclared rest := by
  induction first with
  | nil => rfl
  | cons s first ih => rw [List.cons_append, blockDeclared, blockDeclared, ih, List.append_assoc]

section

variable {code : Array Instr} {pool : Array Literal} {slot : UInt16}

mutual

theorem Stmt.Laid.declared : ∀ (st : Stmt) {leaving again start stop : Nat},
    st.Laid code pool leaving again start stop → slot ∈ st.declared →
      ∃ k : Nat, code[k]? = some (.store slot)
  | .block body, _, _, _, _, h, hslot => by
      rw [Stmt.declared] at hslot
      cases h with
      | block hbody => exact BlockLaid.declared body hbody hslot
  | .store slot' e, _, _, _, _, h, hslot => by
      rw [Stmt.declared, List.mem_singleton] at hslot
      cases h with
      | store _ hi => exact ⟨_, hslot ▸ hi⟩
  | .cond _ yes none, _, _, _, _, h, hslot => by
      rw [Stmt.declared] at hslot
      cases h with
      | condOnly _ _ hy => exact Stmt.Laid.declared yes hy hslot
  | .cond _ yes (some no), _, _, _, _, h, hslot => by
      rw [Stmt.declared, List.mem_append] at hslot
      cases h with
      | condElse _ _ hy _ _ hn =>
          rcases hslot with hslot | hslot
          · exact Stmt.Laid.declared yes hy hslot
          · exact Stmt.Laid.declared no hn hslot
  | .loop _ body, _, _, _, _, h, hslot => by
      rw [Stmt.declared] at hslot
      cases h with
      | loop _ _ hb _ _ _ => exact Stmt.Laid.declared body hb hslot
  | .doLoop body _, _, _, _, _, h, hslot => by
      rw [Stmt.declared] at hslot
      cases h with
      | doLoop hb _ _ _ => exact Stmt.Laid.declared body hb hslot
  | .forLoop _ body steps, _, _, _, _, h, hslot => by
      rw [Stmt.declared, List.mem_append] at hslot
      cases h with
      | forEver hb hs _ _ =>
          rcases hslot with hslot | hslot
          · exact Stmt.Laid.declared body hb hslot
          · exact BlockLaid.declared steps hs hslot
      | forWhile _ _ hb hs _ _ _ =>
          rcases hslot with hslot | hslot
          · exact Stmt.Laid.declared body hb hslot
          · exact BlockLaid.declared steps hs hslot
  | .eval _ _, _, _, _, _, _, hslot | .ret _, _, _, _, _, _, hslot
  | .throw _, _, _, _, _, _, hslot | .leave, _, _, _, _, _, hslot
  | .next, _, _, _, _, _, hslot => by
      rw [Stmt.declared] at hslot
      exact absurd hslot List.not_mem_nil

theorem BlockLaid.declared : ∀ (body : List Stmt) {leaving again start stop : Nat},
    BlockLaid code pool leaving again start body stop → slot ∈ blockDeclared body →
      ∃ k : Nat, code[k]? = some (.store slot)
  | [], _, _, _, _, _, hslot => by
      rw [blockDeclared] at hslot
      exact absurd hslot List.not_mem_nil
  | st :: rest, _, _, _, _, h, hslot => by
      rw [blockDeclared, List.mem_append] at hslot
      cases h with
      | cons hst hrest =>
          rcases hslot with hslot | hslot
          · exact Stmt.Laid.declared st hst hslot
          · exact BlockLaid.declared rest hrest hslot

end

end

end Scriptlet.Core
