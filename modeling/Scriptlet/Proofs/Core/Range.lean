import Scriptlet.Core.Assembly
import Scriptlet.Machine.Program
import Scriptlet.Proofs.Core.Slots
import Scriptlet.Proofs.Core.Typing

namespace Scriptlet.Core

/-!
# Laid out code is in range

The code of a program that makes sense refers only to what exists: its literals are in the pool, its
slots are those of its variables, its jumps stay in the code, and its calls name methods.
-/

open Code (Instr)
open Machine (inRange)

/-- The instructions between two places are in range. -/
structure Covered (m : Code.Module) (f : Code.Method) (start stop : Nat) : Prop where
  le : start ≤ stop
  inRange : ∀ (k : Nat) (i : Instr), start ≤ k → k < stop → f.code[k]? = some i →
    inRange m f i = true

namespace Covered

variable {m : Code.Module} {f : Code.Method} {start mid stop : Nat} {i : Instr}

theorem refl (start : Nat) : Covered m f start start :=
  ⟨Nat.le_refl _, fun _ _ hle hlt => absurd hlt (Nat.not_lt.2 hle)⟩

theorem append (h : Covered m f start mid) (h' : Covered m f mid stop) :
    Covered m f start stop where
  le := Nat.le_trans h.le h'.le
  inRange k i hle hlt hi := by
    by_cases hk : k < mid
    · exact h.inRange k i hle hk hi
    · exact h'.inRange k i (Nat.le_of_not_lt hk) hlt hi

theorem single (hi : f.code[start]? = some i) (hrange : Machine.inRange m f i = true) :
    Covered m f start (start + 1) where
  le := Nat.le_succ _
  inRange k j hle hlt hj := by
    obtain rfl : k = start := by omega
    obtain rfl := Option.some.inj (hi.symm.trans hj)
    exact hrange

theorem snoc (h : Covered m f start mid) (hi : f.code[mid]? = some i)
    (hrange : Machine.inRange m f i = true) : Covered m f start (mid + 1) :=
  h.append (single hi hrange)

theorem needed (h : Covered m f start mid) (hi : Needed f.code mid i stop)
    (hrange : Machine.inRange m f i = true) : Covered m f start stop := by
  unfold Needed at hi
  split at hi
  · rw [hi]
    exact h
  · rw [hi.2]
    exact h.snoc hi.1 hrange

end Covered

theorem lt_size {code : Array Instr} {k : Nat} {i : Instr} (h : code[k]? = some i) :
    k < code.size :=
  (Array.getElem?_eq_some_iff.1 h).1

theorem stop_le_of_needed {code : Array Instr} {mid stop : Nat} {i : Instr}
    (h : Needed code mid i stop) (hmid : mid ≤ code.size) : stop ≤ code.size := by
  unfold Needed at h
  split at h
  · rw [h]
    exact hmid
  · rw [h.2]
    exact lt_size h.1

theorem inRange_conversion (m : Code.Module) (f : Code.Method) (c : Conversion) (t : DataType) :
    inRange m f (c.instr t) = true := by
  cases c <;> rfl

theorem inRange_combiner (m : Code.Module) (f : Code.Method) (c : Combiner) :
    inRange m f c.instr = true := by
  cases c <;> rfl

section

variable {m : Code.Module} {f : Code.Method}

theorem inRange_const {n : UInt32} {l : Code.Literal} (h : f.literals[n.toNat]? = some l) :
    inRange m f (.const n) = true :=
  decide_eq_true (Array.getElem?_eq_some_iff.1 h).1

theorem inRange_jump {target : UInt32} (h : target.toNat ≤ f.code.size) :
    inRange m f (.jump target) = true ∧ inRange m f (.jumpIfFalse target) = true ∧
      inRange m f (.jumpIfTrue target) = true :=
  ⟨decide_eq_true h, decide_eq_true h, decide_eq_true h⟩

variable {sigs : Interface} {vars : List Local}

mutual

/-- The code of an expression that makes sense is in range. -/
theorem Expr.covered (hcalls : ∀ h s, sigs h = some s → (m.method? h).isSome)
    (hvars : ∀ l ∈ vars, l.slot < f.locals) : ∀ (e : Expr) {t : StaticType} {start stop : Nat},
    e.HasType sigs vars t → e.Laid f.code f.literals start stop →
      Covered m f start stop ∧ stop ≤ f.code.size
  | .literal l, t, start, stop, _, h => by
      cases h with
      | literal hi hpool => exact ⟨.single hi (inRange_const hpool), lt_size hi⟩
  | .load slot, t, start, stop, ht, h => by
      cases h with
      | load hi =>
          cases ht with
          | load hl => exact ⟨.single hi (decide_eq_true (hvars _ hl)), lt_size hi⟩
  | .convert c target e, t, start, stop, ht, h => by
      cases ht with
      | convert he _ =>
          cases h with
          | convert hlaid hi =>
              obtain ⟨hcovered, hsize⟩ := Expr.covered hcalls hvars e he hlaid
              have hrange := inRange_conversion m f c target
              exact ⟨hcovered.needed hi hrange, stop_le_of_needed hi hsize⟩
  | .settle c target e, t, start, stop, ht, h => by
      cases h with
      | settle hlaid hi =>
          cases ht with
          | settle he _ | kept he =>
              obtain ⟨hcovered, -⟩ := Expr.covered hcalls hvars e he hlaid
              exact ⟨hcovered.snoc hi (inRange_conversion m f _ target), lt_size hi⟩
  | .unary op e, t, start, stop, ht, h => by
      cases ht with
      | unary he _ =>
          cases h with
          | unary hlaid hi =>
              obtain ⟨hcovered, -⟩ := Expr.covered hcalls hvars e he hlaid
              exact ⟨hcovered.snoc hi rfl, lt_size hi⟩
  | .combine c left right, t, start, stop, ht, h => by
      cases ht with
      | combine hl hr _ =>
          cases h with
          | combine hlaid hlaid' hi =>
              obtain ⟨hleft, -⟩ := Expr.covered hcalls hvars left hl hlaid
              obtain ⟨hright, -⟩ := Expr.covered hcalls hvars right hr hlaid'
              exact ⟨(hleft.append hright).snoc hi (inRange_combiner m f c), lt_size hi⟩
  | .andAlso left right, t, start, stop, ht, h => by
      cases ht with
      | andAlso hl hr =>
          cases h with
          | andAlso hlaid hdup hjump hpop hlaid' =>
              obtain ⟨hleft, -⟩ := Expr.covered hcalls hvars left hl hlaid
              obtain ⟨hright, hsize⟩ := Expr.covered hcalls hvars right hr hlaid'
              have htest := (hleft.snoc hdup rfl).snoc hjump (inRange_jump hsize).2.1
              exact ⟨(htest.snoc hpop rfl).append hright, hsize⟩
  | .orElse left right, t, start, stop, ht, h => by
      cases ht with
      | orElse hl hr =>
          cases h with
          | orElse hlaid hdup hjump hpop hlaid' =>
              obtain ⟨hleft, -⟩ := Expr.covered hcalls hvars left hl hlaid
              obtain ⟨hright, hsize⟩ := Expr.covered hcalls hvars right hr hlaid'
              have htest := (hleft.snoc hdup rfl).snoc hjump (inRange_jump hsize).2.2
              exact ⟨(htest.snoc hpop rfl).append hright, hsize⟩
  | .assign slot e, t, start, stop, ht, h => by
      cases ht with
      | assign hl he =>
          cases h with
          | assign hlaid hdup hstore =>
              obtain ⟨hcovered, -⟩ := Expr.covered hcalls hvars e he hlaid
              have hslot := decide_eq_true (hvars _ hl)
              exact ⟨(hcovered.snoc hdup rfl).snoc hstore hslot, lt_size hstore⟩
  | .advance slot op c target, t, start, stop, ht, h => by
      cases ht with
      | advance hl _ _ =>
          cases h with
          | advance hload hdup hconst hpool hop hi hstore =>
              have hslot := decide_eq_true (hvars _ hl)
              have hold : Covered m f start (start + 2) :=
                (Covered.single hload hslot).snoc hdup rfl
              have hnew := (hold.snoc hconst (inRange_const hpool)).snoc hop rfl
              have hdone := hnew.needed hi (inRange_conversion m f c _)
              exact ⟨hdone.snoc hstore hslot, lt_size hstore⟩
  | .choose condition yes no, t, start, stop, ht, h => by
      cases ht with
      | choose hc hy hn =>
          cases h with
          | choose hlaid hif hlaid' hjump hno hlaid'' =>
              obtain ⟨htest, -⟩ := Expr.covered hcalls hvars condition hc hlaid
              obtain ⟨hyes, -⟩ := Expr.covered hcalls hvars yes hy hlaid'
              obtain ⟨hrest, hsize⟩ := Expr.covered hcalls hvars no hn hlaid''
              have hlast := lt_size hjump
              have hfirst := (htest.snoc hif (inRange_jump (by omega)).2.1).append hyes
              exact ⟨(hfirst.snoc hjump (inRange_jump hsize).1).append hrest, hsize⟩
  | .call h args, t, start, stop, ht, hlaid => by
      cases ht with
      | call hm hargs =>
          cases hlaid with
          | call hlaid hi =>
              have hcovered := covered_args hcalls hvars args hargs hlaid
              exact ⟨hcovered.snoc hi (hcalls h _ hm), lt_size hi⟩
  | .routine r args, t, start, stop, ht, h => by
      cases ht with
      | routine _ hargs =>
          cases h with
          | routine hlaid hi =>
              have hcovered := covered_args hcalls hvars args hargs hlaid
              exact ⟨hcovered.snoc hi rfl, lt_size hi⟩

theorem covered_args (hcalls : ∀ h s, sigs h = some s → (m.method? h).isSome)
    (hvars : ∀ l ∈ vars, l.slot < f.locals) : ∀ (es : List Expr) {ts : List DataType}
    {start stop : Nat}, ArgsHaveTypes sigs vars es ts → ArgsLaid f.code f.literals start es stop →
      Covered m f start stop
  | [], ts, start, stop, _, h => by
      cases h
      exact .refl _
  | e :: es, ts, start, stop, ht, h => by
      cases ht with
      | cons _ he hes =>
          cases h with
          | cons hlaid hlaid' =>
              obtain ⟨hfirst, -⟩ := Expr.covered hcalls hvars e he hlaid
              exact hfirst.append (covered_args hcalls hvars es hes hlaid')

end

theorem covered_actions (hcalls : ∀ h s, sigs h = some s → (m.method? h).isSome)
    (hvars : ∀ l ∈ vars, l.slot < f.locals) {steps : List Stmt}
    (hsteps : ∀ st ∈ steps, st.IsAction sigs vars) {leaving again start stop : Nat}
    (h : BlockLaid f.code f.literals leaving again start steps stop) : Covered m f start stop := by
  induction steps generalizing start with
  | nil =>
      cases h
      exact .refl _
  | cons st rest ih =>
      obtain ⟨e, t, rfl, he⟩ := hsteps st List.mem_cons_self
      cases h with
      | cons hst hrest =>
          cases hst with
          | eval hlaid hi =>
              obtain ⟨hcovered, -⟩ := Expr.covered hcalls hvars e he hlaid
              have hfirst := hcovered.needed (m := m) hi (by split <;> rfl)
              have hothers := ih (fun st hst => hsteps st (List.mem_cons_of_mem _ hst)) hrest
              exact hfirst.append hothers

end

mutual

/-- The variables behind a statement are those before it and those that it declares. -/
theorem Stmt.HasType.slots {sigs : Interface} {result : DataType} : ∀ (st : Stmt) {inLoop : Bool}
    {vars outer : List Local}, st.HasType sigs result inLoop vars outer →
      ∀ l ∈ outer, l ∈ vars ∨ l.slot ∈ st.declared
  | .block body, inLoop, vars, outer, h, l, hl => by
      cases h with
      | block hbody _ hout => exact BlockHasType.slots body hbody l (hout hl)
  | .store slot e, inLoop, vars, outer, h, l, hl => by
      cases h with
      | store _ _ _ =>
          rcases List.mem_cons.1 hl with rfl | hl
          · exact .inr List.mem_cons_self
          · exact .inl hl
  | .eval _ _, inLoop, vars, outer, h, l, hl | .cond _ _ none, inLoop, vars, outer, h, l, hl
  | .cond _ _ (some _), inLoop, vars, outer, h, l, hl | .loop _ _, inLoop, vars, outer, h, l, hl
  | .doLoop _ _, inLoop, vars, outer, h, l, hl | .forLoop _ _ _, inLoop, vars, outer, h, l, hl
  | .ret none, inLoop, vars, outer, h, l, hl | .ret (some _), inLoop, vars, outer, h, l, hl
  | .throw _, inLoop, vars, outer, h, l, hl | .leave, inLoop, vars, outer, h, l, hl
  | .next, inLoop, vars, outer, h, l, hl => by
      cases h
      exact .inl hl

theorem BlockHasType.slots {sigs : Interface} {result : DataType} : ∀ (body : List Stmt)
    {inLoop : Bool} {vars outer : List Local}, BlockHasType sigs result inLoop vars body outer →
      ∀ l ∈ outer, l ∈ vars ∨ l.slot ∈ blockDeclared body
  | [], inLoop, vars, outer, h, l, hl => by
      cases h
      exact .inl hl
  | st :: rest, inLoop, vars, outer, h, l, hl => by
      cases h with
      | cons hst hrest =>
          rw [blockDeclared, List.mem_append]
          rcases BlockHasType.slots rest hrest l hl with hl | hl
          · rcases Stmt.HasType.slots st hst l hl with hl | hl
            · exact .inl hl
            · exact .inr (.inl hl)
          · exact .inr (.inr hl)

end

section

variable {m : Code.Module} {f : Code.Method} {sigs : Interface}

mutual

/-- The code of a statement that makes sense is in range, if its slots are and the loop around it
is. -/
theorem Stmt.covered (hcalls : ∀ h s, sigs h = some s → (m.method? h).isSome) {result : DataType} :
    ∀ (st : Stmt) {inLoop : Bool} {vars outer : List Local} {leaving again start stop : Nat},
      st.HasType sigs result inLoop vars outer →
      st.Laid f.code f.literals leaving again start stop → (∀ l ∈ vars, l.slot < f.locals) →
      (∀ slot ∈ st.declared, slot < f.locals) → leaving ≤ f.code.size → again ≤ f.code.size →
      start ≤ f.code.size → Covered m f start stop ∧ stop ≤ f.code.size
  | .block body, inLoop, vars, outer, leaving, again, start, stop, ht, h, hvars, hslots, hl, ha,
      hs => by
      cases ht with
      | block hbody _ _ =>
          cases h with
          | block hlaid => exact covered_block hcalls body hbody hlaid hvars hslots hl ha hs
  | .store slot e, inLoop, vars, outer, leaving, again, start, stop, ht, h, hvars, hslots, hl, ha,
      hs => by
      cases ht with
      | store _ _ he =>
          cases h with
          | store hlaid hi =>
              obtain ⟨hcovered, -⟩ := Expr.covered hcalls hvars e he hlaid
              have hslot := decide_eq_true (hslots _ List.mem_cons_self)
              exact ⟨hcovered.snoc hi hslot, lt_size hi⟩
  | .eval e hasValue, inLoop, vars, outer, leaving, again, start, stop, ht, h, hvars, hslots, hl,
      ha, hs => by
      cases ht with
      | eval he =>
          cases h with
          | eval hlaid hi =>
              obtain ⟨hcovered, hsize⟩ := Expr.covered hcalls hvars e he hlaid
              exact ⟨hcovered.needed hi (by split <;> rfl), stop_le_of_needed hi hsize⟩
  | .cond condition yes none, inLoop, vars, outer, leaving, again, start, stop, ht, h, hvars,
      hslots, hl, ha, hs => by
      cases ht with
      | condOnly hc hy =>
          cases h with
          | condOnly hlaid hif hlaid' =>
              obtain ⟨htest, -⟩ := Expr.covered hcalls hvars condition hc hlaid
              obtain ⟨hyes, hsize⟩ :=
                Stmt.covered hcalls yes hy hlaid' hvars hslots hl ha (lt_size hif)
              exact ⟨(htest.snoc hif (inRange_jump hsize).2.1).append hyes, hsize⟩
  | .cond condition yes (some no), inLoop, vars, outer, leaving, again, start, stop, ht, h, hvars,
      hslots, hl, ha, hs => by
      rw [Stmt.declared] at hslots
      cases ht with
      | condElse hc hy hn =>
          cases h with
          | condElse hlaid hif hlaid' hjump hno hlaid'' =>
              obtain ⟨htest, -⟩ := Expr.covered hcalls hvars condition hc hlaid
              obtain ⟨hyes, -⟩ := Stmt.covered hcalls yes hy hlaid' hvars
                (fun slot hslot => hslots slot (List.mem_append_left _ hslot)) hl ha (lt_size hif)
              obtain ⟨hrest, hsize⟩ := Stmt.covered hcalls no hn hlaid'' hvars
                (fun slot hslot => hslots slot (List.mem_append_right _ hslot)) hl ha
                (lt_size hjump)
              have hlast := lt_size hjump
              have hfirst := (htest.snoc hif (inRange_jump (by omega)).2.1).append hyes
              exact ⟨(hfirst.snoc hjump (inRange_jump hsize).1).append hrest, hsize⟩
  | .loop condition body, inLoop, vars, outer, leaving, again, start, stop, ht, h, hvars, hslots,
      hl, ha, hs => by
      cases ht with
      | loop hc hb =>
          cases h with
          | loop hlaid hif hlaid' hjump hback hexit =>
              have hlast := lt_size hjump
              obtain ⟨htest, -⟩ := Expr.covered hcalls hvars condition hc hlaid
              obtain ⟨hbody, -⟩ :=
                Stmt.covered hcalls body hb hlaid' hvars hslots hlast hs (lt_size hif)
              have hround := (htest.snoc hif (inRange_jump (by omega)).2.1).append hbody
              exact ⟨hround.snoc hjump (inRange_jump (by omega)).1, hlast⟩
  | .doLoop body condition, inLoop, vars, outer, leaving, again, start, stop, ht, h, hvars, hslots,
      hl, ha, hs => by
      cases ht with
      | doLoop hc hb =>
          cases h with
          | doLoop hlaid hlaid' hjump hback =>
              have hlast := lt_size hjump
              obtain ⟨htest, -⟩ := Expr.covered hcalls hvars condition hc hlaid'
              have hle := htest.le
              obtain ⟨hbody, -⟩ :=
                Stmt.covered hcalls body hb hlaid hvars hslots hlast (by omega) hs
              exact ⟨(hbody.append htest).snoc hjump (inRange_jump (by omega)).2.2, hlast⟩
  | .forLoop condition body steps, inLoop, vars, outer, leaving, again, start, stop, ht, h, hvars,
      hslots, hl, ha, hs => by
      rw [Stmt.declared] at hslots
      have hinner := fun slot hslot => hslots slot (List.mem_append_left _ hslot)
      cases ht with
      | forLoop hc hb hsteps =>
          cases h with
          | forEver hlaid hlaid' hjump hback =>
              have hlast := lt_size hjump
              have hadvance := covered_actions hcalls hvars hsteps hlaid'
              have hle := hadvance.le
              obtain ⟨hbody, -⟩ :=
                Stmt.covered hcalls body hb hlaid hvars hinner hlast (by omega) hs
              have hround := hbody.append hadvance
              exact ⟨hround.snoc hjump (inRange_jump (by omega)).1, hlast⟩
          | forWhile hlaid hif hlaid' hlaid'' hjump hback hexit =>
              have hlast := lt_size hjump
              obtain ⟨htest, -⟩ := Expr.covered hcalls hvars _ (hc _ rfl) hlaid
              have hadvance := covered_actions hcalls hvars hsteps hlaid''
              have hle := hadvance.le
              obtain ⟨hbody, -⟩ :=
                Stmt.covered hcalls body hb hlaid' hvars hinner hlast (by omega) (lt_size hif)
              have hfirst := htest.snoc hif (inRange_jump (by omega)).2.1
              have hround := (hfirst.append hbody).append hadvance
              exact ⟨hround.snoc hjump (inRange_jump (by omega)).1, hlast⟩
  | .ret none, inLoop, vars, outer, leaving, again, start, stop, ht, h, hvars, hslots, hl, ha,
      hs => by
      cases h with
      | retVoid hi => exact ⟨.single hi rfl, lt_size hi⟩
  | .ret (some e), inLoop, vars, outer, leaving, again, start, stop, ht, h, hvars, hslots, hl, ha,
      hs => by
      cases ht with
      | ret _ he =>
          cases h with
          | ret hlaid hi =>
              obtain ⟨hcovered, -⟩ := Expr.covered hcalls hvars e he hlaid
              exact ⟨hcovered.snoc hi rfl, lt_size hi⟩
  | .throw e, inLoop, vars, outer, leaving, again, start, stop, ht, h, hvars, hslots, hl, ha,
      hs => by
      cases ht with
      | throw _ he =>
          cases h with
          | throw hlaid hi =>
              obtain ⟨hcovered, -⟩ := Expr.covered hcalls hvars e he hlaid
              exact ⟨hcovered.snoc hi rfl, lt_size hi⟩
  | .leave, inLoop, vars, outer, leaving, again, start, stop, ht, h, hvars, hslots, hl, ha,
      hs => by
      cases h with
      | leave hi htarget => exact ⟨.single hi (inRange_jump (htarget ▸ hl)).1, lt_size hi⟩
  | .next, inLoop, vars, outer, leaving, again, start, stop, ht, h, hvars, hslots, hl, ha,
      hs => by
      cases h with
      | next hi htarget => exact ⟨.single hi (inRange_jump (htarget ▸ ha)).1, lt_size hi⟩

theorem covered_block (hcalls : ∀ h s, sigs h = some s → (m.method? h).isSome)
    {result : DataType} : ∀ (body : List Stmt) {inLoop : Bool} {vars outer : List Local}
    {leaving again start stop : Nat}, BlockHasType sigs result inLoop vars body outer →
      BlockLaid f.code f.literals leaving again start body stop →
      (∀ l ∈ vars, l.slot < f.locals) → (∀ slot ∈ blockDeclared body, slot < f.locals) →
      leaving ≤ f.code.size → again ≤ f.code.size → start ≤ f.code.size →
      Covered m f start stop ∧ stop ≤ f.code.size
  | [], inLoop, vars, outer, leaving, again, start, stop, ht, h, hvars, hslots, hl, ha, hs => by
      cases h
      exact ⟨.refl _, hs⟩
  | st :: rest, inLoop, vars, outer, leaving, again, start, stop, ht, h, hvars, hslots, hl, ha,
      hs => by
      rw [blockDeclared] at hslots
      cases ht with
      | @cons _ _ _ between _ _ hst hrest =>
          cases h with
          | cons hlaid hlaid' =>
              have hfirst := fun slot hslot => hslots slot (List.mem_append_left _ hslot)
              obtain ⟨hcovered, hmid⟩ := Stmt.covered hcalls st hst hlaid hvars hfirst hl ha hs
              have hvars' : ∀ l ∈ between, l.slot < f.locals := by
                intro l hmem
                rcases Stmt.HasType.slots st hst l hmem with hmem | hmem
                · exact hvars l hmem
                · exact hfirst _ hmem
              obtain ⟨hothers, hsize⟩ := covered_block hcalls rest hrest hlaid' hvars'
                (fun slot hslot => hslots slot (List.mem_append_right _ hslot)) hl ha hmid
              exact ⟨hcovered.append hothers, hsize⟩

end

end

end Scriptlet.Core
