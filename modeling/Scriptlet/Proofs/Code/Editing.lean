import Mathlib.Data.List.Nodup
import Scriptlet.Proofs.Code.Draft

namespace Scriptlet.Code

/-!
# Editing drafts

Whatever is done to a draft and in whatever order, an instruction keeps its place and is changed only
by an edit that is aimed at it, a literal has one place in the pool, and every slot is reserved once.
-/

/-- Whether two literals are the same; numbers with a point are compared by their bits. -/
def Literal.SameBits : Literal → Literal → Prop
  | .float x, .float y => x.toBits = y.toBits
  | .double x, .double y => x.toBits = y.toBits
  | l, m => l = m

theorem float32_eq_of_toBits {x y : Float32} (h : x.toBits = y.toBits) : x = y := by
  obtain ⟨⟨x, hx⟩⟩ := x
  obtain ⟨⟨y, hy⟩⟩ := y
  obtain rfl : x = y := h
  rfl

theorem float_eq_of_toBits {x y : Float} (h : x.toBits = y.toBits) : x = y := by
  obtain ⟨⟨x, hx⟩⟩ := x
  obtain ⟨⟨y, hy⟩⟩ := y
  obtain rfl : x = y := h
  rfl

theorem Literal.sameBits_iff {l m : Literal} : l.SameBits m ↔ l = m := by
  constructor
  · intro h
    unfold SameBits at h
    split at h
    · rw [float32_eq_of_toBits h]
    · rw [float_eq_of_toBits h]
    · exact h
  · rintro rfl
    cases l <;> rfl

instance (l m : Literal) : Decidable (l.SameBits m) :=
  decidable_of_iff (l = m) Literal.sameBits_iff.symm

/-- A pool in which every literal stands once stays so. -/
theorem Draft.nodup_withLiteral (d : Draft) (l : Literal) (h : d.literals.toList.Nodup) :
    (d.withLiteral l).1.literals.toList.Nodup := by
  unfold withLiteral
  cases hi : d.literals.findIdx? (· == l) with
  | some n => exact h
  | none =>
      have hnew : l ∉ d.literals.toList := by
        intro hmem
        have hne := Array.findIdx?_eq_none_iff.1 hi l (Array.mem_def.2 hmem)
        simp at hne
      rw [Array.toList_push]
      exact h.append (List.nodup_singleton l) (List.disjoint_singleton.2 hnew)

/-- What can be done to a draft. -/
inductive Edit where
  | emit (i : Instr)
  | literal (l : Literal)
  | jump (make : UInt32 → Instr)
  | land (place : Nat)
  | aim (place target : Nat)
  | replace (place : Nat) (i : Instr)
  | reserve

/-- What an edit answers: the place of its instruction, a slot, or nothing. -/
inductive Answer where
  | place (k : Nat)
  | slot (n : UInt16)
  | done

def Answer.slot? : Answer → Option UInt16
  | slot n => some n
  | _ => none

namespace Edit

def action : Edit → Drafting Answer
  | emit i => Answer.place <$> Drafting.emit i
  | literal l => Answer.place <$> Drafting.literal l
  | jump make => Answer.place <$> Drafting.jump make
  | land place => (fun _ => Answer.done) <$> Drafting.land place
  | aim place target => (fun _ => Answer.done) <$> Drafting.aim place target
  | replace place i => (fun _ => Answer.done) <$> Drafting.replace place i
  | reserve => Answer.slot <$> Drafting.reserve

def answer (e : Edit) (d : Draft) : Answer :=
  (e.action.run d).1

def next (e : Edit) (d : Draft) : Draft :=
  (e.action.run d).2

/-- Whether an edit is meant for the instruction at a place. -/
def AimsAt (k : Nat) : Edit → Prop
  | land place | aim place _ | replace place _ => place = k
  | _ => False

section

variable (d : Draft)

theorem answer_literal (l : Literal) : (literal l).answer d = .place d.code.size :=
  congrArg (fun r : Nat × Draft => Answer.place r.1) (Drafting.run_literal d l)

theorem next_literal (l : Literal) :
    (literal l).next d = (d.withLiteral l).1.push (.const (placeOperand (d.withLiteral l).2)) :=
  congrArg Prod.snd (Drafting.run_literal d l)

theorem next_aim (place target : Nat) : (aim place target).next d = d.aim place target :=
  congrArg Prod.snd (Drafting.run_aim d place target)

theorem next_land (place : Nat) : (land place).next d = d.aim place d.code.size :=
  congrArg Prod.snd (Drafting.run_land d place)

end

/-- What an edit leaves as it is: all instructions that it is not aimed at, and the literals, which
stay distinct. -/
structure Spares (e : Edit) (d f : Draft) : Prop where
  size : d.code.size ≤ f.code.size
  code : ∀ k < d.code.size, ¬e.AimsAt k → f.code[k]? = d.code[k]?
  literals : ∀ (k : Nat) l, d.literals[k]? = some l → f.literals[k]? = some l
  room : f.literals.size + d.code.size ≤ d.literals.size + f.code.size
  distinct : d.literals.toList.Nodup → f.literals.toList.Nodup

section

variable {d f : Draft} {e : Edit}

theorem Spares.of_extends (h : Extends d f)
    (hdistinct : d.literals.toList.Nodup → f.literals.toList.Nodup) : Spares e d f :=
  ⟨h.size, fun k hk _ => h.code k hk, h.literals, h.room, hdistinct⟩

/-- An edit that writes into one instruction, at which it is aimed. -/
theorem Spares.of_code (hsize : f.code.size = d.code.size) (hliterals : f.literals = d.literals)
    (hcode : ∀ k, ¬e.AimsAt k → f.code[k]? = d.code[k]?) : Spares e d f where
  size := Nat.le_of_eq hsize.symm
  code k _ hk := hcode k hk
  literals k l hl := by rwa [hliterals]
  room := Nat.le_of_eq (by rw [hliterals, hsize])
  distinct h := by rwa [hliterals]

theorem spares_aim (d : Draft) (place target : Nat) (haims : ∀ k, ¬e.AimsAt k → k ≠ place) :
    Spares e d (d.aim place target) := by
  apply Spares.of_code
  · exact d.size_aim place target
  · exact d.literals_aim place target
  · intro k hk
    rw [Draft.code_aim, if_neg (haims k hk)]

theorem spares_next (d : Draft) (e : Edit) : Spares e d (e.next d) := by
  cases e with
  | emit i => exact .of_extends ((Extends.refl d).push i) id
  | literal l =>
      rw [next_literal]
      exact .of_extends (.addLiteral d l _) (d.nodup_withLiteral l)
  | jump make => exact .of_extends ((Extends.refl d).push _) id
  | land place =>
      rw [next_land]
      exact spares_aim d place _ fun k hk => Ne.symm hk
  | aim place target =>
      rw [next_aim]
      exact spares_aim d place target fun k hk => Ne.symm hk
  | replace place i =>
      apply Spares.of_code
      · exact Array.size_setIfInBounds
      · rfl
      · intro k hk
        exact Array.getElem?_setIfInBounds_ne hk
  | reserve => exact .of_code rfl rfl fun _ _ => rfl

end

/-! ### Sequences of edits -/

/-- The draft after some edits. -/
def applyAll (d : Draft) (es : List Edit) : Draft :=
  es.foldl (fun d e => e.next d) d

/-- The slots that are answered, in order. -/
def slotsFrom (d : Draft) : List Edit → List UInt16
  | [] => []
  | e :: es => (e.answer d).slot?.toList ++ slotsFrom (e.next d) es

/-- What a method looks like that is written by some edits. -/
def drafted (es : List Edit) : Draft :=
  applyAll .empty es

def slots (es : List Edit) : List UInt16 :=
  slotsFrom .empty es

section

variable {d : Draft} {e : Edit} {es before after : List Edit} {i : Instr} {l : Literal} {k : Nat}

@[simp] theorem applyAll_cons (d : Draft) (e : Edit) (es : List Edit) :
    applyAll d (e :: es) = applyAll (e.next d) es := rfl

theorem drafted_append (before after : List Edit) :
    drafted (before ++ after) = applyAll (drafted before) after :=
  List.foldl_append

theorem drafted_concat (before : List Edit) (e : Edit) :
    drafted (before ++ [e]) = e.next (drafted before) :=
  drafted_append before [e]

theorem drafted_cons (before : List Edit) (e : Edit) (after : List Edit) :
    drafted (before ++ e :: after) = applyAll (e.next (drafted before)) after :=
  drafted_append before (e :: after)

/-- An instruction stays in its place as long as no edit is aimed at it. -/
theorem code_applyAll (hk : d.code[k]? = some i) (h : ∀ e ∈ es, ¬e.AimsAt k) :
    (applyAll d es).code[k]? = some i := by
  induction es generalizing d with
  | nil => exact hk
  | cons e es ih =>
      obtain ⟨he, hes⟩ := List.forall_mem_cons.1 h
      obtain ⟨hlt, -⟩ := Array.getElem?_eq_some_iff.1 hk
      apply ih
      · rw [(spares_next d e).code k hlt he]
        exact hk
      · exact hes

theorem literals_applyAll (hk : d.literals[k]? = some l) (es : List Edit) :
    (applyAll d es).literals[k]? = some l := by
  induction es generalizing d with
  | nil => exact hk
  | cons e es ih => exact ih ((spares_next d e).literals k l hk)

theorem nodup_applyAll (h : d.literals.toList.Nodup) (es : List Edit) :
    (applyAll d es).literals.toList.Nodup := by
  induction es generalizing d with
  | nil => exact h
  | cons e es ih => exact ih ((spares_next d e).distinct h)

/-- There are no more literals than instructions. -/
theorem room_applyAll (h : d.literals.size ≤ d.code.size) (es : List Edit) :
    (applyAll d es).literals.size ≤ (applyAll d es).code.size := by
  induction es generalizing d with
  | nil => exact h
  | cons e es ih =>
      have hroom := (spares_next d e).room
      rw [applyAll_cons]
      exact ih (by omega)

/-! ### Slots -/

/-- Only a reservation has to do with slots. -/
theorem not_reserving (h : e ≠ reserve) (d : Draft) :
    (e.answer d).slot? = none ∧ (e.next d).locals = d.locals := by
  cases e with
  | emit i => exact ⟨rfl, rfl⟩
  | literal l =>
      rw [answer_literal, next_literal, Draft.locals_push]
      exact ⟨rfl, (d.withLiteral_spec l).2.1⟩
  | jump make => exact ⟨rfl, rfl⟩
  | land place =>
      rw [next_land]
      exact ⟨rfl, d.locals_aim place _⟩
  | aim place target =>
      rw [next_aim]
      exact ⟨rfl, d.locals_aim place target⟩
  | replace place i => exact ⟨rfl, rfl⟩
  | reserve => exact absurd rfl h

/-- The slots are handed out in order, each of them once. -/
theorem slotsFrom_eq (hroom : d.locals.toNat + (slotsFrom d es).length ≤ 65535) :
    (slotsFrom d es).map UInt16.toNat = List.range' d.locals.toNat (slotsFrom d es).length ∧
      (applyAll d es).locals.toNat = d.locals.toNat + (slotsFrom d es).length := by
  induction es generalizing d with
  | nil => exact ⟨rfl, rfl⟩
  | cons e es ih =>
      rw [applyAll_cons]
      by_cases he : e = reserve
      · subst he
        have hslots : slotsFrom d (reserve :: es) = d.locals :: slotsFrom (reserve.next d) es := rfl
        rw [hslots, List.length_cons] at hroom
        have hnext : (reserve.next d).locals.toNat = d.locals.toNat + 1 :=
          Drafting.toNat_locals_reserve d (by omega)
        obtain ⟨hrest, hlocals⟩ := ih (by rw [hnext]; omega)
        rw [hnext] at hrest hlocals
        rw [hslots, List.map_cons, List.length_cons, List.range'_succ, hrest, hlocals]
        exact ⟨rfl, by omega⟩
      · obtain ⟨hanswer, hlocals⟩ := not_reserving he d
        have hslots : slotsFrom d (e :: es) = slotsFrom (e.next d) es := by
          rw [slotsFrom, hanswer]
          rfl
        rw [hslots] at hroom ⊢
        rw [← hlocals] at hroom ⊢
        exact ih hroom

end

/-- An edit adds an instruction in the place that it answers; the instruction is found there until
an edit is aimed at the place. -/
def Places (before : List Edit) (e : Edit) (after : List Edit) (i : Instr) : Prop :=
  ∃ k, e.answer (drafted before) = .place k ∧ (drafted (before ++ [e])).code[k]? = some i ∧
    ((∀ x ∈ after, ¬x.AimsAt k) → (drafted (before ++ e :: after)).code[k]? = some i)

/-- Edits that disturb nothing of what was written before. -/
structure Undisturbed (es : List Edit) : Prop where
  /-- An instruction keeps its place, and only an edit that is aimed at it can change it. -/
  still : ∀ before e after, es = before ++ e :: after → ∀ (k : Nat) i,
    (drafted before).code[k]? = some i →
      ∃ j, (drafted (before ++ [e])).code[k]? = some j ∧ (¬e.AimsAt k → j = i)
  emit : ∀ before i after, es = before ++ emit i :: after → Places before (emit i) after i
  jump : ∀ before make after, es = before ++ jump make :: after →
    Places before (jump make) after (make placeholder)
  /-- The instruction for a literal has the place of the same literal in the pool. -/
  literal : ∀ before l after, es = before ++ literal l :: after → ∃ n m,
    Places before (literal l) after (.const n) ∧
      (drafted es).literals[n.toNat]? = some m ∧ m.SameBits l
  /-- The pool has no two places of the same literal. -/
  distinct : ∀ (j k : Nat) l m, (drafted es).literals[j]? = some l →
    (drafted es).literals[k]? = some m → l.SameBits m → j = k
  /-- The slots are `0`, `1`, `2` and so on, and the draft counts them. -/
  slots : (slots es).map UInt16.toNat = List.range (slots es).length ∧
    (drafted es).locals.toNat = (slots es).length

section

variable {d : Draft} {e : Edit} {before after : List Edit} {i : Instr}

theorem places_of_push (hanswer : e.answer (drafted before) = .place (drafted before).code.size)
    (hnext : ∃ f : Draft, f.code = (drafted before).code ∧ e.next (drafted before) = f.push i) :
    Places before e after i := by
  obtain ⟨f, hcode, hnext⟩ := hnext
  have hplace : (e.next (drafted before)).code[(drafted before).code.size]? = some i := by
    rw [hnext, Draft.code_push, hcode, if_pos rfl]
  refine ⟨(drafted before).code.size, hanswer, ?_, ?_⟩
  · rw [drafted_concat]
    exact hplace
  · intro hafter
    rw [drafted_cons]
    exact code_applyAll hplace hafter

theorem exists_code_next {k : Nat} (hk : d.code[k]? = some i) :
    ∃ j, (e.next d).code[k]? = some j ∧ (¬e.AimsAt k → j = i) := by
  have hspares := spares_next d e
  obtain ⟨hlt, -⟩ := Array.getElem?_eq_some_iff.1 hk
  have hlt' : k < (e.next d).code.size := Nat.lt_of_lt_of_le hlt hspares.size
  refine ⟨_, Array.getElem?_eq_getElem hlt', ?_⟩
  intro haims
  have hsame := hspares.code k hlt haims
  rw [hk, Array.getElem?_eq_getElem hlt'] at hsame
  exact Option.some.inj hsame

end

/-- Whatever is done to a draft, what was written before is not disturbed, as long as the places fit
into operands and the slots do not run out. Zeros of different sign and what is not a number are told
apart in the pool, and so are numbers of different types. -/
theorem undisturbed_of_room (es : List Edit) (hroom : (drafted es).code.size < UInt32.size - 1)
    (hslots : (slots es).length < 65535) :
    Undisturbed es ∧
      [0.0, -0.0, 0.0 / 0.0].Pairwise (fun x y => ¬(Literal.double x).SameBits (.double y)) ∧
      [0.0, -0.0, 0.0 / 0.0].Pairwise (fun x y => ¬(Literal.float x).SameBits (.float y)) ∧
      ∀ l m : Literal, l.SameBits m → l.toValue.dataType = m.toValue.dataType := by
  have hpool : (drafted es).literals.size ≤ (drafted es).code.size :=
    room_applyAll (d := .empty) (Nat.le_refl 0) es
  refine ⟨?_, ?_, ?_, ?_⟩
  · constructor
    case still =>
      intro before e after _ k i hk
      rw [drafted_concat]
      exact exists_code_next hk
    case emit =>
      intro before i after _
      exact places_of_push rfl ⟨drafted before, rfl, rfl⟩
    case jump =>
      intro before make after _
      exact places_of_push rfl ⟨drafted before, rfl, rfl⟩
    case literal =>
      intro before l after hes
      obtain ⟨hcode, -, hget, -⟩ := (drafted before).withLiteral_spec l
      have hliteral : (drafted es).literals[((drafted before).withLiteral l).2]? = some l := by
        rw [hes, drafted_cons]
        apply literals_applyAll
        rw [next_literal]
        exact hget
      have hn : (placeOperand ((drafted before).withLiteral l).2).toNat =
          ((drafted before).withLiteral l).2 := by
        obtain ⟨hlt, -⟩ := Array.getElem?_eq_some_iff.1 hliteral
        apply toNat_placeOperand
        have hbound : placeholder.toNat = UInt32.size - 1 := rfl
        omega
      refine ⟨_, l, places_of_push (answer_literal _ l) ⟨_, hcode, next_literal _ l⟩, ?_, ?_⟩
      · rw [hn]
        exact hliteral
      · exact Literal.sameBits_iff.2 rfl
    case distinct =>
      intro j k l m hj hk hsame
      obtain rfl := Literal.sameBits_iff.1 hsame
      have hnodup : (drafted es).literals.toList.Nodup :=
        nodup_applyAll (d := .empty) List.nodup_nil es
      obtain ⟨hlt, -⟩ := Array.getElem?_eq_some_iff.1 hj
      apply (List.getElem?_inj hlt hnodup).1
      rw [Array.getElem?_toList, Array.getElem?_toList, hj, hk]
    case slots =>
      have hzero : Draft.empty.locals.toNat = 0 := rfl
      have hroom : Draft.empty.locals.toNat + (slotsFrom .empty es).length ≤ 65535 := by
        rw [hzero, Nat.zero_add]
        exact Nat.le_of_lt hslots
      have hanswers := slotsFrom_eq hroom
      rwa [hzero, Nat.zero_add, ← List.range_eq_range'] at hanswers
  · decide
  · decide
  · intro l m hsame
    rw [Literal.sameBits_iff.1 hsame]

/-- A jump over two zeros of different sign, the first of which is written twice. -/
theorem undisturbed_zeros :
    let es := [jump .jumpIfFalse, literal (.double 0.0), reserve, literal (.double (-0.0)), reserve,
      literal (.double 0.0), land 0]
    (drafted es).code.size < UInt32.size - 1 ∧ (slots es).length < 65535 ∧ Undisturbed es ∧
      (drafted es).code = #[.jumpIfFalse 4, .const 0, .const 1, .const 0] ∧ slots es = [0, 1] := by
  intro es
  have hsize : (drafted es).code.size < UInt32.size - 1 := by decide +kernel
  have hslots : (slots es).length < 65535 := by decide +kernel
  obtain ⟨hundisturbed, -⟩ := undisturbed_of_room es hsize hslots
  exact ⟨hsize, hslots, hundisturbed, by decide +kernel, by decide +kernel⟩

end Edit

end Scriptlet.Code
