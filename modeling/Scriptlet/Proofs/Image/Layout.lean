import Scriptlet.Image.Layout
import Scriptlet.Proofs.Binary.Bits
import Scriptlet.Proofs.Image.Codec

namespace Scriptlet.Image

/-!
# The layout of a module is faithful

Each alternative of a choice is read by its own number, so types, routines and instructions have one
spelling each. A module may have several, which differ in the literals that are no numbers.
-/

open Code Codec

theorem exact_exceptionClass : exceptionClass.Exact := by
  refine exact_choice (by decide) (fun c => by cases c <;> decide) fun n hn bytes c rest => ?_
  have hread : ∀ n < 12, classNumber (ExceptionClass.all[n]?.getD .exception) = n := by decide
  rw [Except.ok.injEq, Prod.mk.injEq, List.nil_append]
  constructor
  · rintro ⟨rfl, rfl⟩
    exact ⟨hread n hn, rfl⟩
  · rintro ⟨rfl, rfl⟩
    exact ⟨by cases c <;> rfl, rfl⟩

theorem exact_dataType : dataType.Exact := by
  refine exact_choice (by decide) (fun t => by cases t <;> exact Nat.le_of_ble_eq_true rfl)
    fun n hn bytes t rest => ?_
  constructor
  · intro h
    unfold DataType.read at h
    split at h
    case h_12 hne =>
      obtain ⟨c, rfl, hc⟩ := part_eq_ok_iff.1 h
      have hlast : n = 11 := by grind
      exact ⟨hlast.symm, exact_exceptionClass.get_iff.1 hc⟩
    all_goals
      cases h
      exact ⟨rfl, rfl⟩
  · rintro ⟨rfl, rfl⟩
    cases t with
    | exception c => exact part_eq_ok_iff.2 ⟨c, rfl, exact_exceptionClass.get_iff.2 rfl⟩
    | _ => rfl

theorem exact_int16 : int16.Exact :=
  exact_word16.map (fun _ => rfl) fun _ => rfl

theorem exact_int32 : int32.Exact :=
  exact_word32.map (fun _ => rfl) fun _ => rfl

theorem exact_int64 : int64.Exact :=
  exact_word64.map (fun _ => rfl) fun _ => rfl

theorem exact_routine : routine.Exact := by
  refine exact_choice (by decide) (fun r => by cases r <;> exact Nat.le_of_ble_eq_true rfl)
    fun n hn bytes r rest => ?_
  constructor
  · intro h
    unfold Routine.read at h
    split at h
    case h_9 | h_10 =>
      obtain ⟨t, rfl, ht⟩ := part_eq_ok_iff.1 h
      exact ⟨rfl, exact_dataType.get_iff.1 ht⟩
    case h_25 =>
      obtain ⟨t, rfl, ht⟩ := part_eq_ok_iff.1 h
      exact ⟨rfl, exact_byte.get_iff.1 ht⟩
    case h_26 | h_27 =>
      obtain ⟨t, rfl, ht⟩ := part_eq_ok_iff.1 h
      exact ⟨rfl, exact_exceptionClass.get_iff.1 ht⟩
    case h_31 =>
      cases h
      have hlast : n = 30 := by grind
      exact ⟨hlast.symm, rfl⟩
    all_goals
      cases h
      exact ⟨rfl, rfl⟩
  · rintro ⟨rfl, rfl⟩
    cases r with
    | parse t | convertTo t => exact part_eq_ok_iff.2 ⟨t, rfl, exact_dataType.get_iff.2 rfl⟩
    | concat n => exact part_eq_ok_iff.2 ⟨n, rfl, exact_byte.get_iff.2 rfl⟩
    | newException c | newDefault c =>
        exact part_eq_ok_iff.2 ⟨c, rfl, exact_exceptionClass.get_iff.2 rfl⟩
    | _ => rfl

theorem number_lt (i : Instr) : Instr.number i < 36 := by
  cases i with
  | binary op => cases op <;> decide
  | unary op => cases op <;> decide
  | _ => exact Nat.le_of_ble_eq_true rfl

theorem exact_instr : instr.Exact := by
  refine exact_choice (by decide) number_lt fun n hn bytes i rest => ?_
  constructor
  · intro h
    unfold Instr.read at h
    split at h
    case h_1 | h_29 | h_30 | h_31 =>
      obtain ⟨k, rfl, hk⟩ := part_eq_ok_iff.1 h
      exact ⟨rfl, exact_word32.get_iff.1 hk⟩
    case h_2 | h_3 =>
      obtain ⟨k, rfl, hk⟩ := part_eq_ok_iff.1 h
      exact ⟨rfl, exact_word16.get_iff.1 hk⟩
    case h_27 | h_28 =>
      obtain ⟨t, rfl, ht⟩ := part_eq_ok_iff.1 h
      exact ⟨rfl, exact_dataType.get_iff.1 ht⟩
    case h_32 =>
      obtain ⟨p, rfl, hp⟩ := part_eq_ok_iff.1 h
      exact ⟨rfl, (exact_word16.pair exact_word16).get_iff.1 hp⟩
    case h_33 =>
      obtain ⟨r, rfl, hr⟩ := part_eq_ok_iff.1 h
      exact ⟨rfl, exact_routine.get_iff.1 hr⟩
    case h_36 =>
      cases h
      have hlast : n = 35 := by grind
      exact ⟨hlast.symm, rfl⟩
    all_goals
      cases h
      exact ⟨rfl, rfl⟩
  · rintro ⟨rfl, rfl⟩
    cases i with
    | const k | jump k | jumpIfFalse k | jumpIfTrue k =>
        exact part_eq_ok_iff.2 ⟨k, rfl, exact_word32.get_iff.2 rfl⟩
    | load k | store k => exact part_eq_ok_iff.2 ⟨k, rfl, exact_word16.get_iff.2 rfl⟩
    | convert t | unbox t => exact part_eq_ok_iff.2 ⟨t, rfl, exact_dataType.get_iff.2 rfl⟩
    | call c k =>
        have hread : (word16.pair word16).part (fun p => Instr.call p.1 p.2)
            ((word16.pair word16).put (c, k) ++ rest) = .ok (.call c k, rest) :=
          part_eq_ok_iff.2 ⟨(c, k), rfl, (exact_word16.pair exact_word16).get_iff.2 rfl⟩
        exact hread
    | routine r => exact part_eq_ok_iff.2 ⟨r, rfl, exact_routine.get_iff.2 rfl⟩
    | binary op => cases op <;> rfl
    | unary op => cases op <;> rfl
    | _ => rfl

/-- Whether a literal is a number that is none. -/
def isNaN : Literal → Bool
  | .float x => x.isNaN
  | .double x => x.isNaN
  | _ => false

/-- The payloads of literals. One that is no number is spelled by every bit pattern without a
number. -/
def payloadSpelling : Spelling Literal where
  Spells
    | .float x, bytes => ∃ bits : UInt32,
        (bits = x.toBits ∨ (Float32.ofBits bits).isNaN ∧ x.isNaN) ∧ bytes = word32.put bits
    | .double x, bytes => ∃ bits : UInt64,
        (bits = x.toBits ∨ (Float.ofBits bits).isNaN ∧ x.isNaN) ∧ bytes = word64.put bits
    | .string s, bytes => textSpelling.Spells s bytes
    | l, bytes => bytes = Literal.payload l
  Fits
    | .string s => textSpelling.Fits s
    | _ => True
  Plain l := isNaN l = false

theorem length_put_word32 (n : UInt32) : (word32.put n).length = 4 :=
  length_littleEndian 4 _

theorem length_put_word64 (n : UInt64) : (word64.put n).length = 8 :=
  length_littleEndian 8 _

theorem covers_payload : payloadSpelling.Covers Literal.payload where
  spells_put l h := by
    cases l with
    | float x => exact ⟨x.toBits, Or.inl rfl, rfl⟩
    | double x => exact ⟨x.toBits, Or.inl rfl, rfl⟩
    | string s => exact faithful_string.spells_put s h
    | _ => rfl
  fits l bytes h := by
    cases l with
    | string s => exact faithful_string.fits s bytes h
    | _ => trivial
  length_eq l bytes h := by
    cases l with
    | float x =>
        obtain ⟨bits, -, rfl⟩ := h
        exact (length_put_word32 _).trans (length_put_word32 _).symm
    | double x =>
        obtain ⟨bits, -, rfl⟩ := h
        exact (length_put_word64 _).trans (length_put_word64 _).symm
    | string s => exact faithful_string.length_eq s bytes h
    | _ => exact congrArg List.length h
  eq_put l bytes h hplain := by
    cases l with
    | float x =>
        obtain ⟨bits, rfl | ⟨-, hx⟩, rfl⟩ := h
        · rfl
        · exact absurd hx (Bool.eq_false_iff.1 hplain)
    | double x =>
        obtain ⟨bits, rfl | ⟨-, hx⟩, rfl⟩ := h
        · rfl
        · exact absurd hx (Bool.eq_false_iff.1 hplain)
    | string s => exact faithful_string.eq_put s bytes h trivial
    | _ => exact h

def literalSpelling : Spelling Literal :=
  payloadSpelling.choice Literal.number

theorem get_float32_iff {bytes rest : List UInt8} {x : Float32} :
    float32.get bytes = .ok (x, rest) ↔
      ∃ front, payloadSpelling.Spells (.float x) front ∧ bytes = front ++ rest := by
  simp only [float32, Codec.map, map_eq_ok_iff, Prod.exists, Prod.mk.injEq, exact_word32.get_iff]
  constructor
  · rintro ⟨bits, _, rfl, hx, rfl⟩
    exact ⟨_, ⟨bits, Binary.float32_ofBits_eq_iff.1 hx, rfl⟩, rfl⟩
  · rintro ⟨_, ⟨bits, hx, rfl⟩, rfl⟩
    exact ⟨bits, rest, rfl, Binary.float32_ofBits_eq_iff.2 hx, rfl⟩

theorem get_float_iff {bytes rest : List UInt8} {x : Float} :
    float.get bytes = .ok (x, rest) ↔
      ∃ front, payloadSpelling.Spells (.double x) front ∧ bytes = front ++ rest := by
  simp only [float, Codec.map, map_eq_ok_iff, Prod.exists, Prod.mk.injEq, exact_word64.get_iff]
  constructor
  · rintro ⟨bits, _, rfl, hx, rfl⟩
    exact ⟨_, ⟨bits, Binary.float_ofBits_eq_iff.1 hx, rfl⟩, rfl⟩
  · rintro ⟨_, ⟨bits, hx, rfl⟩, rfl⟩
    exact ⟨bits, rest, rfl, Binary.float_ofBits_eq_iff.2 hx, rfl⟩

theorem faithful_literal : literal.Faithful literalSpelling := by
  refine faithful_choice (by decide) (fun l => by cases l <;> exact Nat.le_of_ble_eq_true rfl)
    covers_payload fun n hn bytes l rest => ?_
  constructor
  · intro h
    unfold Literal.read at h
    split at h
    case h_1 =>
      cases h
      exact ⟨rfl, [], rfl, rfl⟩
    case h_2 =>
      obtain ⟨b, rfl, hb⟩ := part_eq_ok_iff.1 h
      exact ⟨rfl, _, rfl, exact_bool.get_iff.1 hb⟩
    case h_3 =>
      obtain ⟨k, rfl, hk⟩ := part_eq_ok_iff.1 h
      exact ⟨rfl, _, rfl, exact_byte.get_iff.1 hk⟩
    case h_4 =>
      obtain ⟨k, rfl, hk⟩ := part_eq_ok_iff.1 h
      exact ⟨rfl, _, rfl, exact_int16.get_iff.1 hk⟩
    case h_5 =>
      obtain ⟨k, rfl, hk⟩ := part_eq_ok_iff.1 h
      exact ⟨rfl, _, rfl, exact_int32.get_iff.1 hk⟩
    case h_6 =>
      obtain ⟨k, rfl, hk⟩ := part_eq_ok_iff.1 h
      exact ⟨rfl, _, rfl, exact_int64.get_iff.1 hk⟩
    case h_7 =>
      obtain ⟨x, rfl, hx⟩ := part_eq_ok_iff.1 h
      exact ⟨rfl, get_float32_iff.1 hx⟩
    case h_8 =>
      obtain ⟨x, rfl, hx⟩ := part_eq_ok_iff.1 h
      exact ⟨rfl, get_float_iff.1 hx⟩
    case h_9 =>
      obtain ⟨c, rfl, hc⟩ := part_eq_ok_iff.1 h
      exact ⟨rfl, _, rfl, exact_char.get_iff.1 hc⟩
    case h_10 =>
      have hlast : n = 9 := by grind
      obtain ⟨s, rfl, hs⟩ := part_eq_ok_iff.1 h
      exact ⟨hlast.symm, (faithful_string.get_iff _ _ _).1 hs⟩
  · rintro ⟨rfl, front, hfront, rfl⟩
    cases l with
    | null =>
        cases hfront
        rfl
    | bool b =>
        cases hfront
        exact part_eq_ok_iff.2 ⟨b, rfl, exact_bool.get_iff.2 rfl⟩
    | byte k =>
        cases hfront
        exact part_eq_ok_iff.2 ⟨k, rfl, exact_byte.get_iff.2 rfl⟩
    | short k =>
        cases hfront
        exact part_eq_ok_iff.2 ⟨k, rfl, exact_int16.get_iff.2 rfl⟩
    | int k =>
        cases hfront
        exact part_eq_ok_iff.2 ⟨k, rfl, exact_int32.get_iff.2 rfl⟩
    | long k =>
        cases hfront
        exact part_eq_ok_iff.2 ⟨k, rfl, exact_int64.get_iff.2 rfl⟩
    | float x => exact part_eq_ok_iff.2 ⟨x, rfl, get_float32_iff.2 ⟨front, hfront, rfl⟩⟩
    | double x => exact part_eq_ok_iff.2 ⟨x, rfl, get_float_iff.2 ⟨front, hfront, rfl⟩⟩
    | char c =>
        cases hfront
        exact part_eq_ok_iff.2 ⟨c, rfl, exact_char.get_iff.2 rfl⟩
    | string s =>
        exact part_eq_ok_iff.2 ⟨s, rfl, (faithful_string.get_iff _ _ _).2 ⟨front, hfront, rfl⟩⟩

/-- The spellings of a method, field by field. -/
def methodSpelling : Spelling Method :=
  (textSpelling.pair <| (Spelling.exact Codec.bool.put).pair <|
    (Spelling.exact Codec.bool.put).pair <| (Spelling.exact dataType.put).list.pair <|
      textSpelling.list.pair <| (Spelling.exact dataType.put).pair <|
        (Spelling.exact word16.put).pair <| (literalSpelling.list.comap Array.toList).pair
          ((Spelling.exact instr.put).list.comap Array.toList)).comap
    fun m => (m.name, m.isPublic, m.isStatic, m.params, m.paramNames, m.result, m.locals,
      m.literals, m.code)

def classSpelling : Spelling Code.Class :=
  (textSpelling.pair (methodSpelling.list.comap Array.toList)).comap fun c => (c.name, c.methods)

def moduleSpelling : Spelling Module :=
  (textSpelling.pair (classSpelling.list.comap Array.toList)).comap fun m => (m.name, m.classes)

theorem faithful_method : method.Faithful methodSpelling := by
  have htail := faithful_literal.array.pair (Faithful.array exact_instr)
  have hcounts := Faithful.pair exact_dataType (Faithful.pair exact_word16 htail)
  have hparams := (Faithful.list exact_dataType).pair (faithful_string.list.pair hcounts)
  have hflags := Faithful.pair exact_bool (Faithful.pair exact_bool hparams)
  exact (faithful_string.pair hflags).map (fun _ => rfl) fun _ => rfl

theorem faithful_cls : cls.Faithful classSpelling :=
  (faithful_string.pair faithful_method.array).map (fun _ => rfl) fun _ => rfl

theorem faithful_module : module.Faithful moduleSpelling :=
  (faithful_string.pair faithful_cls.array).map (fun _ => rfl) fun _ => rfl

end Scriptlet.Image
