import Mathlib.Data.List.Forall2
import Scriptlet.Proofs.Machine.Safety

namespace Scriptlet.Machine

/-!
# Safety of library routines

A routine on arguments of the types that it takes answers with a value of its result type, or prints
if it has none.
-/

open Code (Routine)

/-- The argument types of a routine are met. -/
abbrev ConformAll : List Value → List DataType → Prop :=
  List.Forall₂ Value.Conforms

/-- A reply of a routine with a result type. -/
def Reply.Fits (t : DataType) : Reply → Prop
  | .value v => t ≠ .void ∧ v.Conforms t
  | .print _ => t = .void

theorem safe_receiverText {v : Value} (hv : v.Conforms .string) :
    Safe (fun _ => True) (receiverText v) := by
  rcases hv with rfl | ⟨s, rfl⟩
  · exact safe_failed _
  · trivial

theorem safe_receiver {v : Value} (hv : v.Conforms .string) :
    Safe (fun _ => True) (receiver v) :=
  (safe_receiverText hv).map fun _ _ => trivial

theorem safe_textArgument {v : Value} (hv : v.Conforms .string) (parameter : String) :
    Safe (fun _ => True) (textArgument v parameter) := by
  rcases hv with rfl | ⟨s, rfl⟩
  · exact safe_failed _
  · trivial

theorem safe_intArgument {v : Value} (hv : v.Conforms .int) :
    Safe (fun _ => True) (intArgument v) := by
  obtain ⟨n, rfl⟩ := hv
  trivial

theorem safe_doubleArgument {v : Value} (hv : v.Conforms .double) :
    Safe (fun _ => True) (doubleArgument v) := by
  obtain ⟨x, rfl⟩ := hv
  trivial

theorem safe_abs {v : Value} {t : DataType} (ht : t ∈ Catalogue.mathTypes) (hv : v.Conforms t) :
    Safe (·.Conforms t) (abs v) := by
  simp only [Catalogue.mathTypes, List.mem_cons, List.not_mem_nil, or_false] at ht
  rcases ht with rfl | rfl | rfl | rfl
  all_goals
    obtain ⟨x, rfl⟩ := hv
    simp only [abs, Promoted.of?]
  · split
    · exact safe_failed _
    · exact ⟨_, rfl⟩
  · split
    · exact safe_failed _
    · exact ⟨_, rfl⟩
  · exact ⟨_, rfl⟩
  · exact ⟨_, rfl⟩

theorem conforms_maximum (p : Pair) : (maximum p).Conforms p.type := by
  cases p <;> exact ⟨_, rfl⟩

theorem conforms_minimum (p : Pair) : (minimum p).Conforms p.type := by
  cases p <;> exact ⟨_, rfl⟩

theorem safe_extremum {f : Pair → Value} (hf : ∀ p, (f p).Conforms p.type) {v w : Value}
    {t : DataType} (ht : t ∈ Catalogue.mathTypes) (hv : v.Conforms t) (hw : w.Conforms t) :
    Safe (·.Conforms t) (extremum f v w) := by
  have hcommon : t.commonType? t = some t := by
    simp only [Catalogue.mathTypes, List.mem_cons, List.not_mem_nil, or_false] at ht
    rcases ht with rfl | rfl | rfl | rfl <;> rfl
  obtain ⟨p, hp, rfl⟩ := Pair.of?_of_conforms hv hw hcommon
  simp only [extremum, hp]
  exact hf p

/-- A reading, whose failures are failures of the program's input. -/
theorem safe_reading {α ε : Type} {x : Except ε α} {f : α → Value} {g : ε → RuntimeError}
    {t : DataType} (hf : ∀ a, (f a).Conforms t) :
    Safe (·.Conforms t) ((x.map f).mapError fun e => .failed (g e)) := by
  cases x with
  | error e => exact safe_failed _
  | ok a => exact hf a

/-- Reading a text as a value of a type that has a method `Parse`. -/
theorem safe_parseText {t : DataType} (ht : Catalogue.isReadable t = true) (text : String) :
    Safe (·.Conforms t) (parseText text t) := by
  cases t <;> simp [Catalogue.isReadable, DataType.isNumeric, DataType.isIntegral] at ht
  all_goals exact safe_reading fun a => ⟨_, rfl⟩

theorem safe_parse {t : DataType} (ht : Catalogue.isReadable t = true) {v : Value}
    (hv : v.Conforms .string) : Safe (·.Conforms t) (parse v t) := by
  rcases hv with rfl | ⟨s, rfl⟩
  · exact safe_failed _
  · exact safe_parseText ht s

theorem safe_integral (n : Int) {t : DataType} (ht : t.isWhole = true) :
    Safe (·.Conforms t) (integral n t) := by
  cases t <;> simp [DataType.isWhole, DataType.isIntegral] at ht
  all_goals
    simp only [integral]
    split
    · exact ⟨_, rfl⟩
    · exact safe_failed _

theorem safe_roundedIntegral (x : Binary.Datum) {t : DataType} (ht : t.isWhole = true) :
    Safe (·.Conforms t) (roundedIntegral x t) := by
  unfold roundedIntegral
  split
  · exact safe_integral _ ht
  · exact safe_failed _

theorem safe_convertToBool {v : Value} : Safe (·.Conforms .bool) (convertToBool v) := by
  cases v with
  | string s => exact safe_parseText rfl s
  | void | exception _ _ | char _ => exact safe_failed _
  | _ => exact ⟨_, rfl⟩

/-- The conversion of a value with a promotion. -/
theorem safe_convertNumber {v : Value} {q : Promoted} (hv : Promoted.of? v = some q)
    {s t : DataType} (hs : v.Conforms s) (harith : s.isArithmetic = true)
    (ht : t.isArithmetic = true) : Safe (·.Conforms t) (convertNumber v t) := by
  have hreal : Safe (·.Conforms t) (cast v t) := safe_cast hs harith ht
  cases t with
  | float | double => exact hreal
  | byte | short | int | long | char =>
      simp only [convertNumber, hv]
      cases q with
      | int n => exact safe_integral _ rfl
      | long n => exact safe_integral _ rfl
      | float x | double x =>
          dsimp only
          split
          · exact safe_failed _
          · exact safe_roundedIntegral _ rfl
  | _ => simp [DataType.isArithmetic, DataType.isNumeric, DataType.isIntegral] at ht

/-- The conversion routines to numbers and characters. -/
theorem safe_convertTo_arithmetic (v : Value) {t : DataType} (ht : t.isArithmetic = true) :
    Safe (·.Conforms t) (convertTo v t) := by
  cases t
  case void | bool | string | object | exception =>
    simp [DataType.isArithmetic, DataType.isNumeric, DataType.isIntegral] at ht
  all_goals
    cases v with
    | null => exact ⟨_, rfl⟩
    | string s => exact safe_parseText rfl s
    | void | exception _ _ => exact safe_failed _
    | bool b => first | exact safe_failed _ | exact ⟨_, rfl⟩ | exact safe_integral _ rfl
    | char c => first | exact safe_failed _ | exact safe_integral _ rfl
    | byte n => exact safe_convertNumber rfl (s := .byte) ⟨n, rfl⟩ rfl rfl
    | short n => exact safe_convertNumber rfl (s := .short) ⟨n, rfl⟩ rfl rfl
    | int n => exact safe_convertNumber rfl (s := .int) ⟨n, rfl⟩ rfl rfl
    | long n => exact safe_convertNumber rfl (s := .long) ⟨n, rfl⟩ rfl rfl
    | float x => exact safe_convertNumber rfl (s := .float) ⟨x, rfl⟩ rfl rfl
    | double x => exact safe_convertNumber rfl (s := .double) ⟨x, rfl⟩ rfl rfl

theorem safe_convertTo (v : Value) {name : String} {t : DataType}
    (ht : Catalogue.conversionTarget? name = some t) : Safe (·.Conforms t) (convertTo v t) := by
  have hkinds : t = .bool ∨ t = .string ∨ t.isArithmetic = true := by
    unfold Catalogue.conversionTarget? at ht
    split at ht <;> cases ht <;> decide
  rcases hkinds with rfl | rfl | harith
  · exact safe_convertToBool
  · exact .inr ⟨_, rfl⟩
  · exact safe_convertTo_arithmetic v harith

theorem safe_charAt (s : List Char) (index : Int) : Safe (·.Conforms .char) (charAt s index) := by
  unfold charAt
  split
  · exact safe_failed _
  · split
    · exact ⟨_, rfl⟩
    · exact safe_failed _

theorem safe_substring (s : List Char) (start length : Int) :
    Safe (·.Conforms .string) (substring s start length) := by
  unfold substring
  dsimp only
  repeat' split
  all_goals first | exact safe_failed _ | exact .inr ⟨_, rfl⟩

theorem conforms_position (t s : List Char) : (position t s).Conforms .int := by
  unfold position
  split <;> exact ⟨_, rfl⟩

theorem safe_indexOf (s : List Char) {v : Value} {t : DataType} (ht : t ∈ [DataType.char, .string])
    (hv : v.Conforms t) : Safe (·.Conforms .int) (indexOf s v) := by
  simp only [List.mem_cons, List.not_mem_nil, or_false] at ht
  rcases ht with rfl | rfl
  · obtain ⟨c, rfl⟩ := hv
    exact conforms_position _ _
  · rcases hv with rfl | ⟨u, rfl⟩
    · exact safe_failed _
    · exact conforms_position _ _

theorem safe_replace (s : List Char) {v w : Value} {t : DataType}
    (ht : t ∈ [DataType.char, .string]) (hv : v.Conforms t) (hw : w.Conforms t) :
    Safe (·.Conforms .string) (replace s v w) := by
  simp only [List.mem_cons, List.not_mem_nil, or_false] at ht
  rcases ht with rfl | rfl
  · obtain ⟨a, rfl⟩ := hv
    obtain ⟨b, rfl⟩ := hw
    exact .inr ⟨_, rfl⟩
  · rcases hv with rfl | ⟨u, rfl⟩
    · exact safe_failed _
    · simp only [replace]
      split
      · exact safe_failed _
      · rcases hw with rfl | ⟨w, rfl⟩ <;> exact .inr ⟨_, rfl⟩

theorem safe_exceptionMessage {v : Value} {c : ExceptionClass} (hv : v.Conforms (.exception c)) :
    Safe (·.Conforms .string) (exceptionMessage v) := by
  rcases hv with rfl | ⟨k, message, rfl, -⟩
  · exact safe_failed _
  · exact .inr ⟨message, rfl⟩

theorem safe_toText (v : Value) : Safe (·.Conforms .string) (toText v) := by
  unfold toText
  split
  · exact safe_failed _
  · exact .inr ⟨_, rfl⟩

theorem safe_realFunction (f : Float → Float) {v : Value} (hv : v.Conforms .double) :
    Safe (·.Conforms .double) (realFunction f v) :=
  (safe_doubleArgument hv).map fun x _ => ⟨f x, rfl⟩

theorem safe_textFunction {f : List Char → Value} (hf : ∀ s, (f s).Conforms .string) {v : Value}
    (hv : v.Conforms .string) : Safe (·.Conforms .string) (textFunction f v) :=
  (safe_receiver hv).map fun s _ => hf s

theorem safe_textTest (f : List Char → List Char → Bool) {v w : Value} (hv : v.Conforms .string)
    (hw : w.Conforms .string) : Safe (·.Conforms .bool) (textTest f v w) :=
  (safe_receiver hv).bind fun s _ =>
    (safe_textArgument hw "value").bind fun t _ => ⟨f s t, rfl⟩

theorem conforms_newException (c : ExceptionClass) (v : Value) :
    (newException c v).Conforms (.exception c) := by
  unfold newException
  split <;> exact .inr ⟨c, _, rfl, .inr rfl⟩

theorem conforms_textValue (s : List Char) : (textValue s).Conforms .string :=
  .inr ⟨_, rfl⟩

/-- The answer of a routine with a value. -/
theorem Safe.reply {t : DataType} {x : Except Fault Value} (hx : Safe (·.Conforms t) x)
    (ht : t ≠ .void) : Safe (Reply.Fits t) (x.map .value) :=
  hx.map fun _ hv => ⟨ht, hv⟩

/-- A routine on arguments that it takes. -/
theorem safe_call {r : Routine} {params : List DataType} {t : DataType} (h : r.Takes params t)
    {args : List Value} (hargs : ConformAll args params) : Safe (Reply.Fits t) (call r args) := by
  cases h with
  | extremum hr ht =>
      rcases hargs with _ | ⟨hv, _ | ⟨hw, _ | _⟩⟩
      have hne : t ≠ .void := by
        rintro rfl
        simp [Catalogue.mathTypes] at ht
      simp only [List.mem_cons, List.not_mem_nil, or_false] at hr
      rcases hr with rfl | rfl
      · exact (safe_extremum conforms_maximum ht hv hw).reply hne
      · exact (safe_extremum conforms_minimum ht hv hw).reply hne
  | abs ht =>
      rcases hargs with _ | ⟨hv, _ | _⟩
      refine (safe_abs ht hv).reply ?_
      rintro rfl
      simp [Catalogue.mathTypes] at ht
  | pow =>
      rcases hargs with _ | ⟨hv, _ | ⟨hw, _ | _⟩⟩
      refine Safe.reply (t := .double) ?_ (by decide)
      exact (safe_doubleArgument hv).bind fun x _ =>
        (safe_doubleArgument hw).bind fun y _ => ⟨_, rfl⟩
  | real hr =>
      rcases hargs with _ | ⟨hv, _ | _⟩
      simp only [List.mem_cons, List.not_mem_nil, or_false] at hr
      rcases hr with rfl | rfl | rfl | rfl <;> exact (safe_realFunction _ hv).reply (by decide)
  | parse ht =>
      rcases hargs with _ | ⟨hv, _ | _⟩
      refine (safe_parse ht hv).reply ?_
      rintro rfl
      cases ht
  | convertTo ht =>
      rcases hargs with _ | ⟨hv, _ | _⟩
      refine (safe_convertTo _ ht).reply ?_
      rintro rfl
      unfold Catalogue.conversionTarget? at ht
      split at ht <;> cases ht
  | toText =>
      rcases hargs with _ | ⟨hv, _ | _⟩
      exact (safe_toText _).reply (by decide)
  | length =>
      rcases hargs with _ | ⟨hv, _ | _⟩
      refine Safe.reply (t := .int) ?_ (by decide)
      exact (safe_receiverText hv).map fun _ _ => ⟨_, rfl⟩
  | charAt =>
      rcases hargs with _ | ⟨hv, _ | ⟨hi, _ | _⟩⟩
      refine Safe.reply (t := .char) ?_ (by decide)
      exact (safe_receiver hv).bind fun s _ => (safe_intArgument hi).bind fun i _ => safe_charAt s i
  | text hr =>
      rcases hargs with _ | ⟨hv, _ | _⟩
      simp only [List.mem_cons, List.not_mem_nil, or_false] at hr
      rcases hr with rfl | rfl | rfl <;>
        exact (safe_textFunction (fun _ => conforms_textValue _) hv).reply (by decide)
  | substring =>
      rcases hargs with _ | ⟨hv, _ | ⟨hi, _ | _⟩⟩
      refine Safe.reply (t := .string) ?_ (by decide)
      exact (safe_receiver hv).bind fun s _ =>
        (safe_intArgument hi).bind fun i _ => safe_substring s i _
  | substringOf =>
      rcases hargs with _ | ⟨hv, _ | ⟨hi, _ | ⟨hn, _ | _⟩⟩⟩
      refine Safe.reply (t := .string) ?_ (by decide)
      exact (safe_receiver hv).bind fun s _ => (safe_intArgument hi).bind fun i _ =>
        (safe_intArgument hn).bind fun n _ => safe_substring s i n
  | test hr =>
      rcases hargs with _ | ⟨hv, _ | ⟨hw, _ | _⟩⟩
      simp only [List.mem_cons, List.not_mem_nil, or_false] at hr
      rcases hr with rfl | rfl | rfl <;> exact (safe_textTest _ hv hw).reply (by decide)
  | indexOf ht =>
      rcases hargs with _ | ⟨hv, _ | ⟨hw, _ | _⟩⟩
      refine Safe.reply (t := .int) ?_ (by decide)
      exact (safe_receiver hv).bind fun s _ => safe_indexOf s ht hw
  | replace ht =>
      rcases hargs with _ | ⟨hv, _ | ⟨hold, _ | ⟨hnew, _ | _⟩⟩⟩
      refine Safe.reply (t := .string) ?_ (by decide)
      exact (safe_receiver hv).bind fun s _ => safe_replace s ht hold hnew
  | isNullOrEmpty =>
      rcases hargs with _ | ⟨hv, _ | _⟩
      exact ⟨by decide, _, rfl⟩
  | concat n =>
      have hlength : args.length = n.toNat := by simpa using hargs.length_eq
      simp only [call, if_pos hlength]
      exact ⟨by decide, .inr ⟨_, rfl⟩⟩
  | newException c =>
      rcases hargs with _ | ⟨hv, _ | _⟩
      exact ⟨by simp, conforms_newException c _⟩
  | newDefault c =>
      cases hargs
      exact ⟨by simp, .inr ⟨c, _, rfl, .inr rfl⟩⟩
  | message c =>
      rcases hargs with _ | ⟨hv, _ | _⟩
      exact (safe_exceptionMessage hv).reply (by decide)
  | print hr =>
      rcases hargs with _ | ⟨hv, _ | _⟩
      simp only [List.mem_cons, List.not_mem_nil, or_false] at hr
      rcases hr with rfl | rfl <;> exact rfl
  | writeNewline =>
      cases hargs
      exact rfl

end Scriptlet.Machine
