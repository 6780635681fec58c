import Scriptlet.Proofs.Token.Escape

namespace Scriptlet

/-!
# Quoted texts

Every text can be written between quotes: each character as itself, unless it is a backslash, the
quote or the end of a line, or by an escape sequence. What is written like this is read as one
literal of the text.
-/

open Text (Content EscapeLetter Escapes FourDigits SignedDigits byteLength)

/-- How a character is written between quotes: as itself, by its letter or by its code. -/
inductive Quotes (quote : Char) : List Char → Char → Prop
  | plain {c : Char} (hc : c ≠ '\\' ∧ c ≠ quote ∧ c ≠ '\n' ∧ c ≠ '\r') : Quotes quote [c] c
  | letter {e c : Char} (h : EscapeLetter e c) : Quotes quote ['\\', e] c
  | code {ds : List Char} {c : Char} (h : FourDigits ds c.toNat) :
      Quotes quote ('\\' :: 'u' :: ds) c

/-- How a text is written between quotes, each character in a way of its own. -/
inductive Quotation (quote : Char) : List Char → List Char → Prop
  | nil : Quotation quote [] []
  | cons {w s t : List Char} {c : Char} (hw : Quotes quote w c) (h : Quotation quote s t) :
      Quotation quote (w ++ s) (c :: t)

/-- The quotes of texts and of characters. -/
def IsQuote (quote : Char) : Prop :=
  quote = '"' ∨ quote = '\''

section

variable {quote c : Char} {s t w ds : List Char}

theorem Quotes.single (h : Quotes quote w c) : Quotation quote w [c] :=
  List.append_nil w ▸ .cons h .nil

theorem exists_quotes (hquote : IsQuote quote) (c : Char) : ∃ w, Quotes quote w c := by
  by_cases hc : c ≠ '\\' ∧ c ≠ quote ∧ c ≠ '\n' ∧ c ≠ '\r'
  · exact ⟨[c], .plain hc⟩
  suffices hletter : ∃ e, EscapeLetter e c by
    obtain ⟨e, he⟩ := hletter
    exact ⟨_, .letter he⟩
  simp only [ne_eq, not_and_or, not_not] at hc
  obtain rfl | rfl | rfl | rfl := hc
  · exact ⟨_, .backslash⟩
  · obtain rfl | rfl := hquote
    · exact ⟨_, .quote⟩
    · exact ⟨_, .apostrophe⟩
  · exact ⟨_, .newline⟩
  · exact ⟨_, .carriageReturn⟩

theorem exists_quotation (hquote : IsQuote quote) (t : List Char) : ∃ w, Quotation quote w t := by
  induction t with
  | nil => exact ⟨[], .nil⟩
  | cons c t ih =>
      obtain ⟨w, hw⟩ := exists_quotes hquote c
      obtain ⟨s, hs⟩ := ih
      exact ⟨w ++ s, .cons hw hs⟩

/-- A quotation denotes its text. -/
theorem Quotation.content (h : Quotation quote s t) : Content SignedDigits s t := by
  induction h with
  | nil => exact .nil
  | cons hw _ ih =>
      cases hw with
      | plain hc => exact .plain hc.1 ih
      | letter he => exact .escape (.letter he) ih
      | code hds => exact .escape (.code (.inl hds)) ih

namespace Lexeme

/-! ### Where a quotation ends -/

theorem content_plain (hc : c ≠ '\\' ∧ c ≠ quote ∧ c ≠ '\n' ∧ c ≠ '\r') (s : List Char) :
    content quote (c :: s) = 1 + content quote s := by
  obtain ⟨hbackslash, hquote, hnewline, hreturn⟩ := hc
  cases s <;> simp [content, hbackslash, hquote, hnewline, hreturn]

theorem content_pair (hquote : IsQuote quote) (hc : c ≠ '\n') (s : List Char) :
    content quote ('\\' :: c :: s) = 2 + content quote s := by
  obtain rfl | rfl := hquote <;> simp [content, hc]

theorem content_code (hquote : IsQuote quote) {n : ℕ} (hds : FourDigits ds n) (s : List Char) :
    content quote (ds ++ s) = ds.length + content quote s := by
  obtain ⟨-, vs, hvs, -⟩ := hds
  clear n
  induction hvs with
  | nil => simp
  | @cons v c _ ds hv _ ih =>
      have hplain : c ≠ '\\' ∧ c ≠ quote ∧ c ≠ '\n' ∧ c ≠ '\r' := by
        obtain rfl | rfl := hquote
        · exact hv.all (p := fun _ c => c ≠ '\\' ∧ c ≠ '"' ∧ c ≠ '\n' ∧ c ≠ '\r') (by decide)
        · exact hv.all (p := fun _ c => c ≠ '\\' ∧ c ≠ '\'' ∧ c ≠ '\n' ∧ c ≠ '\r') (by decide)
      rw [List.cons_append, content_plain hplain, ih, List.length_cons]
      omega

theorem content_quotes (hquote : IsQuote quote) (h : Quotes quote w c) (s : List Char) :
    content quote (w ++ s) = w.length + content quote s := by
  cases h with
  | plain hc => exact content_plain hc s
  | letter he =>
      have hne : ∀ e, EscapeLetter e c → e ≠ '\n' := by
        intro e he
        cases he <;> decide
      exact content_pair hquote (hne _ he) s
  | code hds =>
      rw [List.cons_append, List.cons_append, content_pair hquote (by decide),
        content_code hquote hds, List.length_cons, List.length_cons]
      omega

/-- A quotation goes up to the quote behind it. -/
theorem content_quotation (hquote : IsQuote quote) (h : Quotation quote w t) :
    content quote (w ++ [quote]) = w.length := by
  induction h with
  | nil => obtain rfl | rfl := hquote <;> rfl
  | cons hw _ ih =>
      rw [List.append_assoc, content_quotes hquote hw, ih, List.length_append]

theorem quoted_quotation (hquote : IsQuote quote) (h : Quotation quote w t) :
    quoted quote (w ++ [quote]) = (true, w.length + 1) := by
  rw [quoted, content_quotation hquote h]
  exact if_pos (congrArg List.head? List.drop_left)

theorem literalText_quotation (h : Quotation quote w t) (span : Text.Span) :
    literalText w span = (t, []) := by
  rw [literalText, Text.unescape_of_content h.content]

/-- A text between quotes is one lexeme. -/
theorem scan_quotation (hquote : IsQuote quote) (h : Quotation quote w t) :
    scan quote (w ++ [quote]) =
      (if quote = '"' then .string true else .char true, w.length + 1) := by
  have hquoted := quoted_quotation hquote h
  obtain rfl | rfl := hquote
  · exact congrArg (fun q : Bool × ℕ => (Pattern.string q.1, q.2)) hquoted
  · exact congrArg (fun q : Bool × ℕ => (Pattern.char q.1, q.2)) hquoted

theorem front_quotation (hquote : IsQuote quote) (h : Quotation quote w t) :
    front quote (w ++ [quote]) = quote :: (w ++ [quote]) := by
  rw [front, scan_quotation hquote h, List.take_of_length_le (by simp)]

theorem evaluate_text {s : String} (h : Quotation '"' w s.toList) (span : Text.Span) :
    evaluate (scan '"' (w ++ ['"'])).1 ('"' :: (w ++ ['"'])) span = (some (.string s), []) := by
  rw [scan_quotation (.inl rfl) h, if_pos rfl, evaluate, stringToken]
  simp only [List.tail_cons, List.dropLast_concat, literalText_quotation h, if_true,
    String.ofList_toList]
  rfl

theorem evaluate_character (h : Quotes '\'' w c) (span : Text.Span) :
    evaluate (scan '\'' (w ++ ['\''])).1 ('\'' :: (w ++ ['\''])) span =
      (some (.char c), []) := by
  rw [scan_quotation (.inr rfl) h.single, if_neg (by decide), evaluate, charToken]
  simp only [List.tail_cons, List.dropLast_concat, literalText_quotation h.single, if_true]
  rfl

end Lexeme

end

/-- Every text can be written between double quotes, and every character between single ones. What
is written like this is one token of the text or of the character, and nothing is wrong with it. -/
theorem lex_quotation (s : String) (c : Char) :
    (∃ w, Quotation '"' w s.toList) ∧
      (∀ w, Quotation '"' w s.toList → lex ('"' :: (w ++ ['"'])) =
        ⟨[⟨.string s, ⟨0, byteLength ('"' :: (w ++ ['"']))⟩⟩,
          ⟨.eof, .point (byteLength ('"' :: (w ++ ['"'])))⟩], []⟩) ∧
      (∃ w, Quotes '\'' w c) ∧
      ∀ w, Quotes '\'' w c → lex ('\'' :: (w ++ ['\''])) =
        ⟨[⟨.char c, ⟨0, byteLength ('\'' :: (w ++ ['\'']))⟩⟩,
          ⟨.eof, .point (byteLength ('\'' :: (w ++ ['\''])))⟩], []⟩ := by
  refine ⟨exists_quotation (.inl rfl) _, fun w hw => ?_, exists_quotes (.inr rfl) c, fun w hw => ?_⟩
  · have hfront := Lexeme.front_quotation (.inl rfl) hw
    have hlex := lexFrom_whole hfront 0 (Lexeme.evaluate_text hw _)
    rw [Nat.zero_add] at hlex
    exact hlex
  · have hfront := Lexeme.front_quotation (.inr rfl) hw.single
    have hlex := lexFrom_whole hfront 0 (Lexeme.evaluate_character hw _)
    rw [Nat.zero_add] at hlex
    exact hlex

end Scriptlet
