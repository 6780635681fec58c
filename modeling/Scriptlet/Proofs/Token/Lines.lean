import Scriptlet.Proofs.Token.Lexer
import Scriptlet.Template

namespace Scriptlet

/-!
# Lexing by lines

No lexeme but an open block comment crosses a line break. So a text with a line break in it has the
tokens of what stands before the line break and those of what follows, each where it is in the whole
text; and a scriptlet keeps its tokens inside a template.
-/

open Text (Span byteLength)

/-! ### The same text at another place -/

def Text.Span.moved (n : Nat) (s : Span) : Span :=
  ⟨s.start + n, s.stop + n⟩

def Token.moved (n : Nat) (t : Token) : Token :=
  ⟨t.kind, t.span.moved n⟩

def Diagnostic.moved (n : Nat) (d : Diagnostic) : Diagnostic :=
  { d with span := d.span.moved n }

/-- The result of lexing a text that begins `n` bytes later. -/
def Lexed.moved (n : Nat) (out : Lexed) : Lexed :=
  ⟨out.tokens.map (Token.moved n), out.diagnostics.map (Diagnostic.moved n)⟩

namespace Lexeme

variable (n : Nat) (span : Span)

theorem intToken_moved (value : Nat) (long : Bool) :
    intToken value long (span.moved n) =
      (intToken value long span).map id (List.map (Diagnostic.moved n)) := by
  unfold intToken
  split <;> rfl

theorem literalText_moved (content : List Char) :
    literalText content (span.moved n) =
      (literalText content span).map id (List.map (Diagnostic.moved n)) := by
  unfold literalText
  split
  · rfl
  · next e _ =>
      have hstart : span.start + n + 1 + e.offset = span.start + 1 + e.offset + n := by omega
      have hstop : span.start + 1 + e.offset + n + e.length =
          span.start + 1 + e.offset + e.length + n := by omega
      simp only [Prod.map, id_eq, List.map_cons, List.map_nil, LexError.diagnostic,
        Diagnostic.moved, Span.moved, hstart, hstop]

theorem stringToken_moved (closed : Bool) (text : List Char) :
    stringToken closed text (span.moved n) =
      (stringToken closed text span).map id (List.map (Diagnostic.moved n)) := by
  simp only [stringToken, literalText_moved]
  cases closed <;> rfl

theorem charToken_moved (closed : Bool) (text : List Char) :
    charToken closed text (span.moved n) =
      (charToken closed text span).map id (List.map (Diagnostic.moved n)) := by
  cases closed with
  | false => rfl
  | true =>
      simp only [charToken, literalText_moved, if_true]
      obtain ⟨content, errors⟩ := literalText text.tail.dropLast span
      rcases content with _ | ⟨c, _ | ⟨d, content⟩⟩
      · simp only [Prod.map, id_eq, List.map_append]
        rfl
      · rfl
      · simp only [Prod.map, id_eq, List.map_append]
        rfl

theorem evaluate_moved (p : Pattern) (text : List Char) :
    evaluate p text (span.moved n) =
      (evaluate p text span).map id (List.map (Diagnostic.moved n)) := by
  cases p with
  | blank | real | word | mark _ | unexpected => rfl
  | comment closed => cases closed <;> rfl
  | decimalInt => simp only [evaluate, decimalToken, intToken_moved, Prod.map, id_eq]
  | hexInt => simp only [evaluate, hexToken, intToken_moved, Prod.map, id_eq]
  | string closed => simp only [evaluate, stringToken_moved, Prod.map, id_eq]
  | char closed => simp only [evaluate, charToken_moved, Prod.map, id_eq]

end Lexeme

theorem lexFrom_moved (n offset : Nat) (source : List Char) :
    lexFrom (offset + n) source = (lexFrom offset source).moved n := by
  induction offset, source using lexeme_induction with
  | nil offset =>
      rw [lexFrom_nil, lexFrom_nil]
      rfl
  | cons offset c s ih =>
      have hstop : offset + n + byteLength (Lexeme.front c s) =
          offset + byteLength (Lexeme.front c s) + n := by omega
      have heval := Lexeme.evaluate_moved n ⟨offset, offset + byteLength (Lexeme.front c s)⟩
        (Lexeme.scan c s).1 (Lexeme.front c s)
      rw [lexFrom_cons (hstop.symm) heval, lexFrom_cons rfl rfl, ih]
      simp only [Lexed.moved, List.map_append, Option.toList_map, List.map_map, Prod.map, id_eq]
      rfl

/-! ### Texts behind each other -/

namespace Lexed

/-- No comment is reported as unclosed. -/
def IsClosed (out : Lexed) : Prop :=
  ∀ d ∈ out.diagnostics, d.code ≠ ⟨6⟩

instance (out : Lexed) : Decidable out.IsClosed :=
  inferInstanceAs (Decidable (∀ d ∈ out.diagnostics, d.code ≠ ⟨6⟩))

theorem isClosed_moved_iff {n : Nat} {out : Lexed} : (out.moved n).IsClosed ↔ out.IsClosed := by
  simp [IsClosed, moved, Diagnostic.moved]

/-- The tokens and diagnostics of a text, without its end, and those of what follows. -/
def join (out later : Lexed) : Lexed :=
  ⟨out.tokens.dropLast ++ later.tokens, out.diagnostics ++ later.diagnostics⟩

theorem join_assoc {out later last : Lexed} (h : later.tokens ≠ []) :
    (out.join later).join last = out.join (later.join last) := by
  simp only [join, List.dropLast_append_of_ne_nil h, List.append_assoc]

end Lexed

theorem Lexeme.evaluate_closed {p : Pattern} (hp : p ≠ .comment false) (text : List Char)
    (span : Span) : ∀ d ∈ (Lexeme.evaluate p text span).2, d.code ≠ ⟨6⟩ := by
  by_cases htoken : p.IsToken
  · obtain ⟨r, hr, heval⟩ := Lexeme.evaluate_isToken htoken text span
    rw [heval]
    exact fun d hd => (hr.2 d hd).2
  · cases p with
    | blank => simp [evaluate]
    | comment closed =>
        cases closed with
        | true => simp [evaluate]
        | false => exact absurd rfl hp
    | unexpected => simp [evaluate, LexError.diagnostic, LexError.code]
    | _ => exact absurd trivial htoken

section

variable {c : Char} {s : List Char}

/-- A lexeme that is neither blank nor an unclosed comment contributes the same, whether or not a
line break follows the text. -/
theorem exists_lexFrom_append_break (hc : Lexeme.isSpace c = false)
    (hclosed : (Lexeme.scan c s).1 ≠ .comment false) (offset : Nat) :
    ∃ stop rest tokens diagnostics, rest.length < (c :: s).length ∧
      stop + byteLength rest = offset + byteLength (c :: s) ∧
      (∀ d ∈ diagnostics, d.code ≠ ⟨6⟩) ∧
      lexFrom offset (c :: s) = ⟨tokens ++ (lexFrom stop rest).tokens,
        diagnostics ++ (lexFrom stop rest).diagnostics⟩ ∧
      ∀ t, lexFrom offset (c :: s ++ '\n' :: t) =
        ⟨tokens ++ (lexFrom stop (rest ++ '\n' :: t)).tokens,
          diagnostics ++ (lexFrom stop (rest ++ '\n' :: t)).diagnostics⟩ := by
  refine ⟨offset + byteLength (Lexeme.front c s), Lexeme.rest c s, _, _, Lexeme.length_rest c s,
    ?_, ?_, lexFrom_cons rfl rfl, fun t => ?_⟩
  · rw [Nat.add_assoc, ← Text.byteLength_append, Lexeme.front_append_rest]
  · exact Lexeme.evaluate_closed hclosed _ _
  · have hscan := Lexeme.scan_append_break hc hclosed t
    have hle := Lexeme.scan_le c s
    have hfront : Lexeme.front c (s ++ '\n' :: t) = Lexeme.front c s := by
      rw [Lexeme.front, Lexeme.front, hscan, List.take_append_of_le_length hle]
    have hrest : Lexeme.rest c (s ++ '\n' :: t) = Lexeme.rest c s ++ '\n' :: t := by
      rw [Lexeme.rest, Lexeme.rest, hscan, List.drop_append_of_le_length hle]
    rw [List.cons_append, lexFrom_cons rfl rfl, hfront, hrest, hscan]

/-- An unclosed comment is reported. -/
theorem scan_ne_of_isClosed {offset : Nat} (h : (lexFrom offset (c :: s)).IsClosed) :
    (Lexeme.scan c s).1 ≠ .comment false := by
  intro hp
  rw [lexFrom_unclosed hp] at h
  exact h _ List.mem_cons_self rfl

end

theorem tokens_lexFrom_ne_nil (offset : Nat) (source : List Char) :
    (lexFrom offset source).tokens ≠ [] := by
  obtain ⟨front, htokens, -⟩ := exists_tokens_lexFrom offset source
  rw [htokens]
  simp

/-- A line break separates the tokens in front of it from those behind it. -/
theorem lexFrom_append_break {offset : Nat} {a : List Char} (h : (lexFrom offset a).IsClosed)
    (b : List Char) : lexFrom offset (a ++ '\n' :: b) =
      (lexFrom offset a).join (lexFrom (offset + byteLength a + 1) b) := by
  induction hlength : a.length using Nat.strongRecOn generalizing offset a with
  | ind n ih =>
      subst hlength
      cases a with
      | nil =>
          rw [List.nil_append, lexFrom_blank (by decide), lexFrom_nil]
          rfl
      | cons c s =>
          by_cases hc : Lexeme.isSpace c = true
          · rw [lexFrom_blank hc] at h
            rw [List.cons_append, lexFrom_blank hc, lexFrom_blank hc,
              ih s.length (Nat.lt_succ_self _) h rfl, Text.byteLength_cons, ← Nat.add_assoc]
          · obtain ⟨stop, rest, tokens, diagnostics, hrest, hstop, -, heq, heqBreak⟩ :=
              exists_lexFrom_append_break ((Bool.not_eq_true _).mp hc) (scan_ne_of_isClosed h)
                offset
            rw [heq] at h
            have hclosed : (lexFrom stop rest).IsClosed := fun d hd =>
              h d (List.mem_append_right _ hd)
            rw [heqBreak, heq, ih _ hrest hclosed rfl, hstop]
            simp only [Lexed.join, List.dropLast_append_of_ne_nil (tokens_lexFrom_ne_nil stop rest),
              List.append_assoc]

/-- What is closed with a line behind it that has no slash is closed without that line. -/
theorem isClosed_of_append_break {offset : Nat} {a w : List Char} (hw : '/' ∉ w)
    (h : (lexFrom offset (a ++ '\n' :: w)).IsClosed) : (lexFrom offset a).IsClosed := by
  induction hlength : a.length using Nat.strongRecOn generalizing offset a with
  | ind n ih =>
      subst hlength
      cases a with
      | nil =>
          rw [lexFrom_nil]
          exact fun d hd => absurd hd List.not_mem_nil
      | cons c s =>
          by_cases hc : Lexeme.isSpace c = true
          · rw [List.cons_append, lexFrom_blank hc] at h
            rw [lexFrom_blank hc]
            exact ih s.length (Nat.lt_succ_self _) h rfl
          · have hclosed : (Lexeme.scan c s).1 ≠ .comment false := fun hp =>
              scan_ne_of_isClosed h (Lexeme.scan_append_unclosed hp (by simpa using hw))
            obtain ⟨stop, rest, tokens, diagnostics, hrest, -, hfaults, heq, heqBreak⟩ :=
              exists_lexFrom_append_break ((Bool.not_eq_true _).mp hc) hclosed offset
            rw [heqBreak] at h
            rw [heq]
            intro d hd
            rcases List.mem_append.1 hd with hd | hd
            · exact hfaults d hd
            · exact ih _ hrest (fun d hd => h d (List.mem_append_right _ hd)) rfl d hd

/-- A text without a slash has no comments, so none is open. -/
theorem isClosed_of_slash_notMem {s : List Char} (hs : '/' ∉ s) (offset : Nat) :
    (lexFrom offset s).IsClosed := by
  induction offset, s using lexeme_induction with
  | nil offset =>
      rw [lexFrom_nil]
      exact fun d hd => absurd hd List.not_mem_nil
  | cons offset c s ih =>
      have hclosed : (Lexeme.scan c s).1 ≠ .comment false := fun hp =>
        hs (Lexeme.eq_slash_of_scan hp ▸ List.mem_cons_self)
      have hrest : '/' ∉ Lexeme.rest c s := fun hmem =>
        hs (Lexeme.front_append_rest c s ▸ List.mem_append_right _ hmem)
      rw [lexFrom_cons rfl rfl]
      intro d hd
      rcases List.mem_append.1 hd with hd | hd
      · exact Lexeme.evaluate_closed hclosed _ _ d hd
      · exact ih hrest d hd

/-! ### Scriptlets in templates -/

theorem Template.exists_opening (t : Template) :
    ∃ head, t.opening.toList = head ++ ['\n', '\t'] := by
  refine ⟨(String.join (t.imports.map importLine) ++ "public class ").toList ++
    (t.container.toList ++ " \x7b".toList), ?_⟩
  simp only [opening, String.toList_append, List.append_assoc]
  rfl

/-- The opening of a template leaves no comment open if its names have no slash in them. -/
theorem Template.isClosed_opening {t : Template} (hcontainer : '/' ∉ t.container.toList)
    (himports : ∀ name ∈ t.imports, '/' ∉ name.toList) : (lex t.opening.toList).IsClosed := by
  have hline : ∀ name ∈ t.imports, '/' ∉ (importLine name).toList := by
    intro name hname
    simp only [importLine, String.toList_append, List.mem_append, not_or]
    exact ⟨⟨by decide, himports name hname⟩, by decide⟩
  have hlines : '/' ∉ (t.imports.map importLine).flatMap String.toList := by
    simp only [List.mem_flatMap, List.mem_map, not_exists, not_and]
    rintro _ ⟨name, hname, rfl⟩
    exact hline name hname
  refine isClosed_of_slash_notMem ?_ 0
  simp only [opening, String.toList_append, String.toList_join, List.mem_append, not_or]
  exact ⟨⟨⟨hlines, by decide⟩, hcontainer⟩, by decide⟩

theorem lex_moved (n : Nat) (source : List Char) : (lex source).moved n = lexFrom n source := by
  rw [lex, ← lexFrom_moved, Nat.zero_add]

/-- A scriptlet keeps its tokens inside a template. -/
theorem lex_wrap {t : Template} {body : String} (hopening : (lex t.opening.toList).IsClosed)
    (hbody : (lex body.toList).IsClosed) :
    lex (t.wrap body).text.toList =
      ((lex t.opening.toList).join ((lex body.toList).moved (t.wrap body).bodyOffset)).join
        ((lex Template.closing.toList).moved
          ((t.wrap body).bodyOffset + byteLength body.toList)) := by
  obtain ⟨head, hhead⟩ := t.exists_opening
  have htext : (t.wrap body).text.toList =
      head ++ '\n' :: '\t' :: (body.toList ++ '\n' :: ['\x7d']) := by
    simp only [Template.wrap, String.toList_append, hhead, List.append_assoc]
    rfl
  have hoffset : (t.wrap body).bodyOffset = 0 + byteLength head + 1 + '\t'.utf8Size := by
    simp only [Template.wrap, hhead, Text.byteLength_append, Nat.zero_add]
    rfl
  generalize (t.wrap body).bodyOffset = n at hoffset ⊢
  have hhead' : (lexFrom 0 head).IsClosed := by
    rw [lex, hhead] at hopening
    exact isClosed_of_append_break (w := ['\t']) (by decide) hopening
  have hbody' : (lexFrom n body.toList).IsClosed := by
    rwa [← lex_moved, Lexed.isClosed_moved_iff]
  have hlast : (lex t.opening.toList).join (lexFrom n body.toList) =
      (lexFrom 0 head).join (lexFrom n body.toList) := by
    rw [lex, hhead, lexFrom_append_break hhead', lexFrom_blank (by decide), ← hoffset, lexFrom_nil,
      Lexed.join_assoc (List.cons_ne_nil _ _)]
    rfl
  have hclosing : (lex Template.closing.toList).moved (n + byteLength body.toList) =
      lexFrom (n + byteLength body.toList + 1) ['\x7d'] := by
    rw [lex_moved]
    exact lexFrom_blank (by decide) _ _
  calc
    lex (t.wrap body).text.toList =
        (lexFrom 0 head).join (lexFrom n (body.toList ++ '\n' :: ['\x7d'])) := by
      rw [lex, htext, lexFrom_append_break hhead', lexFrom_blank (by decide), ← hoffset]
    _ = (lexFrom 0 head).join ((lexFrom n body.toList).join
          (lexFrom (n + byteLength body.toList + 1) ['\x7d'])) := by
      rw [lexFrom_append_break hbody']
    _ = ((lexFrom 0 head).join (lexFrom n body.toList)).join
          (lexFrom (n + byteLength body.toList + 1) ['\x7d']) :=
      (Lexed.join_assoc (tokens_lexFrom_ne_nil n body.toList)).symm
    _ = _ := by rw [← hlast, ← hclosing, lex_moved n]

/-- The tokens of a text with a line break in it are those of what stands before, without its end,
and those of what follows, each where it is in the whole text, as long as no comment is open at the
line break; the same holds of diagnostics. So the tokens of a scriptlet in a template are those of
the template around its own. -/
theorem lex_by_lines :
    (∀ a b : List Char, (lex a).IsClosed →
      (lex a).tokens = (lex a).tokens.dropLast ++ [⟨.eof, .point (byteLength a)⟩] ∧
        lex (a ++ '\n' :: b) = ⟨(lex a).tokens.dropLast ++
            (lex b).tokens.map (Token.moved (byteLength a + 1)),
          (lex a).diagnostics ++ (lex b).diagnostics.map (Diagnostic.moved (byteLength a + 1))⟩) ∧
      ∀ (t : Template) (body : String), (lex t.opening.toList).IsClosed →
        (lex body.toList).IsClosed → lex (t.wrap body).text.toList =
          ((lex t.opening.toList).join ((lex body.toList).moved (t.wrap body).bodyOffset)).join
            ((lex Template.closing.toList).moved
              ((t.wrap body).bodyOffset + byteLength body.toList)) := by
  refine ⟨fun a b ha => ⟨?_, ?_⟩, fun t body => lex_wrap⟩
  · obtain ⟨front, htokens, -⟩ := exists_tokens_lexFrom 0 a
    rw [lex, htokens, List.dropLast_concat, Nat.zero_add]
  · have hb : lexFrom (0 + byteLength a + 1) b = (lex b).moved (byteLength a + 1) := by
      rw [lex_moved, Nat.zero_add]
    rw [lex, lexFrom_append_break ha, hb]
    rfl

/-- A text that ends inside a literal with a lone backslash, before one with an open comment, and a
scriptlet that ends with a comment. -/
theorem lex_by_lines_backslash :
    lex ("x = \"\\".toList ++ '\n' :: "y /*".toList) =
        ⟨(lex "x = \"\\".toList).tokens.dropLast ++ (lex "y /*".toList).tokens.map (Token.moved 7),
          (lex "x = \"\\".toList).diagnostics ++
            (lex "y /*".toList).diagnostics.map (Diagnostic.moved 7)⟩ ∧
      lex (Template.standard.wrap "int F() \x7b return 1; \x7d // one").text.toList =
        ((lex Template.standard.opening.toList).join
          ((lex "int F() \x7b return 1; \x7d // one".toList).moved 68)).join
            ((lex Template.closing.toList).moved 96) :=
  ⟨(lex_by_lines.1 "x = \"\\".toList "y /*".toList (by decide +kernel)).2,
    lex_by_lines.2 Template.standard "int F() \x7b return 1; \x7d // one"
      (Template.isClosed_opening (by decide) (by decide)) (by decide +kernel)⟩

end Scriptlet
