import Scriptlet.Proofs.Token.Lexeme
import Scriptlet.Token.Lexer

namespace Scriptlet

/-!
# What a lexeme contributes

The tokens and diagnostics of a text are those of its first lexeme and those of the rest. They do
not depend on where the text begins: a text that begins at another offset has the same ones, moved
by as much.
-/

open Text (Span byteLength)

/-! ### One lexeme after another -/

theorem lexFrom_nil (offset : Nat) : lexFrom offset [] = ⟨[⟨.eof, .point offset⟩], []⟩ := by
  rw [lexFrom]

/-- The lexeme at the front of a text. -/
def Lexeme.front (c : Char) (s : List Char) : List Char :=
  c :: s.take (Lexeme.scan c s).2

/-- What is left of a text behind its first lexeme. -/
def Lexeme.rest (c : Char) (s : List Char) : List Char :=
  s.drop (Lexeme.scan c s).2

theorem Lexeme.front_append_rest (c : Char) (s : List Char) :
    Lexeme.front c s ++ Lexeme.rest c s = c :: s := by
  rw [front, rest, List.cons_append, List.take_append_drop]

theorem Lexeme.length_rest (c : Char) (s : List Char) :
    (Lexeme.rest c s).length < (c :: s).length := by
  rw [rest, List.length_drop, List.length_cons]
  omega

/-- Induction on a text, from one lexeme to the next. -/
theorem lexeme_induction {motive : Nat → List Char → Prop} (nil : ∀ offset, motive offset [])
    (cons : ∀ offset c s, motive (offset + byteLength (Lexeme.front c s)) (Lexeme.rest c s) →
      motive offset (c :: s)) (offset : Nat) (source : List Char) : motive offset source := by
  induction hlength : source.length using Nat.strongRecOn generalizing offset source with
  | ind _ ih =>
      subst hlength
      cases source with
      | nil => exact nil offset
      | cons c s => exact cons offset c s (ih _ (Lexeme.length_rest c s) _ _ rfl)

theorem lexFrom_cons {offset stop : Nat} {c : Char} {s : List Char} {kind : Option TokenKind}
    {errors : List Diagnostic} (hstop : stop = offset + byteLength (Lexeme.front c s))
    (h : Lexeme.evaluate (Lexeme.scan c s).1 (Lexeme.front c s) ⟨offset, stop⟩ = (kind, errors)) :
    lexFrom offset (c :: s) =
      ⟨(kind.map fun k => ⟨k, ⟨offset, stop⟩⟩).toList ++ (lexFrom stop (Lexeme.rest c s)).tokens,
        errors ++ (lexFrom stop (Lexeme.rest c s)).diagnostics⟩ := by
  subst hstop
  rw [lexFrom]
  unfold Lexeme.front at h
  simp only [h, Lexeme.front, Lexeme.rest]

/-- A text that is one lexeme with a token. -/
theorem lexFrom_whole {c : Char} {s : List Char} {kind : TokenKind} {errors : List Diagnostic}
    (hfront : Lexeme.front c s = c :: s) (offset : Nat)
    (h : Lexeme.evaluate (Lexeme.scan c s).1 (c :: s) ⟨offset, offset + byteLength (c :: s)⟩ =
      (some kind, errors)) :
    lexFrom offset (c :: s) =
      ⟨[⟨kind, ⟨offset, offset + byteLength (c :: s)⟩⟩,
        ⟨.eof, .point (offset + byteLength (c :: s))⟩], errors⟩ := by
  have hrest : Lexeme.rest c s = [] := by
    have hsplit := Lexeme.front_append_rest c s
    rwa [hfront, List.append_right_eq_self] at hsplit
  rw [← hfront] at h
  rw [lexFrom_cons rfl h, hrest, hfront, lexFrom_nil, List.append_nil]
  rfl

theorem Lexeme.take_runLength (p : Char → Bool) (s : List Char) :
    s.take (Lexeme.runLength p s) = s.takeWhile p :=
  (List.prefix_iff_eq_take.1 (List.takeWhile_prefix p)).symm

theorem Lexeme.drop_runLength (p : Char → Bool) (s : List Char) :
    s.drop (Lexeme.runLength p s) = s.dropWhile p := by
  have hdrop := @List.drop_left _ (s.takeWhile p) (s.dropWhile p)
  rwa [List.takeWhile_append_dropWhile] at hdrop

/-- A blank contributes nothing. -/
theorem lexFrom_blank {c : Char} (hc : Lexeme.isSpace c = true) (offset : Nat) (s : List Char) :
    lexFrom offset (c :: s) = lexFrom (offset + c.utf8Size) s := by
  have hblanks : ∀ {c : Char} {offset : Nat} {s : List Char}, Lexeme.isSpace c = true →
      lexFrom offset (c :: s) =
        lexFrom (offset + byteLength (c :: s.takeWhile Lexeme.isSpace))
          (s.dropWhile Lexeme.isSpace) := by
    intro c offset s hc
    have hscan := Lexeme.scan_blank (s := s) hc
    have hnone : Lexeme.evaluate (Lexeme.scan c s).1 (Lexeme.front c s)
        ⟨offset, offset + byteLength (Lexeme.front c s)⟩ = (none, []) := by
      rw [hscan]
      rfl
    rw [lexFrom_cons rfl hnone]
    simp only [Lexeme.front, Lexeme.rest, hscan, Lexeme.take_runLength, Lexeme.drop_runLength,
      Option.map_none, Option.toList_none, List.nil_append]
  rw [hblanks hc]
  cases s with
  | nil => simp
  | cons d s =>
      by_cases hd : Lexeme.isSpace d = true
      · rw [hblanks hd]
        simp [hd, Nat.add_assoc]
      · simp [hd]

/-! ### What it contributes -/

section

variable {c : Char} {s : List Char}

theorem lexFrom_closed (h : (Lexeme.scan c s).1 = .comment true) (offset : Nat) :
    lexFrom offset (c :: s) =
      lexFrom (offset + byteLength (Lexeme.front c s)) (Lexeme.rest c s) := by
  have heval : Lexeme.evaluate (Lexeme.scan c s).1 (Lexeme.front c s)
      ⟨offset, offset + byteLength (Lexeme.front c s)⟩ = (none, []) := by
    rw [h]
    rfl
  rw [lexFrom_cons rfl heval]
  rfl

theorem lexFrom_unclosed (h : (Lexeme.scan c s).1 = .comment false) (offset : Nat) :
    lexFrom offset (c :: s) =
      ⟨(lexFrom (offset + byteLength (Lexeme.front c s)) (Lexeme.rest c s)).tokens,
        LexError.unclosedComment.diagnostic
            ⟨offset, offset + byteLength (Lexeme.front c s)⟩ ::
          (lexFrom (offset + byteLength (Lexeme.front c s)) (Lexeme.rest c s)).diagnostics⟩ := by
  have heval : Lexeme.evaluate (Lexeme.scan c s).1 (Lexeme.front c s)
      ⟨offset, offset + byteLength (Lexeme.front c s)⟩ =
        (none, [LexError.unclosedComment.diagnostic
          ⟨offset, offset + byteLength (Lexeme.front c s)⟩]) := by
    rw [h]
    rfl
  rw [lexFrom_cons rfl heval]
  rfl

theorem lexFrom_unexpected (h : (Lexeme.scan c s).1 = .unexpected) (offset : Nat) :
    lexFrom offset (c :: s) =
      ⟨(lexFrom (offset + byteLength (Lexeme.front c s)) (Lexeme.rest c s)).tokens,
        (LexError.unexpected c).diagnostic ⟨offset, offset + byteLength (Lexeme.front c s)⟩ ::
          (lexFrom (offset + byteLength (Lexeme.front c s)) (Lexeme.rest c s)).diagnostics⟩ := by
  have heval : Lexeme.evaluate (Lexeme.scan c s).1 (Lexeme.front c s)
      ⟨offset, offset + byteLength (Lexeme.front c s)⟩ =
        (none, [(LexError.unexpected c).diagnostic
          ⟨offset, offset + byteLength (Lexeme.front c s)⟩]) := by
    rw [h]
    rfl
  rw [lexFrom_cons rfl heval]
  rfl

end

/-- A lexeme that becomes a token, faulty or not. -/
def Pattern.IsToken : Pattern → Prop
  | .blank | .comment _ | .unexpected => False
  | _ => True

namespace Lexeme

/-- A token, which does not mark the end of the text, with faults of a literal: none of them is an
unexpected character or an unclosed comment. -/
def IsReading (x : TokenKind × List Diagnostic) : Prop :=
  x.1 ≠ .eof ∧ ∀ d ∈ x.2, d.code ≠ ⟨2⟩ ∧ d.code ≠ ⟨6⟩

theorem isReading_intToken (value : Nat) (long : Bool) (span : Span) :
    IsReading (intToken value long span) := by
  unfold intToken
  split <;> simp [IsReading, LexError.diagnostic, LexError.code]

theorem literalText_faults {content : List Char} {span : Span} {d : Diagnostic}
    (hd : d ∈ (literalText content span).2) : d.code = ⟨5⟩ := by
  unfold literalText at hd
  split at hd
  · cases hd
  · rw [List.mem_singleton.1 hd]
    rfl

theorem isReading_stringToken (closed : Bool) (text : List Char) (span : Span) :
    IsReading (stringToken closed text span) := by
  refine ⟨?_, fun d hd => ?_⟩
  · unfold stringToken
    cases closed <;> simp
  · have hcode : d.code = ⟨1⟩ ∨ d.code = ⟨5⟩ := by
      unfold stringToken at hd
      cases closed with
      | true => exact .inr (literalText_faults hd)
      | false =>
          rcases List.mem_cons.1 hd with rfl | hd
          · exact .inl rfl
          · exact .inr (literalText_faults hd)
    rcases hcode with hcode | hcode <;> simp [hcode]

theorem isReading_charToken (closed : Bool) (text : List Char) (span : Span) :
    IsReading (charToken closed text span) := by
  refine ⟨?_, fun d hd => ?_⟩
  · unfold charToken
    repeat' split
    all_goals simp
  · have hcode : d.code = ⟨4⟩ ∨ d.code = ⟨5⟩ := by
      unfold charToken at hd
      cases closed with
      | false =>
          rw [List.mem_singleton.1 hd]
          exact .inl rfl
      | true =>
          rw [if_pos rfl] at hd
          dsimp only at hd
          split at hd
          · exact .inr (literalText_faults hd)
          all_goals
            rcases List.mem_append.1 hd with hd | hd
            · exact .inr (literalText_faults hd)
            · rw [List.mem_singleton.1 hd]
              exact .inl rfl
    rcases hcode with hcode | hcode <;> simp [hcode]

theorem evaluate_isToken {p : Pattern} (hp : p.IsToken) (text : List Char) (span : Span) :
    ∃ x, IsReading x ∧ evaluate p text span = (some x.1, x.2) := by
  cases p with
  | blank | comment _ | unexpected => exact hp.elim
  | decimalInt => exact ⟨_, isReading_intToken _ _ span, rfl⟩
  | hexInt => exact ⟨_, isReading_intToken _ _ span, rfl⟩
  | real =>
      refine ⟨(realToken text, []), ⟨?_, by simp⟩, rfl⟩
      simp [realToken]
  | string closed => exact ⟨_, isReading_stringToken closed text span, rfl⟩
  | char closed => exact ⟨_, isReading_charToken closed text span, rfl⟩
  | word =>
      refine ⟨(wordToken text, []), ⟨?_, by simp⟩, rfl⟩
      unfold wordToken
      dsimp only
      split <;> simp
  | mark m => exact ⟨(.mark m, []), ⟨by simp, by simp⟩, rfl⟩

end Lexeme

theorem exists_lexFrom_token {c : Char} {s : List Char} (h : (Lexeme.scan c s).1.IsToken)
    (offset : Nat) : ∃ r, Lexeme.IsReading r ∧ lexFrom offset (c :: s) =
      ⟨⟨r.1, ⟨offset, offset + byteLength (Lexeme.front c s)⟩⟩ ::
          (lexFrom (offset + byteLength (Lexeme.front c s)) (Lexeme.rest c s)).tokens,
        r.2 ++
          (lexFrom (offset + byteLength (Lexeme.front c s)) (Lexeme.rest c s)).diagnostics⟩ := by
  obtain ⟨r, hr, heval⟩ := Lexeme.evaluate_isToken h (Lexeme.front c s)
    ⟨offset, offset + byteLength (Lexeme.front c s)⟩
  exact ⟨r, hr, by rw [lexFrom_cons rfl heval]; rfl⟩

theorem Lexeme.evaluate_ne_eof (p : Pattern) (text : List Char) (span : Span) :
    (Lexeme.evaluate p text span).1 ≠ some .eof := by
  by_cases hp : p.IsToken
  · obtain ⟨r, hr, heval⟩ := Lexeme.evaluate_isToken hp text span
    rw [heval]
    exact fun h => hr.1 (Option.some.inj h)
  · cases p with
    | blank => simp [evaluate]
    | comment closed => cases closed <;> simp [evaluate]
    | unexpected => simp [evaluate]
    | _ => exact absurd trivial hp

/-- The last token is the only one that marks the end, and it stands there. -/
theorem exists_tokens_lexFrom (offset : Nat) (source : List Char) :
    ∃ front, (lexFrom offset source).tokens =
        front ++ [⟨.eof, .point (offset + byteLength source)⟩] ∧
      ∀ t ∈ front, t.kind ≠ .eof := by
  induction offset, source using lexeme_induction with
  | nil offset => exact ⟨[], by rw [lexFrom_nil]; rfl, by simp⟩
  | cons offset c s ih =>
      obtain ⟨front, htokens, hfront⟩ := ih
      rw [Nat.add_assoc, ← Text.byteLength_append, Lexeme.front_append_rest] at htokens
      rw [lexFrom_cons rfl rfl, htokens, ← List.append_assoc]
      refine ⟨_, rfl, fun t ht => ?_⟩
      rcases List.mem_append.1 ht with ht | ht
      · intro hend
        obtain ⟨k, hk, rfl⟩ := Option.map_eq_some_iff.1 (Option.mem_toList.1 ht)
        dsimp only at hend
        subst hend
        exact Lexeme.evaluate_ne_eof _ _ _ hk
      · exact hfront t ht

/-- The tokens of a whole text end where it ends. -/
theorem exists_tokens_lex (source : List Char) :
    ∃ front, (lex source).tokens = front ++ [⟨.eof, .point (byteLength source)⟩] ∧
      ∀ t ∈ front, t.kind ≠ .eof := by
  obtain ⟨front, htokens, hfront⟩ := exists_tokens_lexFrom 0 source
  rw [Nat.zero_add] at htokens
  exact ⟨front, htokens, hfront⟩

end Scriptlet
