import Scriptlet.Proofs.Parser.Progress

namespace Scriptlet.Parser

/-!
# Recovery

A pair of braces is read as a whole, whatever is wrong between them. So what follows a body is read as
if the body had been right.
-/

open Text (Span)

/-! ### Pairs of braces -/

/-- A state in front of a pair of braces and what follows it. -/
def State.AtPair (s : State) (right : Token) (rest : List Token) : Prop :=
  ∃ left inner, s.rest = left :: (inner ++ right :: rest) ∧ left.kind = .mark .leftBrace ∧
    right.kind = .mark .rightBrace ∧ openBraces 0 inner = some 0 ∧
      ∀ token ∈ inner, token.kind ≠ .eof

section

variable {s t u : State} {right right' : Token} {rest rest' inner read more : List Token}

/-- Nothing that is in balance goes on behind a brace that closes none of its own. -/
theorem openBraces_closed (hinner : openBraces 0 inner = some 0)
    (hright : right.kind = .mark .rightBrace) : openBraces 0 (inner ++ right :: more) = none := by
  rw [openBraces_append, hinner, Option.bind_some]
  exact openBraces_right_zero hright

/-- There is one closing brace. -/
theorem eq_of_closed (hinner : openBraces 0 inner = some 0) (hread : openBraces 0 read = some 0)
    (hright : right.kind = .mark .rightBrace) (hright' : right'.kind = .mark .rightBrace)
    (h : inner ++ right :: rest = read ++ right' :: rest') :
    inner = read ∧ right = right' ∧ rest = rest' := by
  obtain ⟨more, rfl, hmore⟩ | ⟨more, rfl, hmore⟩ := List.append_eq_append_iff.1 h
  · cases more with
    | nil =>
        obtain ⟨rfl, rfl⟩ := List.cons.inj hmore
        exact ⟨(List.append_nil _).symm, rfl, rfl⟩
    | cons token more =>
        obtain ⟨rfl, -⟩ := List.cons.inj hmore
        rw [openBraces_closed hinner hright] at hread
        cases hread
  · cases more with
    | nil =>
        obtain ⟨rfl, rfl⟩ := List.cons.inj hmore
        exact ⟨List.append_nil _, rfl, rfl⟩
    | cons token more =>
        obtain ⟨rfl, -⟩ := List.cons.inj hmore
        rw [openBraces_closed hread hright'] at hinner
        cases hinner

/-- In front of a closing brace there is no end to come to. -/
theorem Closes.leaves (h : Closes s t) (hrest : s.rest = inner ++ right :: rest)
    (hright : right.kind = .mark .rightBrace) (hopen : openBraces 0 inner = some 0)
    (hinner : ∀ token ∈ inner, token.kind ≠ .eof) :
    t.rest = rest ∧ t.previous = some right.span := by
  have hnot_end (u : State) (hu : u.rest = right :: rest) : u.kind ≠ .eof := by
    rw [kind_of_rest hu, hright]
    exact TokenKind.noConfusion
  obtain ⟨read, depth, hread, ⟨rfl, right', hright', hcrosses⟩ | ⟨hend, hcrosses⟩⟩ := h
  · have hsame := hrest.symm.trans hcrosses.rest
    rw [List.append_assoc] at hsame
    obtain ⟨rfl, rfl, rfl⟩ := eq_of_closed hopen hread hright hright' hsame
    refine ⟨rfl, ?_⟩
    rw [hcrosses.previous, List.getLast?_concat]
    rfl
  · have hsame := hrest.symm.trans hcrosses.rest
    obtain ⟨more, rfl, hmore⟩ | ⟨more, rfl, hmore⟩ := List.append_eq_append_iff.1 hsame
    · cases more with
      | nil => exact absurd hend (hnot_end t hmore.symm)
      | cons token more =>
          obtain ⟨rfl, -⟩ := List.cons.inj hmore
          rw [openBraces_closed hopen hright] at hread
          cases hread
    · cases more with
      | nil => exact absurd hend (hnot_end t hmore)
      | cons token more =>
          rw [kind_of_rest hmore] at hend
          exact absurd hend (hinner token (List.mem_append_right _ List.mem_cons_self))

theorem Encloses.leaves (h : Encloses s t) (hpair : s.AtPair right rest) :
    t.rest = rest ∧ t.previous = some right.span := by
  obtain ⟨left, inner, hrest, hleft, hright, hopen, hinner⟩ := hpair
  obtain ⟨hkind, hcloses⟩ := h
  refine hcloses.leaves ?_ hright hopen hinner
  obtain ⟨token, hcrosses⟩ := Crosses.advance hkind TokenKind.noConfusion
  have hsame := hrest.symm.trans hcrosses.2.rest
  exact (List.cons.inj hsame).2.symm

/-- A loop that never fails in front of a closing brace reads what a pair of braces holds. -/
theorem exists_reads_enclosed {α : Type} {many : Parser (List α)} (hpair : s.AtPair right rest)
    (hmany : ∀ t, t.rest.length < s.rest.length →
      Outcome True True many many t (fun _ u => u.atClose = true) ∧ Total many t) :
    ∃ as t, Reads (enclosed many) s as t ∧ t.rest = rest ∧ t.previous = some right.span := by
  have houtcome : Outcome True True (enclosed many) (enclosed many) s
      fun _ t => t.rest.length < s.rest.length ∧ (True → Encloses s t) := .enclosed id hmany
  rcases hrun : (enclosed many).run.run s with ⟨f | as, t⟩
  · have hleft : s.kind = .mark .leftBrace := by
      obtain ⟨left, inner, hrest, hleft, -⟩ := hpair
      rw [kind_of_rest hrest, hleft]
    have htotal : Total many s.advance :=
      (hmany s.advance (length_advance_lt hleft TokenKind.noConfusion)).2
    have herror := (houtcome.fails hrun).2.2 trivial
    rw [run_enclosed many hleft] at hrun
    exact absurd (total_closing htotal hrun) herror
  · exact ⟨as, t, hrun, ((houtcome.reads hrun).2.2 trivial).leaves hpair⟩

end

/-! ### Blocks, classes and methods -/

section

variable {n : Nat} {s t u : State} {right : Token} {rest : List Token}

theorem exists_block (hn : 8 * s.rest.length < n) (hpair : s.AtPair right rest) :
    ∃ b t, Reads (block n) s b t ∧ t.rest = rest ∧ t.previous = some right.span := by
  have henough : Enough n .block s := hn
  obtain ⟨n, rfl⟩ := henough.exists_succ
  have hbelow := below_of_enough henough henough
  obtain ⟨body, t, hbody, hrest, hprevious⟩ := exists_reads_enclosed hpair fun t ht =>
    ⟨(hbelow.later .stmts t ht).outcome, (hbelow.later .stmts t ht).total trivial⟩
  have hblock : block (n + 1) = (productions n).round .block := congrFun (productions_succ n) .block
  have hread : Reads (block (n + 1)) s ⟨body, s.span.merge t.lastSpan⟩ t := by
    rw [hblock]
    exact Reads.get_bind (hbody.bind (reads_spanned_iff.2 ⟨rfl, rfl⟩))
  exact ⟨_, t, hread, hrest, hprevious⟩

theorem exists_cls_of_head {head : Tree.Modifiers × Tree.Ident} (hn : 8 * s.rest.length < n)
    (hhead : Reads classHead s head u) (hpair : u.AtPair right rest) :
    ∃ c t, Reads (cls n) s c t ∧ t.rest = rest ∧ t.previous = some right.span := by
  have houtcome : Outcome False False classHead classHead s
      fun _ t => t.rest.length < s.rest.length := .classHead
  have hlt := (houtcome.reads hhead).2
  have hmany (v : State) (hv : v.rest.length < u.rest.length) :
      Meets True (productions n) (productions n) .methods v := by
    have henough : Enough n .methods v := by
      unfold Enough
      change 8 * v.rest.length + 0 < n
      omega
    exact meets_of_enough henough henough
  obtain ⟨ms, t, hms, hrest, hprevious⟩ := exists_reads_enclosed hpair fun v hv =>
    ⟨(hmany v hv).outcome, (hmany v hv).total trivial⟩
  have hread : Reads (cls n) s ⟨head.1, head.2, ms, s.span.merge t.lastSpan⟩ t := by
    rw [cls_eq]
    exact Reads.get_bind (hhead.bind (hms.bind (reads_spanned_iff.2 ⟨rfl, rfl⟩)))
  exact ⟨_, t, hread, hrest, hprevious⟩

theorem outcome_methodHead (hn : 8 * s.rest.length ≤ n) :
    Outcome True True (methodHead (params n)) (methodHead (params n)) s
      fun _ t => t.rest.length < s.rest.length := by
  have henough : Enough (n + 1) .methods s := Nat.lt_succ_of_le hn
  exact .methodHead fun t ht => (below_of_enough henough henough).params ht

theorem exists_method_of_head {head : Tree.Modifiers × Tree.TypeRef × Tree.Ident × List Tree.Param}
    (hn : 8 * s.rest.length ≤ n) (hhead : Reads (methodHead (params n)) s head u)
    (hpair : u.AtPair right rest) :
    ∃ m t, Reads (method n) s m t ∧ t.rest = rest ∧ t.previous = some right.span := by
  have hlt := ((outcome_methodHead hn).reads hhead).2
  obtain ⟨b, t, hb, hrest, hprevious⟩ := exists_block (by omega : 8 * u.rest.length < n) hpair
  obtain ⟨mods, result, name, ps⟩ := head
  have hread : Reads (method n) s ⟨mods, result, name, ps, b, s.span.merge t.lastSpan⟩ t := by
    rw [method_eq]
    exact Reads.get_bind (hhead.bind (hb.bind (reads_spanned_iff.2 ⟨rfl, rfl⟩)))
  exact ⟨_, t, hread, hrest, hprevious⟩

theorem exists_reads_rest (hn : 8 * rest.length < n) (p : Span) : ∃ (ms : List Tree.Method)
    (t : State), ∀ front, Reads (methods n) ⟨rest, some p, front⟩ ms (t.behind front) := by
  have henough : Enough n .methods ⟨rest, some p, []⟩ := hn
  have hmeets := meets_of_enough henough henough
  rcases hrun : (methods n).run.run ⟨rest, some p, []⟩ with ⟨f | ms, t⟩
  · exact absurd (hmeets.total trivial hrun) ((hmeets.outcome.fails hrun).2.2 trivial)
  · refine ⟨ms, t, fun front => ?_⟩
    have hsame := hmeets.outcome.same front
    change (methods n).run.run ⟨rest, some p, front ++ []⟩ =
      (((methods n).run.run ⟨rest, some p, []⟩).1, _) at hsame
    rw [List.append_nil] at hsame
    unfold Reads
    rw [hsame]
    change (((methods n).run.run ⟨rest, some p, []⟩).1,
      ((methods n).run.run ⟨rest, some p, []⟩).2.behind front) = _
    rw [hrun]

/-- The methods behind a body are what its closing brace and the tokens behind it make them. -/
theorem exists_methods (right : Token) (hn : 8 * rest.length < n) :
    ∃ (ms : List Tree.Method) (t : State), ∀ s u head, 8 * s.rest.length ≤ n →
      Reads (methodHead (params n)) s head u → u.AtPair right rest →
        ∃ m front, Reads (methods (n + 1)) s (m :: ms) (t.behind front) := by
  obtain ⟨ms, t, hms⟩ := exists_reads_rest hn right.span
  refine ⟨ms, t, fun s u head hs hhead hpair => ?_⟩
  obtain ⟨m, ⟨_, _, front⟩, hm, rfl, rfl⟩ := exists_method_of_head hs hhead hpair
  obtain ⟨hmoves, hlt⟩ := (outcome_methodHead hs).reads hhead
  refine ⟨m, front, ?_⟩
  rw [isSequence_methods.succ]
  refine Reads.get_bind ?_
  rw [hmoves.atClose_eq_false hlt, if_neg Bool.false_ne_true]
  exact hm.recovered (hms front)

end

end Scriptlet.Parser

namespace Scriptlet

open Scriptlet.Parser

/-! ### Token lists -/

/-- The last token is the only end. -/
def OneEnd (tokens : List Token) : Prop :=
  ∃ init last, tokens = init ++ [last] ∧ last.kind = .eof ∧ ∀ token ∈ init, token.kind ≠ .eof

/-- The braces at two places are a pair. -/
structure Paired (tokens : List Token) (i j : Nat) : Prop where
  left : tokens[i]?.map Token.kind = some (.mark .leftBrace)
  right : tokens[j]?.map Token.kind = some (.mark .rightBrace)
  lt : i < j
  inner : openBraces 0 ((tokens.drop (i + 1)).take (j - (i + 1))) = some 0

section

variable {tokens : List Token} {i j : Nat} {s : State}

/-- In front of a token that is no end there are no ends. -/
theorem OneEnd.kind_ne (h : OneEnd tokens) {token : Token} (htoken : token ∈ tokens.take j)
    (hj : j < tokens.length) : token.kind ≠ .eof := by
  obtain ⟨init, last, rfl, -, hinit⟩ := h
  rw [List.length_append, List.length_singleton] at hj
  rw [List.take_append_of_le_length (Nat.le_of_lt_succ hj)] at htoken
  exact hinit token (List.mem_of_mem_take htoken)

theorem Paired.atPair (h : Paired tokens i j) (hend : OneEnd tokens) (hs : s.rest = tokens.drop i) :
    ∃ right, tokens.drop j = right :: tokens.drop (j + 1) ∧
      s.AtPair right (tokens.drop (j + 1)) := by
  obtain ⟨left, hleft, hleftKind⟩ := Option.map_eq_some_iff.1 h.left
  obtain ⟨right, hright, hrightKind⟩ := Option.map_eq_some_iff.1 h.right
  obtain ⟨hi, rfl⟩ := List.getElem?_eq_some_iff.1 hleft
  obtain ⟨hj, rfl⟩ := List.getElem?_eq_some_iff.1 hright
  have hlt := h.lt
  have hinner : tokens.drop (i + 1) =
      (tokens.drop (i + 1)).take (j - (i + 1)) ++ tokens.drop j := by
    have hsplit := List.take_append_drop (j - (i + 1)) (tokens.drop (i + 1))
    rw [List.drop_drop, Nat.add_sub_cancel' hlt] at hsplit
    exact hsplit.symm
  refine ⟨_, List.drop_eq_getElem_cons hj, tokens[i], _, ?_, hleftKind, hrightKind, h.inner,
    fun token htoken => ?_⟩
  · rw [hs, List.drop_eq_getElem_cons hi, ← List.drop_eq_getElem_cons hj, ← hinner]
  · rw [← List.drop_take] at htoken
    exact hend.kind_ne (List.mem_of_mem_drop htoken) hj

theorem length_le_of_rest_eq (hs : s.rest = tokens.drop i) : s.rest.length ≤ tokens.length := by
  rw [hs, List.length_drop]
  exact Nat.sub_le _ _

/-- Recovery stays with the braces. A block is read from its opening brace to the closing one,
whatever lies between them; so is a class behind its head and a method behind its head. The methods
that follow are those that the tokens behind the closing brace make. -/
theorem recovery_keeps_braces (hend : OneEnd tokens) (hpair : Paired tokens i j) {n : Nat}
    (hn : 8 * tokens.length < n) :
    (∀ s, s.rest = tokens.drop i →
      ∃ b t, Reads (block n) s b t ∧ t.rest = tokens.drop (j + 1)) ∧
    (∀ k s u head, s.rest = tokens.drop k → Reads classHead s head u → u.rest = tokens.drop i →
      ∃ c t, Reads (cls n) s c t ∧ t.rest = tokens.drop (j + 1)) ∧
    (∀ k s u head, s.rest = tokens.drop k → Reads (methodHead (params n)) s head u →
      u.rest = tokens.drop i → ∃ m t, Reads (method n) s m t ∧ t.rest = tokens.drop (j + 1)) ∧
    ∃ (ms : List Tree.Method) (t : State), ∀ tokens' i' j' k s u head, OneEnd tokens' →
      Paired tokens' i' j' → tokens'.drop j' = tokens.drop j → 8 * tokens'.length < n →
      s.rest = tokens'.drop k → Reads (methodHead (params n)) s head u →
      u.rest = tokens'.drop i' →
        ∃ m front, Reads (methods (n + 1)) s (m :: ms) (t.behind front) := by
  refine ⟨fun s hs => ?_, fun k s u head hs hhead hu => ?_, fun k s u head hs hhead hu => ?_, ?_⟩
  · obtain ⟨right, -, hright⟩ := hpair.atPair hend hs
    have hle := length_le_of_rest_eq hs
    obtain ⟨b, t, hb, hrest, -⟩ := exists_block (by omega : 8 * s.rest.length < n) hright
    exact ⟨b, t, hb, hrest⟩
  · obtain ⟨right, -, hright⟩ := hpair.atPair hend hu
    have hle := length_le_of_rest_eq hs
    obtain ⟨c, t, hc, hrest, -⟩ := exists_cls_of_head (by omega : 8 * s.rest.length < n) hhead hright
    exact ⟨c, t, hc, hrest⟩
  · obtain ⟨right, -, hright⟩ := hpair.atPair hend hu
    have hle := length_le_of_rest_eq hs
    have hdepth : 8 * s.rest.length ≤ n := by omega
    obtain ⟨m, t, hm, hrest, -⟩ := exists_method_of_head hdepth hhead hright
    exact ⟨m, t, hm, hrest⟩
  · have hstart : State.rest ⟨tokens.drop i, none, []⟩ = tokens.drop i := rfl
    obtain ⟨right, hdrop, -⟩ := hpair.atPair hend hstart
    have hlength : 8 * (tokens.drop (j + 1)).length < n := by
      rw [List.length_drop]
      omega
    obtain ⟨ms, t, hms⟩ := exists_methods right hlength
    refine ⟨ms, t, fun tokens' i' j' k s u head hend' hpair' hsame hn' hs hhead hu => ?_⟩
    obtain ⟨right', hdrop', hright'⟩ := hpair'.atPair hend' hu
    obtain ⟨rfl, hrest⟩ := List.cons.inj (hdrop'.symm.trans (hsame.trans hdrop))
    have hle := length_le_of_rest_eq hs
    rw [hrest] at hright'
    exact hms s u head (by omega) hhead hright'

end

/-- A block whose only statement is wrong. -/
def wrongBlock : List Token :=
  [⟨.mark .leftBrace, ⟨0, 1⟩⟩, ⟨.mark .rightParen, ⟨1, 2⟩⟩, ⟨.mark .rightBrace, ⟨2, 3⟩⟩,
    ⟨.eof, ⟨3, 3⟩⟩]

theorem recovery_keeps_braces_wrongBlock :
    ∃ b t, Reads (block 40) ⟨wrongBlock, none, []⟩ b t ∧ t.rest = wrongBlock.drop 3 := by
  have hend : OneEnd wrongBlock := ⟨wrongBlock.take 3, ⟨.eof, ⟨3, 3⟩⟩, rfl, rfl, by decide⟩
  have hpair : Paired wrongBlock 0 2 := ⟨rfl, rfl, by decide, rfl⟩
  have hdepth : 8 * wrongBlock.length < 40 := by decide
  exact (recovery_keeps_braces hend hpair hdepth).1 ⟨wrongBlock, none, []⟩ rfl

end Scriptlet
