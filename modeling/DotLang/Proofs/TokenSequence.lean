import DotLang.Parser
import DotLang.Proofs.Feed

/-!
# Parsing a sequence of tokens

A parser asks for a token only when it has taken the one before. All the same, what it reports is
decided by the tokens of the text and by how they end: `Outcome.Explains` says how the outcome of
feeding these tokens to the grammar becomes a result.

* `Parser.run_explains`: what a parser reports is explained by the tokens that it will look at.
* `parse_explains`: what a parse reports is explained by the tokens of the text.
* `Lexer.tokenize_eq_ok_iff`: the tokens of a text that has no malformed one.
-/

namespace DotLang

/-! ## The tokens of a run -/

namespace Cursor

/-- The tokens of a run, with the end of input if it is reached. -/
def Run.items (run : Run) : List Token :=
  match run.ending with
  | .ok last => run.tokens ++ [last]
  | .error _ => run.tokens

theorem Run.items_cons (token : Token) (run : Run) :
    Run.items ⟨token :: run.tokens, run.ending, run.cursor⟩ = token :: run.items := by
  unfold Run.items
  cases run.ending <;> rfl

/-- The kinds of the tokens of a run, with the end of input if it is reached. -/
def Run.kinds (run : Run) : List TokenKind := run.items.map Token.kind

theorem readAll_of_error {c c' : Cursor} {e : LexError} (h : c.next = (.error e, c')) :
    c.readAll = ⟨[], .error e, c'⟩ := by
  rw [readAll]
  split <;> rename_i heq <;> rw [h] at heq <;> cases heq
  rfl

theorem readAll_of_eof {c c' : Cursor} {token : Token} (h : c.next = (.ok token, c'))
    (hkind : token.kind = .eof) : c.readAll = ⟨[], .ok token, c'⟩ := by
  rw [readAll]
  split <;> rename_i heq <;> rw [h] at heq <;> cases heq
  rw [dif_pos hkind]

theorem readAll_of_token {c c' : Cursor} {token : Token} (h : c.next = (.ok token, c'))
    (hkind : token.kind ≠ .eof) :
    c.readAll = ⟨token :: c'.readAll.tokens, c'.readAll.ending, c'.readAll.cursor⟩ := by
  rw [readAll]
  split <;> rename_i heq <;> rw [h] at heq <;> cases heq
  rw [dif_neg hkind]

/-- The end of input is not among the tokens before the end. -/
theorem kind_ne_eof_of_mem_tokens {c : Cursor} {token : Token} (h : token ∈ c.readAll.tokens) :
    token.kind ≠ .eof := by
  fun_induction readAll c with
  | case1 c e c' hnext => exact absurd h List.not_mem_nil
  | case2 c last c' hnext hkind => exact absurd h List.not_mem_nil
  | case3 c first c' hnext hkind run ih =>
    rcases List.mem_cons.1 h with rfl | h
    · exact hkind
    · exact ih h

theorem kind_of_ending {c : Cursor} {last : Token} (h : c.readAll.ending = .ok last) :
    last.kind = .eof := by
  fun_induction readAll c with
  | case1 c e c' hnext => exact nomatch h
  | case2 c token c' hnext hkind =>
    obtain rfl := Except.ok.inj h
    exact hkind
  | case3 c first c' hnext hkind run ih => exact ih h

/-- The end of input stands last and nowhere else. -/
theorem kinds_readAll (c : Cursor) :
    .eof ∉ c.readAll.tokens.map Token.kind ∧
      ((∃ last, c.readAll.ending = .ok last ∧
          c.readAll.kinds = c.readAll.tokens.map Token.kind ++ [.eof]) ∨
        (∃ e, c.readAll.ending = .error e ∧
          c.readAll.kinds = c.readAll.tokens.map Token.kind)) := by
  constructor
  · intro h
    obtain ⟨token, hmem, hkind⟩ := List.mem_map.1 h
    exact kind_ne_eof_of_mem_tokens hmem hkind
  · unfold Run.kinds Run.items
    cases hending : c.readAll.ending with
    | ok last => exact .inl ⟨last, rfl, by simp [kind_of_ending hending]⟩
    | error e => exact .inr ⟨e, rfl, rfl⟩

/-- The tokens of the run stand in front of the end of input, and nothing stands behind it. -/
theorem eq_of_kinds_readAll {c : Cursor} {ks more : List TokenKind}
    (h : c.readAll.kinds = ks ++ .eof :: more) :
    ks = c.readAll.tokens.map Token.kind ∧ more = [] ∧ ∃ last, c.readAll.ending = .ok last := by
  obtain ⟨hmem, ⟨last, hending, hkinds⟩ | ⟨e, _, hkinds⟩⟩ := kinds_readAll c
  · rw [hkinds] at h
    rcases List.append_eq_append_iff.1 h with ⟨l, rfl, hl⟩ | ⟨l, hl, hmore⟩
    · cases l with
      | nil => exact ⟨List.append_nil _, (List.cons.inj hl).2.symm, last, hending⟩
      | cons kind l => simp at hl
    · cases l with
      | nil => exact ⟨by rw [hl, List.append_nil], (List.cons.inj hmore).2, last, hending⟩
      | cons kind l =>
        obtain ⟨rfl, _⟩ := List.cons.inj hmore
        exact absurd (hl ▸ List.mem_append_right _ List.mem_cons_self) hmem
  · rw [hkinds] at h
    exact absurd (h ▸ List.mem_append_right _ List.mem_cons_self) hmem

end Cursor

namespace Lexer

/-- The run of the tokens of a text. -/
def run (source : String) : Cursor.Run := (ofString source).cursor.readAll

theorem tokenize_eq (source : String) :
    tokenize source = (run source).ending.map fun last => (run source).tokens ++ [last] := rfl

theorem tokenize_eq_ok_iff {source : String} {tokens : List Token} :
    tokenize source = .ok tokens ↔
      ∃ last, (run source).ending = .ok last ∧ tokens = (run source).tokens ++ [last] := by
  rw [tokenize_eq]
  generalize run source = run
  obtain ⟨before, ending, cursor⟩ := run
  cases ending with
  | error e => simp [Except.map]
  | ok last => simp [Except.map, eq_comm]

theorem tokenize_eq_items {source : String} {last : Token} (h : (run source).ending = .ok last) :
    tokenize source = .ok (run source).items := by
  rw [tokenize_eq_ok_iff, Cursor.Run.items, h]
  exact ⟨last, rfl, rfl⟩

end Lexer

/-! ## Explaining a result -/

namespace Parser

/-- How the outcome of feeding the tokens of a run becomes a result. -/
inductive Outcome.Explains {goal : Construct} (run : Cursor.Run) :
    Outcome goal → Except Error goal.Value → Prop where
  /-- All tokens are taken: then the next one is malformed. -/
  | waiting {s : State goal} {e : LexError} :
      run.ending = .error e → Explains run (.waiting s) (.error (.lexical e))
  | finished {value : goal.Value} {left : List TokenKind} :
      Explains run (.finished value left) (.ok value)
  /-- The refused token is reported where it begins. -/
  | refused {expected : List Expectation} {before after : List Token} {token : Token} :
      run.items = before ++ token :: after →
      Explains run (.refused expected (token.kind :: after.map Token.kind))
        (.error (.grammatical
          ⟨expected.map Expectation.describe, token.kind.describe, token.pos⟩))

theorem Outcome.Explains.eq_finished {goal : Construct} {run : Cursor.Run}
    {outcome : Outcome goal} {value : goal.Value} (h : outcome.Explains run (.ok value)) :
    ∃ left, outcome = .finished value left := by
  cases h
  exact ⟨_, rfl⟩

theorem Outcome.Explains.eq_ok {goal : Construct} {run : Cursor.Run} {value : goal.Value}
    {left : List TokenKind} {result : Except Error goal.Value}
    (h : (Outcome.finished value left).Explains run result) : result = .ok value := by
  cases h
  rfl

/-- A run and an outcome explain one result only. -/
theorem Outcome.Explains.unique {goal : Construct} {run : Cursor.Run} {outcome : Outcome goal}
    {result result' : Except Error goal.Value} (h : outcome.Explains run result)
    (h' : outcome.Explains run result') : result = result' := by
  cases h with
  | waiting he =>
    obtain ⟨he'⟩ := h'
    rw [he] at he'
    rw [Except.error.inj he']
  | finished =>
    cases h'
    rfl
  | @refused expected before after token hitems =>
    generalize hleft : token.kind :: after.map Token.kind = left at h'
    cases h' with
    | @refused _ before' after' token' hitems' =>
      have hlength : (token :: after).length = (token' :: after').length := by
        simpa using congrArg List.length hleft
      obtain ⟨-, hsame⟩ := List.append_inj' (hitems.symm.trans hitems') hlength
      rw [(List.cons.inj hsame).1]

/-- The run of tokens that a parser will look at, from the one that it looks at on. Nothing is
read behind the end of input. -/
def upcoming (p : Parser) : Cursor.Run :=
  if p.current.kind = .eof then ⟨[], .ok p.current, p.lexer.cursor⟩
  else
    let run := p.lexer.cursor.readAll
    ⟨p.current :: run.tokens, run.ending, run.cursor⟩

theorem items_upcoming (p : Parser) : ∃ more, p.upcoming.items = p.current :: more := by
  unfold upcoming
  split
  · exact ⟨[], rfl⟩
  · unfold Cursor.Run.items
    cases p.lexer.cursor.readAll.ending with
    | ok last => exact ⟨_, rfl⟩
    | error e => exact ⟨_, rfl⟩

theorem readAll_of_lex {p p' : Parser} (h : p.lex = (.ok (), p')) :
    p.lexer.cursor.readAll = p'.upcoming := by
  unfold lex at h
  split at h
  · rename_i token lexer hnext
    obtain ⟨_, rfl⟩ := Prod.mk.inj h
    simp only [Lexer.next, Prod.mk.injEq] at hnext
    obtain ⟨hresult, rfl⟩ := hnext
    have hnext : p.lexer.cursor.next = (.ok token, p.lexer.cursor.next.2) := Prod.ext hresult rfl
    unfold upcoming
    split
    · rename_i hkind
      exact Cursor.readAll_of_eof hnext hkind
    · rename_i hkind
      exact Cursor.readAll_of_token hnext hkind
  · cases h

theorem readAll_of_lex_error {p p' : Parser} {e : Error} (h : p.lex = (.error e, p')) :
    ∃ e', e = .lexical e' ∧ p.lexer.cursor.readAll = ⟨[], .error e', p'.lexer.cursor⟩ := by
  unfold lex at h
  split at h
  · exact nomatch h
  · rename_i e' lexer hnext
    obtain ⟨he, rfl⟩ := Prod.mk.inj h
    obtain rfl := Except.error.inj he
    simp only [Lexer.next, Prod.mk.injEq] at hnext
    obtain ⟨hresult, rfl⟩ := hnext
    exact ⟨e', rfl, Cursor.readAll_of_error (Prod.ext hresult rfl)⟩

theorem options_of_lex {p p' : Parser} {result : Except Error Unit} (h : p.lex = (result, p')) :
    p'.options = p.options := by
  unfold lex at h
  split at h
  all_goals
    obtain ⟨_, rfl⟩ := Prod.mk.inj h
    rfl

/-- A result is explained in the same way with one token more in front. -/
theorem Outcome.Explains.cons {goal : Construct} {run : Cursor.Run} {outcome : Outcome goal}
    {result : Except Error goal.Value} (h : outcome.Explains run result) (token : Token) :
    outcome.Explains ⟨token :: run.tokens, run.ending, run.cursor⟩ result := by
  cases h with
  | waiting he => exact .waiting he
  | finished => exact .finished
  | @refused expected before after refused hitems =>
    have hcons : Cursor.Run.items ⟨token :: run.tokens, run.ending, run.cursor⟩ =
        (token :: before) ++ refused :: after := by
      rw [Cursor.Run.items_cons, hitems, List.cons_append]
    exact .refused hcons

/-- What a parser reports is explained by the tokens that it will look at. -/
theorem run_explains {goal : Construct} (p : Parser) (s : State goal) :
    (s.feed p.options.maxDepth p.upcoming.kinds).Explains p.upcoming (p.run s).1 := by
  fun_induction run p s with
  | case1 p s value hstep =>
    obtain ⟨more, hmore⟩ := p.items_upcoming
    rw [Cursor.Run.kinds, hmore, List.map_cons, State.feed_of_finish hstep]
    exact .finished
  | case2 p s expected hstep =>
    obtain ⟨more, hmore⟩ := p.items_upcoming
    rw [Cursor.Run.kinds, hmore, List.map_cons, State.feed_of_reject hstep]
    rw [← List.nil_append (p.current :: more)] at hmore
    exact .refused hmore
  | case3 p s next hstep ih =>
    obtain ⟨more, hmore⟩ := p.items_upcoming
    rw [Cursor.Run.kinds, hmore, List.map_cons] at ih ⊢
    rwa [State.feed_of_pass hstep]
  | case4 p s next hstep e p' hlex =>
    obtain ⟨e', rfl, hrun⟩ := readAll_of_lex_error hlex
    rw [upcoming, if_neg (State.ne_eof_of_shift hstep)]
    simp only [hrun]
    rw [Cursor.Run.kinds, Cursor.Run.items, List.map_cons, State.feed_of_shift hstep,
      List.map_nil, State.feed_nil]
    exact .waiting rfl
  | case5 p s next hstep p' hlex ih =>
    rw [upcoming, if_neg (State.ne_eof_of_shift hstep)]
    simp only [readAll_of_lex hlex]
    have hkinds : Cursor.Run.kinds ⟨p.current :: p'.upcoming.tokens, p'.upcoming.ending,
        p'.upcoming.cursor⟩ = p.current.kind :: p'.upcoming.kinds := by
      rw [Cursor.Run.kinds, Cursor.Run.items_cons, List.map_cons]
      rfl
    rw [hkinds, State.feed_of_shift hstep, ← options_of_lex hlex]
    exact ih.cons p.current

end Parser

/-- What a parse reports is explained by the tokens of the text. -/
theorem parse_explains (source : String) (options : ParseOptions) :
    ((Parser.State.graph (.nextGraph [] .top)).feed options.maxDepth
      (Lexer.run source).kinds).Explains (Lexer.run source) (parse source options) := by
  unfold parse Parser.readGraphs
  split
  · rename_i e p' hlex
    obtain ⟨e', rfl, hrun⟩ := Parser.readAll_of_lex_error hlex
    have hrun : Lexer.run source = ⟨[], .error e', p'.lexer.cursor⟩ := hrun
    rw [hrun, Cursor.Run.kinds, Cursor.Run.items, List.map_nil, Parser.State.feed_nil]
    exact .waiting rfl
  · rename_i p' hlex
    have hrun : Lexer.run source = p'.upcoming := Parser.readAll_of_lex hlex
    have hoptions : p'.options = options := Parser.options_of_lex hlex
    rw [hrun, ← hoptions]
    exact p'.run_explains _

end DotLang
