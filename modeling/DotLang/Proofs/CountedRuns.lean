import DotLang.Proofs.ParserCalls

/-!
# Counted runs

A call of a parser taken apart into its steps: each move of the grammar, each blank or comment that
is passed and each token that the lexer is asked for. A run records how many steps there are, when
the lexer is asked and what it answers.

* `Cursor.Reaches`, `Parser.Runs`, `Parser.CallRuns`: the steps of a reading, of a run and of a call.
* `Parser.Runs.steps_le`: the steps are bounded by the input that is left.
* `Parser.Runs.answers_prefix`: the lexer answers with its tokens in their order.
* `parser_asks_in_order`: both for whatever a parser is asked for.
-/

namespace DotLang

/-! ## The steps of a reading -/

namespace Cursor

/-- What a cursor finds behind a number of blanks and comments, and the cursor behind it. -/
inductive Reaches : Cursor → Nat → Except LexError Token → Cursor → Prop where
  | gap {c c' : Cursor} {text rest : List Char} {gaps : Nat} {result : Except LexError Token} :
      Trivia.head c.pos.IsLineStart c.rest = .passed text rest →
      Reaches (c.skip text rest) gaps result c' → Reaches c (gaps + 1) result c'
  | found {c : Cursor} :
      (∀ text rest, Trivia.head c.pos.IsLineStart c.rest ≠ .passed text rest) →
      Reaches c 0 c.next.1 c.next.2

variable {c c' : Cursor} {gaps : Nat} {result : Except LexError Token}

theorem Reaches.next_eq (h : c.Reaches gaps result c') : c.next = (result, c') := by
  induction h with
  | gap hhead _ ih => exact (next_of_passed hhead).trans ih
  | found => rfl

/-- A reading comes to an end. -/
theorem exists_reaches (c : Cursor) : ∃ gaps, c.Reaches gaps c.next.1 c.next.2 := by
  by_cases hgap : ∃ text rest, Trivia.head c.pos.IsLineStart c.rest = .passed text rest
  · obtain ⟨text, rest, hhead⟩ := hgap
    obtain ⟨gaps, hreaches⟩ := exists_reaches (c.skip text rest)
    rw [next_of_passed hhead]
    exact ⟨gaps + 1, .gap hhead hreaches⟩
  · exact ⟨0, .found fun text rest hhead => hgap ⟨text, rest, hhead⟩⟩
termination_by c.rest.length
decreasing_by exact Trivia.length_of_head hhead

/-- Each blank or comment shortens the input. -/
theorem Reaches.length_le (h : c.Reaches gaps result c') :
    gaps + c'.rest.length ≤ c.rest.length := by
  induction h with
  | gap hhead _ ih =>
    have := Trivia.length_of_head hhead
    rw [rest_skip] at ih
    omega
  | found =>
    rw [Nat.zero_add]
    exact length_of_next_le _

theorem Reaches.length_lt {token : Token} (h : c.Reaches gaps (.ok token) c')
    (hkind : token.kind ≠ .eof) : gaps + c'.rest.length < c.rest.length := by
  generalize hresult : Except.ok token = result at h
  induction h with
  | gap hhead _ ih =>
    have := Trivia.length_of_head hhead
    have := ih hresult
    rw [rest_skip] at this
    omega
  | found =>
    rw [Nat.zero_add]
    exact length_of_next (Prod.ext hresult.symm rfl) hkind

/-- What a cursor finds one after the other, up to the end of input or the first malformed token. -/
def stream (c : Cursor) : List (Except LexError Token) :=
  c.readAll.tokens.map .ok ++ [c.readAll.ending]

theorem length_tokens_readAll_le (c : Cursor) : c.readAll.tokens.length ≤ c.rest.length := by
  fun_induction readAll c with
  | case1 => exact Nat.zero_le _
  | case2 => exact Nat.zero_le _
  | case3 c token c' hnext hkind run ih => exact Nat.lt_of_le_of_lt ih (length_of_next hnext hkind)

theorem length_stream_le (c : Cursor) : c.stream.length ≤ c.rest.length + 1 := by
  have := length_tokens_readAll_le c
  simp only [stream, List.length_append, List.length_map, List.length_singleton]
  omega

/-- Only the last item of a stream is the end of input or a malformed token. -/
theorem isLast_of_mem_dropLast {answers : List (Except LexError Token)}
    (h : answers <+: c.stream) {answer : Except LexError Token}
    (hanswer : answer ∈ answers.dropLast) : Lexer.IsLast answer = false := by
  have hmem : answer ∈ c.readAll.tokens.map .ok := by
    rcases List.prefix_concat_iff.1 h with rfl | h
    · rwa [List.dropLast_concat] at hanswer
    · exact h.subset (List.dropLast_subset _ hanswer)
  obtain ⟨token, htoken, rfl⟩ := List.mem_map.1 hmem
  exact decide_eq_false (kind_ne_eof_of_mem_tokens htoken)

end Cursor

namespace Lexer

/-- What a lexer gives from the start is its stream. -/
theorem drain_ofString (source : String) :
    (ofString source).drain.1 = (ofString source).cursor.stream := rfl

theorem length_dropMark_le (text : List Char) : (dropMark text).length ≤ text.length := by
  unfold dropMark
  split
  · exact Nat.le_succ _
  · exact le_refl _

end Lexer

/-! ## The steps of a run -/

namespace Parser

variable {goal : Construct}

/-- The lexer is asked for a token. -/
structure Asking where
  /-- The token that is looked at meanwhile. -/
  behind : Token
  answer : Except LexError Token

/-- The steps of looking at the next token. -/
inductive Lexes (p : Parser) : Nat → Asking → Except Error Unit → Parser → Prop where
  | token {token : Token} {gaps : Nat} {c : Cursor} :
      p.lexer.cursor.Reaches gaps (.ok token) c →
      Lexes p (gaps + 1) ⟨p.current, .ok token⟩ (.ok ())
        { p with lexer := { p.lexer with cursor := c }, current := token }
  | malformed {e : LexError} {gaps : Nat} {c : Cursor} :
      p.lexer.cursor.Reaches gaps (.error e) c →
      Lexes p (gaps + 1) ⟨p.current, .error e⟩ (.error (.lexical e))
        { p with lexer := { p.lexer with cursor := c } }

/-- The steps of a run from a state of the grammar. -/
inductive Runs : Parser → State goal → Nat → List Asking → Except Error goal.Value → Parser → Prop
    where
  | finish {p : Parser} {s : State goal} {value : goal.Value} :
      s.step p.options.maxDepth p.current.kind = .finish value → Runs p s 0 [] (.ok value) p
  | refuse {p : Parser} {s : State goal} {expected : List Expectation} :
      s.step p.options.maxDepth p.current.kind = .reject expected →
      Runs p s 0 [] (.error (p.refuse expected)) p
  | pass {p p' : Parser} {s next : State goal} {steps : Nat} {asked : List Asking}
      {result : Except Error goal.Value} :
      s.step p.options.maxDepth p.current.kind = .pass next →
      Runs p next steps asked result p' → Runs p s (steps + 1) asked result p'
  | stop {p p' : Parser} {s next : State goal} {steps : Nat} {asking : Asking} {e : Error} :
      s.step p.options.maxDepth p.current.kind = .shift next →
      Lexes p steps asking (.error e) p' → Runs p s steps [asking] (.error e) p'
  | shift {p p' q : Parser} {s next : State goal} {steps more : Nat} {asking : Asking}
      {asked : List Asking} {result : Except Error goal.Value} :
      s.step p.options.maxDepth p.current.kind = .shift next →
      Lexes p steps asking (.ok ()) p' → Runs p' next more asked result q →
      Runs p s (steps + more) (asking :: asked) result q

variable {p p' : Parser} {s : State goal} {steps : Nat} {asking : Asking} {asked : List Asking}
  {read : Except Error Unit} {result : Except Error goal.Value}

theorem Lexes.lex_eq (h : p.Lexes steps asking read p') : p.lex = (read, p') := by
  cases h with
  | token hreaches => rw [lex, Lexer.next, hreaches.next_eq]
  | malformed hreaches => rw [lex, Lexer.next, hreaches.next_eq]

theorem exists_lexes (p : Parser) : ∃ steps asking, p.Lexes steps asking p.lex.1 p.lex.2 := by
  obtain ⟨gaps, hreaches⟩ := p.lexer.cursor.exists_reaches
  rw [lex, Lexer.next]
  rcases hnext : p.lexer.cursor.next with ⟨_ | token, c⟩
  · rw [hnext] at hreaches
    exact ⟨_, _, .malformed hreaches⟩
  · rw [hnext] at hreaches
    exact ⟨_, _, .token hreaches⟩

/-- The steps lead to what the run gives. -/
theorem Runs.run_eq (h : p.Runs s steps asked result p') : p.run s = (result, p') := by
  induction h with
  | finish hstep =>
    rw [run]
    split <;> rename_i heq <;> rw [hstep] at heq <;> cases heq
    rfl
  | refuse hstep =>
    rw [run]
    split <;> rename_i heq <;> rw [hstep] at heq <;> cases heq
    rfl
  | pass hstep _ ih =>
    rw [run]
    split <;> rename_i heq <;> rw [hstep] at heq <;> cases heq
    exact ih
  | stop hstep hlexes =>
    rw [run]
    split <;> rename_i heq <;> rw [hstep] at heq <;> cases heq
    split <;> rename_i heq <;> rw [hlexes.lex_eq] at heq <;> cases heq
    rfl
  | shift hstep hlexes _ ih =>
    rw [run]
    split <;> rename_i heq <;> rw [hstep] at heq <;> cases heq
    split <;> rename_i heq <;> rw [hlexes.lex_eq] at heq <;> cases heq
    exact ih

/-- A run comes to an end. -/
theorem exists_runs (p : Parser) (s : State goal) :
    ∃ steps asked, p.Runs s steps asked (p.run s).1 (p.run s).2 := by
  fun_induction run p s with
  | case1 p s value hstep => exact ⟨0, [], .finish hstep⟩
  | case2 p s expected hstep => exact ⟨0, [], .refuse hstep⟩
  | case3 p s next hstep ih =>
    obtain ⟨steps, asked, hruns⟩ := ih
    exact ⟨_, _, .pass hstep hruns⟩
  | case4 p s next hstep e p' hlex =>
    obtain ⟨steps, asking, hlexes⟩ := p.exists_lexes
    rw [hlex] at hlexes
    exact ⟨_, _, .stop hstep hlexes⟩
  | case5 p s next hstep p' hlex ih =>
    obtain ⟨steps, asking, hlexes⟩ := p.exists_lexes
    obtain ⟨more, asked, hruns⟩ := ih
    rw [hlex] at hlexes
    exact ⟨_, _, .shift hstep hlexes hruns⟩

/-! ## How many steps there are -/

/-- What is left behind a token makes up for the steps of looking at it. -/
theorem Lexes.add_size_le (h : p.Lexes steps asking (.ok ()) p') :
    steps + p'.size ≤ p.lexer.cursor.rest.length + 1 := by
  cases h with
  | @token token gaps c hreaches =>
    simp only [size]
    split
    · have := hreaches.length_le
      omega
    · rename_i hne
      have := hreaches.length_lt hne
      omega

theorem Lexes.steps_le (h : p.Lexes steps asking read p') :
    steps ≤ p.lexer.cursor.rest.length + 1 := by
  cases h with
  | token hreaches =>
    have := hreaches.length_le
    omega
  | malformed hreaches =>
    have := hreaches.length_le
    omega

theorem size_of_ne_eof (h : p.current.kind ≠ .eof) :
    p.size = p.lexer.cursor.rest.length + 1 := by
  rw [size, if_neg h]

theorem State.rank_le (s : State goal) : s.rank ≤ 9 := by
  cases s <;> simp [State.rank]

/-- Each token and each character allow for ten steps. -/
theorem Runs.steps_le (h : p.Runs s steps asked result p') : steps ≤ 10 * p.size + s.rank := by
  induction h with
  | finish => exact Nat.zero_le _
  | refuse => exact Nat.zero_le _
  | pass hstep _ ih =>
    have := State.rank_of_pass hstep
    omega
  | stop hstep hlexes =>
    have := hlexes.steps_le
    have := size_of_ne_eof (State.ne_eof_of_shift hstep)
    omega
  | @shift p p' q s next steps more asking asked result hstep hlexes _ ih =>
    have := hlexes.add_size_le
    have := size_of_ne_eof (State.ne_eof_of_shift hstep)
    have : 0 < steps := by cases hlexes; exact Nat.succ_pos _
    have := next.rank_le
    omega

/-! ## What the lexer is asked and answers -/

/-- The lexer is not asked for a token behind the end of input. -/
theorem Runs.behind_ne_eof (h : p.Runs s steps asked result p') :
    ∀ asking ∈ asked, asking.behind.kind ≠ .eof := by
  induction h with
  | finish => exact fun _ h => absurd h List.not_mem_nil
  | refuse => exact fun _ h => absurd h List.not_mem_nil
  | pass _ _ ih => exact ih
  | stop hstep hlexes =>
    intro asking hasking
    obtain rfl := List.mem_singleton.1 hasking
    cases hlexes
    exact State.ne_eof_of_shift hstep
  | shift hstep hlexes _ ih =>
    intro asking hasking
    rcases List.mem_cons.1 hasking with rfl | hasking
    · cases hlexes
      exact State.ne_eof_of_shift hstep
    · exact ih asking hasking

/-- What the lexer has still to give: nothing behind the end of input. -/
def unread (p : Parser) : List (Except LexError Token) :=
  if p.current.kind = .eof then [] else p.lexer.cursor.stream

/-- The lexer answers with the first item of its stream, and the others are left. -/
theorem Lexes.stream_eq (h : p.Lexes steps asking (.ok ()) p') :
    p.lexer.cursor.stream = asking.answer :: p'.unread := by
  cases h with
  | @token token gaps c hreaches =>
    unfold unread
    split
    · rename_i hkind
      rw [Cursor.stream, Cursor.readAll_of_eof hreaches.next_eq hkind]
      rfl
    · rename_i hkind
      rw [Cursor.stream, Cursor.readAll_of_token hreaches.next_eq hkind]
      rfl

theorem Lexes.stream_of_error {e : Error} (h : p.Lexes steps asking (.error e) p') :
    p.lexer.cursor.stream = [asking.answer] := by
  cases h with
  | malformed hreaches =>
    rw [Cursor.stream, Cursor.readAll_of_error hreaches.next_eq]
    rfl

/-- The answers of the lexer are its stream, one item after the other, as far as it is read. -/
theorem Runs.answers_prefix (h : p.Runs s steps asked result p') :
    asked.map Asking.answer <+: p.unread := by
  induction h with
  | finish => exact List.nil_prefix
  | refuse => exact List.nil_prefix
  | pass _ _ ih => exact ih
  | stop hstep hlexes =>
    rw [unread, if_neg (State.ne_eof_of_shift hstep), hlexes.stream_of_error]
    exact List.prefix_rfl
  | shift hstep hlexes _ ih =>
    rw [unread, if_neg (State.ne_eof_of_shift hstep), hlexes.stream_eq, List.map_cons,
      List.prefix_cons_inj]
    exact ih

/-! ## The steps of a call -/

/-- The steps of a call. -/
inductive CallRuns (p : Parser) :
    (call : Call) → Nat → List Asking → Except Error call.Value → Parser → Prop where
  | lex {steps : Nat} {asking : Asking} {read : Except Error Unit} {p' : Parser} :
      p.Lexes steps asking read p' → CallRuns p .lex steps [asking] read p'
  | read {goal : Construct} {request : Request goal} {steps : Nat} {asked : List Asking}
      {result : Except Error goal.Value} {p' : Parser} :
      p.Runs request.start steps asked result p' →
      CallRuns p (.read request) steps asked result p'
  /-- The first token of the text is malformed. -/
  | noGraphs {steps : Nat} {asking : Asking} {e : Error} {p' : Parser} :
      Lexes { p with lexer := p.lexer.reset } steps asking (.error e) p' →
      CallRuns p .readGraphs steps [asking] (.error e) p'
  | graphs {steps more : Nat} {asking : Asking} {asked : List Asking}
      {result : Except Error (List Graph)} {p' q : Parser} :
      Lexes { p with lexer := p.lexer.reset } steps asking (.ok ()) p' →
      p'.Runs (.graph (.nextGraph [] .top)) more asked result q →
      CallRuns p .readGraphs (steps + more) (asking :: asked) result q

variable {call : Call} {given : Except Error call.Value}

theorem CallRuns.call_eq (h : p.CallRuns call steps asked given p') :
    p.call call = (given, p') := by
  cases h with
  | lex hlexes => exact hlexes.lex_eq
  | read hruns =>
    show p.read _ = _
    rw [read_eq_run]
    exact hruns.run_eq
  | noGraphs hlexes =>
    show p.readGraphs = _
    rw [readGraphs, hlexes.lex_eq]
  | graphs hlexes hruns =>
    show p.readGraphs = _
    rw [readGraphs, hlexes.lex_eq]
    exact hruns.run_eq

/-- A call comes to an end. -/
theorem exists_callRuns (p : Parser) (call : Call) :
    ∃ steps asked, p.CallRuns call steps asked (p.call call).1 (p.call call).2 := by
  cases call with
  | lex =>
    obtain ⟨steps, asking, hlexes⟩ := p.exists_lexes
    exact ⟨steps, [asking], .lex hlexes⟩
  | read request =>
    obtain ⟨steps, asked, hruns⟩ := p.exists_runs request.start
    rw [← read_eq_run] at hruns
    exact ⟨steps, asked, .read hruns⟩
  | readGraphs =>
    obtain ⟨steps, asking, hlexes⟩ := exists_lexes { p with lexer := p.lexer.reset }
    simp only [Parser.call, readGraphs]
    rcases hlex : lex { p with lexer := p.lexer.reset } with ⟨e | ⟨⟩, p'⟩
    · rw [hlex] at hlexes
      exact ⟨steps, [asking], .noGraphs hlexes⟩
    · rw [hlex] at hlexes
      obtain ⟨more, asked, hruns⟩ := p'.exists_runs (.graph (.nextGraph [] .top))
      exact ⟨_, _, .graphs hlexes hruns⟩

/-! ## Calls at any time -/

variable {source : String} {options : ParseOptions}

theorem Serves.length_rest_le (h : p.Serves source options) :
    p.lexer.cursor.rest.length ≤ source.length := by
  obtain ⟨before, hbefore, -⟩ := h.lexer.cursor
  have hmark := Lexer.length_dropMark_le source.toList
  rw [← h.source_eq, hbefore, List.length_append] at hmark
  rw [← String.length_toList]
  omega

theorem Serves.size_le (h : p.Serves source options) : p.size ≤ source.length + 1 := by
  have := h.length_rest_le
  unfold size
  split <;> omega

theorem CallRuns.steps_le (h : p.CallRuns call steps asked given p')
    (hp : p.Serves source options) : steps ≤ 10 * source.length + 19 := by
  have hsize := hp.size_le
  cases h with
  | lex hlexes =>
    have := hlexes.steps_le
    have := hp.length_rest_le
    omega
  | @read _ request _ _ _ _ hruns =>
    have := hruns.steps_le
    have := request.start.rank_le
    omega
  | noGraphs hlexes =>
    have := hlexes.steps_le
    have := hp.reset.length_rest_le
    omega
  | graphs hlexes hruns =>
    have := hlexes.add_size_le
    have := hruns.steps_le
    have := hp.reset.length_rest_le
    rw [State.rank] at *
    omega

theorem CallRuns.answers_prefix {graphs : Except Error (List Graph)}
    (h : p.CallRuns .readGraphs steps asked graphs p') (hp : p.Serves source options) :
    asked.map Asking.answer <+: (Lexer.ofString source).drain.1 := by
  have hcursor : p.lexer.reset.cursor = (Lexer.ofString source).cursor := by
    rw [Lexer.reset, hp.source_eq]
    rfl
  rw [Lexer.drain_ofString, ← hcursor]
  cases h with
  | noGraphs hlexes =>
    rw [hlexes.stream_of_error]
    exact List.prefix_rfl
  | graphs hlexes hruns =>
    rw [hlexes.stream_eq, List.map_cons, List.prefix_cons_inj]
    exact hruns.answers_prefix

end Parser

/-- Whatever a parser has been asked for before, the next call comes to an end, within a number of
steps that is linear in the text and does not depend on the limit on open subgraphs. A construct on
its own is read without asking for a token behind the end of input. Where the graphs of the text are
read the answers of the lexer are the items of its sequence in their order, no more than one for
each character and one for the end, and none behind the end of input or a malformed token. -/
theorem parser_asks_in_order (source : String) (options : ParseOptions)
    (calls : List Parser.Call) :
    let p := (Parser.ofString source options).afterCalls calls
    (∀ call, ∃ steps asked, p.CallRuns call steps asked (p.call call).1 (p.call call).2) ∧
      (∀ call steps asked given p', p.CallRuns call steps asked given p' →
        p.call call = (given, p') ∧ steps ≤ 10 * source.length + 19) ∧
      (∀ goal (request : Parser.Request goal) steps asked given p',
        p.CallRuns (.read request) steps asked given p' →
          ∀ asking ∈ asked, asking.behind.kind ≠ .eof) ∧
      ∀ steps asked given p', p.CallRuns .readGraphs steps asked given p' →
        asked.map Parser.Asking.answer <+: (Lexer.ofString source).drain.1 ∧
          asked.length ≤ source.length + 1 ∧
          ∀ answer ∈ (asked.map Parser.Asking.answer).dropLast, Lexer.IsLast answer = false := by
  intro p
  have hserves : p.Serves source options := Parser.serves_afterCalls source options calls
  refine ⟨p.exists_callRuns, fun call steps asked given p' hruns => ?_,
    fun goal request steps asked given p' hruns => ?_, fun steps asked given p' hruns => ?_⟩
  · exact ⟨hruns.call_eq, hruns.steps_le hserves⟩
  · cases hruns with
    | read hruns => exact hruns.behind_ne_eof
  · have hanswers := hruns.answers_prefix hserves
    refine ⟨hanswers, ?_, fun answer => Cursor.isLast_of_mem_dropLast hanswers⟩
    have hstream := (Lexer.ofString source).cursor.length_stream_le
    have htext := (Parser.serves_ofString source options).length_rest_le
    have hlength := hanswers.length_le
    rw [List.length_map, Lexer.drain_ofString] at hlength
    exact hlength.trans (hstream.trans (Nat.succ_le_succ htext))

end DotLang
