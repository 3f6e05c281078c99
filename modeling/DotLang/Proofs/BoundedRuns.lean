import DotLang.Proofs.FurtherLines

/-!
# Runs of bounded length

The readers of tokens and of graphs stop because the input gets shorter, and so they do not unfold
on their own. For a text that is given they are followed here for a number of steps: a run that
comes to its end within the steps is the run of the text.

* `Lexer.tokenize_eq_of_within`: the tokens of a text.
* `parse_eq_of_within`: the result of a parse.
-/

namespace DotLang

/-! ## Tokens -/

namespace Cursor

/-- Reads all tokens, if that takes no more than `steps` tokens and gaps. -/
def readWithin : Nat → Cursor → Option Run
  | 0, _ => none
  | steps + 1, ⟨input, pos⟩ =>
    match Trivia.head pos.IsLineStart input with
    | .passed text rest => readWithin steps ⟨rest, pos.after text⟩
    | .unclosed =>
      some ⟨[], .error ⟨.unterminatedComment, pos⟩, (⟨input, pos⟩ : Cursor).toEnd⟩
    | .absent =>
      match input with
      | [] => some ⟨[], .ok ⟨.eof, "", pos⟩, ⟨[], pos⟩⟩
      | first :: input =>
        match Lexeme.scan first input with
        | .token kind text rest =>
          (readWithin steps ⟨rest, pos.after text⟩).map fun run =>
            ⟨⟨kind, String.ofList text, pos⟩ :: run.tokens, run.ending, run.cursor⟩
        | .fault fault text rest => some ⟨[], .error ⟨fault, pos⟩, ⟨rest, pos.after text⟩⟩

theorem readAll_eq_of_within {steps : Nat} {c : Cursor} {run : Run}
    (h : c.readWithin steps = some run) : c.readAll = run := by
  fun_induction readWithin steps c generalizing run with
  | case1 => exact nomatch h
  | case2 steps input pos text rest hhead ih =>
    rw [readAll_eq_of_next (next_of_passed (c := ⟨input, pos⟩) hhead)]
    exact ih h
  | case3 steps input pos hhead =>
    obtain rfl := Option.some.inj h
    exact readAll_of_error (next_of_unclosed (c := ⟨input, pos⟩) hhead)
  | case4 steps pos hhead =>
    obtain rfl := Option.some.inj h
    exact readAll_of_eof (next_nil pos) rfl
  | case5 steps pos first input kind text rest hscan hhead ih =>
    obtain ⟨run', hrun', rfl⟩ := Option.map_eq_some_iff.1 h
    rw [readAll_of_token (next_of_absent hhead hscan) (Lexeme.spelling_of_scan hscan).ne_eof,
      ih hrun']
  | case6 steps pos first input fault text rest hscan hhead =>
    obtain rfl := Option.some.inj h
    exact readAll_of_error (next_of_fault hhead hscan)

end Cursor

theorem Lexer.run_eq_of_within {source : String} {text : List Char} {run : Cursor.Run}
    {steps : Nat} (htext : source.toList = text)
    (h : (Cursor.atStart (dropMark text)).readWithin steps = some run) :
    Lexer.run source = run := by
  rw [Lexer.run, ofString, htext]
  exact Cursor.readAll_eq_of_within h

/-- The tokens of a text, if they are read within `steps` steps. -/
theorem Lexer.tokenize_eq_of_within {source : String} {text : List Char} {tokens : List Token}
    (steps : Nat) (htext : source.toList = text)
    (h : ((Cursor.atStart (dropMark text)).readWithin steps).map
      (fun run => run.ending.map fun last => run.tokens ++ [last]) = some (.ok tokens)) :
    tokenize source = .ok tokens := by
  obtain ⟨run, hrun, htokens⟩ := Option.map_eq_some_iff.1 h
  rw [tokenize_eq, run_eq_of_within htext hrun]
  exact htokens

/-! ## Graphs -/

namespace Parser.State

variable {goal : Construct} {maxDepth : Nat}

/-- Gives tokens to a state, if that takes no more than `steps` moves. -/
def feedWithin (maxDepth : Nat) : Nat → State goal → List TokenKind → Option (Outcome goal)
  | 0, _, _ => none
  | _ + 1, s, [] => some (.waiting s)
  | steps + 1, s, kind :: kinds =>
    match s.step maxDepth kind with
    | .shift next => feedWithin maxDepth steps next kinds
    | .pass next => feedWithin maxDepth steps next (kind :: kinds)
    | .finish value => some (.finished value (kind :: kinds))
    | .reject expected => some (.refused expected (kind :: kinds))

theorem feed_eq_of_within {steps : Nat} {s : State goal} {kinds : List TokenKind}
    {outcome : Outcome goal} (h : feedWithin maxDepth steps s kinds = some outcome) :
    s.feed maxDepth kinds = outcome := by
  fun_induction feedWithin maxDepth steps s kinds with
  | case1 => exact nomatch h
  | case2 steps s =>
    obtain rfl := Option.some.inj h
    exact feed_nil
  | case3 steps s kind kinds next hstep ih =>
    rw [feed_of_shift hstep]
    exact ih h
  | case4 steps s kind kinds next hstep ih =>
    rw [feed_of_pass hstep]
    exact ih h
  | case5 steps s kind kinds value hstep =>
    obtain rfl := Option.some.inj h
    exact feed_of_finish hstep
  | case6 steps s kind kinds expected hstep =>
    obtain rfl := Option.some.inj h
    exact feed_of_reject hstep

end Parser.State

/-! ## Parses -/

/-- The result that an outcome stands for, if there is one. -/
def Parser.Outcome.result? (run : Cursor.Run) {goal : Construct} :
    Outcome goal → Option (Except Error goal.Value)
  | .finished value _ => some (.ok value)
  | .waiting _ =>
    match run.ending with
    | .error e => some (.error (.lexical e))
    | .ok _ => none
  | .refused expected left =>
    match run.items.drop (run.items.length - left.length) with
    | token :: _ =>
      some (.error (.grammatical ⟨expected.map Expectation.describe, token.kind.describe,
        token.pos⟩))
    | [] => none

theorem Parser.Outcome.explains_of_result? {run : Cursor.Run} {goal : Construct} {maxDepth : Nat}
    {s : State goal} {result : Except Error goal.Value}
    (h : (s.feed maxDepth run.kinds).result? run = some result) :
    (s.feed maxDepth run.kinds).Explains run result := by
  obtain ⟨before, _, hkinds, -⟩ := @State.feed_left _ maxDepth s run.kinds
  revert h hkinds
  cases s.feed maxDepth run.kinds with
  | finished value left =>
    rintro ⟨⟩ -
    exact .finished
  | waiting s' =>
    intro h _
    rw [result?] at h
    split at h
    · rename_i e he
      obtain rfl := Option.some.inj h
      exact .waiting he
    · exact nomatch h
  | refused expected left =>
    intro h hkinds
    rw [result?] at h
    split at h
    · rename_i token after hdrop
      obtain rfl := Option.some.inj h
      have hitems : run.items = run.items.take (run.items.length - left.length) ++
          token :: after := by
        rw [← hdrop, List.take_append_drop]
      have hlength : run.items.length - left.length = before.length := by
        have := congrArg List.length hkinds
        rw [Cursor.Run.kinds, List.length_map, List.length_append] at this
        simp only [Outcome.left] at this
        omega
      have hleft : token.kind :: after.map Token.kind = left := by
        rw [Cursor.Run.kinds] at hkinds
        rw [← List.map_cons, ← hdrop, hlength, List.map_drop, hkinds, List.drop_left]
        rfl
      rw [← hleft]
      exact .refused hitems
    · exact nomatch h

/-- The result of a parse, if its tokens and its moves are read within `steps` steps. -/
def parseWithin (steps : Nat) (text : List Char) (options : ParseOptions) :
    Option (Except Error (List Graph)) :=
  ((Cursor.atStart (Lexer.dropMark text)).readWithin steps).bind fun run =>
    (Parser.State.feedWithin options.maxDepth steps (.graph (.nextGraph [] .top)) run.kinds).bind
      fun outcome => outcome.result? run

theorem parse_eq_of_within {source : String} {options : ParseOptions} {text : List Char}
    {result : Except Error (List Graph)} (steps : Nat) (htext : source.toList = text)
    (h : parseWithin steps text options = some result) : parse source options = result := by
  obtain ⟨run, hrun, h⟩ := Option.bind_eq_some_iff.1 h
  obtain ⟨outcome, houtcome, h⟩ := Option.bind_eq_some_iff.1 h
  have hexplains := parse_explains source options
  rw [Lexer.run_eq_of_within htext hrun] at hexplains
  rw [← Parser.State.feed_eq_of_within houtcome] at h
  exact hexplains.unique (Parser.Outcome.explains_of_result? h)

/-- A text that is given is parsed by computation. -/
example : parse "graph\x7ba--1//\x7d" ⟨0⟩ =
    .error (.grammatical ⟨["'\x7d'"], "end of input", ⟨1, 14⟩⟩) :=
  parse_eq_of_within 20 rfl rfl

end DotLang
