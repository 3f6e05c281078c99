import DotLang.Parser
import DotLang.Proofs.LexerCalls

/-!
# What stands where something is reported

A token stands where it is reported: the text has its first character at this place. A malformed
token stands there with the character that its fault tells, and the end of input stands behind the
last character. None of these characters is a line feed. A parser keeps this of the token that it
looks at, so it holds of what the parser reports.

* `Position.Shows`: what a text has at a place.
* `Cursor.finds_next`: what the next reading reports stands at its place.
* `Parser.Placed`: the invariant of a parser.
* `Parser.accurate_run`, `accurate_of_parse`: what a parser reports stands at its place.
-/

namespace DotLang

/-- At the place `p` of a text there stands a character other than a line feed or, at the end of the
text, nothing. -/
def Position.Shows (p : Position) (text : List Char) (first? : Option Char) : Prop :=
  ∃ before rest, text = before ++ rest ∧ p = Position.start.after before ∧
    rest.head? = first? ∧ first? ≠ some '\n'

/-! ## First characters -/

/-- The first character of a malformed token. -/
def LexFault.first? : LexFault → Option Char
  | unterminatedString => some '"'
  | unterminatedComment => some '/'
  | unterminatedHtml => some '<'
  | unexpectedChar c => some c
  | invalidNumber text => text.toList.head?

/-- The first character of a token. The end of input has none. -/
def Token.first? (token : Token) : Option Char := token.text.toList.head?

theorem LexFault.Begins.first?_eq {fault : LexFault} {input : List Char} (h : fault.Begins input) :
    input.head? = fault.first? := by
  cases h with
  | numeral _ _ htext => rw [first?, String.toList_ofList, List.head?_append_of_ne_nil _ htext]
  | _ => rfl

namespace Cursor

/-- A reading of a cursor stands at its place, behind some text of the rest. -/
structure Finds (c : Cursor) (p : Position) (first? : Option Char) : Prop where
  exists_gap : ∃ gap rest, c.rest = gap ++ rest ∧ p = c.pos.after gap ∧ rest.head? = first?
  ne_feed : first? ≠ some '\n'

theorem Finds.of_skip {c : Cursor} {text rest : List Char} {p : Position} {first? : Option Char}
    (hrest : c.rest = text ++ rest) (h : (c.skip text rest).Finds p first?) :
    c.Finds p first? := by
  obtain ⟨⟨gap, more, hmore, hp, hfirst⟩, hne⟩ := h
  rw [rest_skip] at hmore
  refine ⟨⟨text ++ gap, more, ?_, ?_, hfirst⟩, hne⟩
  · rw [hrest, hmore, List.append_assoc]
  · rw [hp, pos_skip_after]

/-- What is read without passing anything. -/
theorem Finds.here {c : Cursor} {first? : Option Char} (hfirst : c.rest.head? = first?)
    (hne : c.rest.head? ≠ some '\n') : c.Finds c.pos first? :=
  ⟨⟨[], c.rest, rfl, rfl, hfirst⟩, hfirst ▸ hne⟩

/-- A line feed is a blank, so none stands where nothing is passed. -/
theorem ne_feed_of_absent {lineStart : Bool} {input : List Char}
    (h : Trivia.head lineStart input = .absent) : input.head? ≠ some '\n' := by
  intro hhead
  cases input with
  | nil => exact nomatch hhead
  | cons c input =>
    obtain rfl := Option.some.inj hhead
    rw [Trivia.head_blank (by decide)] at h
    exact nomatch h

/-- The next token stands at its place, and so does a malformed one. -/
theorem finds_next (c : Cursor) :
    (∀ token, c.next.1 = .ok token → c.Finds token.pos token.first?) ∧
      ∀ e, c.next.1 = .error e → c.Finds e.pos e.fault.first? := by
  fun_induction next c with
  | case1 c text rest hhead ih =>
    have hrest := (Trivia.append_of_head hhead).symm
    exact ⟨fun token h => (ih.1 token h).of_skip hrest, fun e h => (ih.2 e h).of_skip hrest⟩
  | case2 c hhead =>
    constructor
    · rintro _ ⟨⟩
    · rintro _ ⟨rfl⟩
      obtain ⟨tail, hrest, htail⟩ := Trivia.head_eq_unclosed_iff.1 hhead
      have hslash : c.rest.head? = some '/' := by rw [hrest, List.head?_cons]
      refine .here hslash ?_
      rw [hslash]
      decide
  | case3 c hhead hrest =>
    constructor
    · rintro _ ⟨rfl⟩
      have hnone : c.rest.head? = none := by rw [hrest, List.head?_nil]
      refine .here hnone ?_
      simp [hnone]
    · rintro _ ⟨⟩
  | case4 c hhead first input hrest kind text rest hscan =>
    constructor
    · rintro _ ⟨rfl⟩
      have happend := Lexeme.append_scan first input
      rw [hscan, ← hrest] at happend
      have hne : text ≠ [] := Lexeme.ne_nil_of_scan hscan
      refine .here ?_ (ne_feed_of_absent hhead)
      rw [← happend, Token.first?, String.toList_ofList]
      exact List.head?_append_of_ne_nil text hne
    · rintro _ ⟨⟩
  | case5 c hhead first input hrest fault text rest hscan =>
    constructor
    · rintro _ ⟨⟩
    · rintro _ ⟨rfl⟩
      refine .here ?_ (ne_feed_of_absent hhead)
      rw [hrest]
      exact (Lexeme.begins_of_scan hscan).first?_eq

end Cursor

/-! ## Tokens and errors -/

/-- What a placed lexer finds stands in the source. -/
theorem Lexer.Placed.shows {source : String} {l : Lexer} {p : Position} {first? : Option Char}
    (h : l.Placed source) (hfinds : l.cursor.Finds p first?) :
    p.Shows (Lexer.dropMark source.toList) first? := by
  obtain ⟨hsource, before, hbefore, hpos⟩ := h
  obtain ⟨⟨gap, rest, hrest, hp, hfirst⟩, hne⟩ := hfinds
  refine ⟨before ++ gap, rest, ?_, ?_, hfirst, hne⟩
  · rw [← hsource, hbefore, hrest, List.append_assoc]
  · rw [hp, hpos, Position.after_append]

/-- A token stands at its place, and only the end of input has no first character. -/
structure Token.StandsIn (source : String) (token : Token) : Prop where
  shows : token.pos.Shows (Lexer.dropMark source.toList) token.first?
  eof_iff : token.kind = .eof ↔ token.first? = none

/-- A malformed token stands at its place. -/
structure LexError.StandsIn (source : String) (e : LexError) : Prop where
  shows : e.pos.Shows (Lexer.dropMark source.toList) e.fault.first?
  ne_none : e.fault.first? ≠ none

theorem Lexer.Placed.standsIn_token {source : String} {l : Lexer} {token : Token}
    (h : l.Placed source) (hnext : l.cursor.next.1 = .ok token) : token.StandsIn source := by
  refine ⟨h.shows (l.cursor.finds_next.1 token hnext), ?_⟩
  have hreads := l.cursor.next_reads
  rw [hnext] at hreads
  obtain ⟨gap, -, -, -, hkind⟩ := hreads.of_ok
  rcases hkind with ⟨hkind, htext, -⟩ | hspell
  · rw [Token.first?, htext]
    exact ⟨fun _ => rfl, fun _ => hkind⟩
  · have hsome : token.first? ≠ none := by
      rw [Token.first?, ne_eq, List.head?_eq_none_iff]
      exact hspell.ne_nil
    exact ⟨fun hkind => absurd hkind hspell.ne_eof, fun hnone => absurd hnone hsome⟩

theorem Lexer.Placed.standsIn_error {source : String} {l : Lexer} {e : LexError}
    (h : l.Placed source) (hnext : l.cursor.next.1 = .error e) : e.StandsIn source := by
  refine ⟨h.shows (l.cursor.finds_next.2 e hnext), ?_⟩
  have hreads := l.cursor.next_reads
  rw [hnext] at hreads
  obtain ⟨gap, rest, -, -, -, hbegins⟩ := hreads.of_error
  rw [← hbegins.first?_eq, ne_eq, List.head?_eq_none_iff]
  exact hbegins.ne_nil

/-- What an error reports stands in the source. An error of the grammar reports `current`. -/
def Error.Accurate (source : String) (current : Token) : Error → Prop
  | .lexical e => e.StandsIn source
  | .grammatical e =>
    e.found = current.kind.describe ∧ e.pos = current.pos ∧ current.StandsIn source

/-! ## Parsers -/

namespace Parser

variable {source : String} {p p' : Parser} {e : Error}

/-- The lexer is placed in the source, and the token that is looked at stands there. -/
structure Placed (source : String) (p : Parser) : Prop where
  lexer : p.lexer.Placed source
  current : p.current.StandsIn source

/-- Looking at the next token needs a placed lexer only. -/
theorem placed_of_lex (h : p.lexer.Placed source) (hlex : p.lex = (.ok (), p')) :
    p'.Placed source := by
  unfold lex at hlex
  split at hlex
  · rename_i token lexer hnext
    obtain ⟨-, rfl⟩ := Prod.mk.inj hlex
    obtain ⟨hresult, rfl⟩ := Prod.mk.inj hnext
    exact ⟨h.call .next, h.standsIn_token hresult⟩
  · exact nomatch hlex

theorem accurate_of_lex (h : p.lexer.Placed source) (hlex : p.lex = (.error e, p')) :
    e.Accurate source p'.current := by
  unfold lex at hlex
  split at hlex
  · exact nomatch hlex
  · rename_i e' lexer hnext
    obtain ⟨he, -⟩ := Prod.mk.inj hlex
    obtain rfl := Except.error.inj he
    exact h.standsIn_error (Prod.mk.inj hnext).1

/-- What a parser reports stands at its place. -/
theorem accurate_run {goal : Construct} (h : p.Placed source) (s : State goal)
    (hrun : (p.run s).1 = .error e) : e.Accurate source (p.run s).2.current := by
  fun_induction run p s with
  | case1 => exact nomatch hrun
  | case2 p s expected hstep =>
    obtain rfl := Except.error.inj hrun
    exact ⟨rfl, rfl, h.current⟩
  | case3 p s next hstep ih => exact ih h hrun
  | case4 p s next hstep e' p' hlex =>
    obtain rfl := Except.error.inj hrun
    exact accurate_of_lex h.lexer hlex
  | case5 p s next hstep p' hlex ih => exact ih (placed_of_lex h.lexer hlex) hrun

end Parser

/-- What a parse reports stands at its place. -/
theorem accurate_of_parse {source : String} {options : ParseOptions} {e : Error}
    (h : parse source options = .error e) :
    e.Accurate source (Parser.ofString source options).readGraphs.2.current := by
  have hstart : (Lexer.ofString source).reset.Placed source := Lexer.placed_atStart rfl rfl
  unfold parse at h
  unfold Parser.readGraphs at h ⊢
  split at h
  · rename_i e' p' hlex
    obtain rfl := Except.error.inj h
    exact Parser.accurate_of_lex hstart hlex
  · rename_i p' hlex
    exact Parser.accurate_run (Parser.placed_of_lex hstart hlex) _ h

end DotLang
