import DotLang.Proofs.LexerCalls
import DotLang.Proofs.TokenSequence

/-!
# What a parser may be asked for

A parser may be asked for single constructs, for the next token and for the graphs of its text, in
any order and also behind errors. None of this changes the text or the options that it has.

* `Parser.call`, `Parser.afterCalls`: one call, and the parser behind any sequence of calls.
* `Parser.Kept.afterCalls`: a property that reading one token keeps stays with all calls.
* `Parser.serves_afterCalls`: the text and the options stay.
* `Parser.Serves.readGraphs_eq`: the graphs of the text are those of a first parse.
-/

namespace DotLang.Parser

variable {goal : Construct}

/-- A construct that can be asked for on its own. -/
inductive Request : Construct → Type where
  | id : Request .id
  /-- A node whose id is already read. -/
  | node (id : Id) : Request .nodeId
  | attributes : Request .attributes
  /-- An edge statement whose first endpoint is already read. -/
  | edge (first : Endpoint) : Request .edge
  | stmt : Request .stmt
  | body : Request .body
  | subgraph : Request .subgraph
  | graph : Request .graph

/-- Where the reading of a construct starts. -/
def Request.start : Request goal → State goal
  | id => .id .top
  | node i => .nodeId i .top
  | attributes => .attributes [] .top
  | edge first => .edge [first] .top
  | stmt => .stmt .top
  | body => .body [] .top
  | subgraph => .subgraph .top
  | graph => .graph .top

def read (p : Parser) : Request goal → Except Error goal.Value × Parser
  | .id => p.readId
  | .node i => p.readNode i
  | .attributes => p.readAttributes
  | .edge first => p.readEdge first
  | .stmt => p.readStmt
  | .body => p.readBody
  | .subgraph => p.readSubgraph
  | .graph => p.readGraph

theorem read_eq_run (p : Parser) (request : Request goal) :
    p.read request = p.run request.start := by
  cases request <;> rfl

/-- What a parser may be asked for. -/
inductive Call where
  /-- To look at the next token. -/
  | lex
  | read {goal : Construct} (request : Request goal)
  /-- The graphs of the whole text. -/
  | readGraphs

/-- What a call gives if it succeeds. -/
abbrev Call.Value : Call → Type
  | lex => Unit
  | @read goal _ => goal.Value
  | readGraphs => List Graph

def call (p : Parser) : (call : Call) → Except Error call.Value × Parser
  | .lex => p.lex
  | .read request => p.read request
  | .readGraphs => p.readGraphs

/-- The parser behind a sequence of calls. -/
def afterCalls (p : Parser) (calls : List Call) : Parser :=
  calls.foldl (fun p call => (p.call call).2) p

theorem afterCalls_concat (p : Parser) (calls : List Call) (call : Call) :
    p.afterCalls (calls ++ [call]) = ((p.afterCalls calls).call call).2 :=
  List.foldl_concat _ _ _ _

/-! ## One token -/

/-- The lexer reads once, whether or not it finds a token. -/
theorem lexer_lex (p : Parser) : p.lex.2.lexer = p.lexer.next.2 := by
  unfold lex
  split <;> rename_i hnext <;> rw [hnext]

theorem options_lex (p : Parser) : p.lex.2.options = p.options := options_of_lex rfl

/-- What is looked at next depends on the lexer, and on the token before only if there is none. -/
theorem lex_congr {p q : Parser} (hlexer : p.lexer = q.lexer) (hoptions : p.options = q.options) :
    (∃ e lexer, p.lex = (.error e, { p with lexer }) ∧ q.lex = (.error e, { q with lexer })) ∨
      ∃ p', p.lex = (.ok (), p') ∧ q.lex = (.ok (), p') := by
  unfold lex
  rw [hlexer, hoptions]
  rcases q.lexer.next with ⟨_ | token, lexer⟩
  · exact .inl ⟨_, lexer, rfl, rfl⟩
  · exact .inr ⟨_, rfl, rfl⟩

/-! ## Any number of calls -/

/-- A property that stays whenever the next token is looked at and whenever the lexer starts over. -/
structure Kept (P : Parser → Prop) : Prop where
  lex (p : Parser) : P p → P p.lex.2
  reset (p : Parser) : P p → P { p with lexer := p.lexer.reset }

namespace Kept

variable {P : Parser → Prop} {p : Parser}

theorem run (hkept : Kept P) (h : P p) (s : State goal) : P (p.run s).2 := by
  fun_induction Parser.run p s with
  | case1 => exact h
  | case2 => exact h
  | case3 p s next hstep ih => exact ih h
  | case4 p s next hstep e p' hlex =>
    have := hkept.lex p h
    rwa [hlex] at this
  | case5 p s next hstep p' hlex ih =>
    apply ih
    have := hkept.lex p h
    rwa [hlex] at this

theorem readGraphs (hkept : Kept P) (h : P p) : P p.readGraphs.2 := by
  have hlex := hkept.lex _ (hkept.reset p h)
  unfold Parser.readGraphs
  split <;> rename_i hnext <;> rw [hnext] at hlex
  · exact hlex
  · exact hkept.run hlex _

/-- Such a property stays with one call. -/
theorem call (hkept : Kept P) (h : P p) (call : Call) : P (p.call call).2 := by
  cases call with
  | lex => exact hkept.lex p h
  | read request =>
    show P (p.read request).2
    rw [read_eq_run]
    exact hkept.run h _
  | readGraphs => exact hkept.readGraphs h

/-- Such a property stays with any number of calls. -/
theorem afterCalls (hkept : Kept P) (h : P p) (calls : List Call) : P (p.afterCalls calls) := by
  induction calls using List.reverseRecOn with
  | nil => exact h
  | append_singleton calls call ih =>
    rw [afterCalls_concat]
    exact hkept.call ih call

end Kept

/-! ## The text and the options -/

/-- The parser reads the text of `source` under these options. -/
structure Serves (source : String) (options : ParseOptions) (p : Parser) : Prop where
  lexer : p.lexer.Placed source
  options_eq : p.options = options

variable {source : String} {options : ParseOptions} {p : Parser}

theorem serves_ofString (source : String) (options : ParseOptions) :
    (ofString source options).Serves source options :=
  ⟨Lexer.placed_atStart rfl rfl, rfl⟩

theorem Serves.source_eq (h : p.Serves source options) :
    p.lexer.source = Lexer.dropMark source.toList := h.lexer.source_eq

theorem Serves.lex (h : p.Serves source options) : p.lex.2.Serves source options := by
  refine ⟨?_, p.options_lex.trans h.options_eq⟩
  rw [lexer_lex]
  exact h.lexer.call .next

theorem Serves.reset (h : p.Serves source options) :
    Serves source options { p with lexer := p.lexer.reset } :=
  ⟨h.lexer.call .reset, h.options_eq⟩

/-- Whatever a parser is asked for, its text and its options stay. -/
theorem serves_afterCalls (source : String) (options : ParseOptions) (calls : List Call) :
    ((ofString source options).afterCalls calls).Serves source options :=
  Kept.afterCalls ⟨fun _ h => h.lex, fun _ h => h.reset⟩ (serves_ofString source options) calls

/-- Whatever a parser has read before, the graphs of its text are those of a first parse. -/
theorem Serves.readGraphs_eq (h : p.Serves source options) :
    p.readGraphs.1 = parse source options := by
  have hlexer : p.lexer.reset = (ofString source options).lexer.reset := by
    unfold Lexer.reset
    rw [h.source_eq]
    rfl
  unfold parse Parser.readGraphs
  rcases @lex_congr { p with lexer := p.lexer.reset }
    { ofString source options with lexer := (ofString source options).lexer.reset } hlexer
    h.options_eq with ⟨e, lexer, hp, hq⟩ | ⟨p', hp, hq⟩
  · rw [hp, hq]
  · rw [hp, hq]

end DotLang.Parser
