import DotLang.Graph.Keywords
import DotLang.Parser.State

/-!
# The grammar, one token at a time

`State.step` is the grammar of the language. It looks at one token and either takes it, or moves
on without taking it, or refuses it.

```text
graphs   = graph+ end
graph    = [strict] (graph | digraph) [id] body
body     = '{' (stmt | ';')* '}'
stmt     = id '=' id | node group* | endpoint (arrow endpoint)+ group*
         | (graph | node | edge) group+ | subgraph
group    = '[' (id '=' id [';' | ','])* ']'
endpoint = node | subgraph
node     = id [':' id [':' id]]
subgraph = [subgraph [id]] body
id       = identifier | number | html | string ('+' string)*
```

* `State.rank_of_pass`: moving on without a token comes to an end.
* `State.ne_eof_of_shift`: the end of input is never taken.
-/

namespace DotLang.Parser

/-- What could stand at a place. -/
inductive Expectation where
  | identifier
  | attributeName
  | string
  | symbol (symbol : Symbol)
  | keyword (word : Keyword)
  /-- No further subgraph: this many are open, and no more may be. -/
  | nesting (limit : Nat)
deriving DecidableEq

/-- How a message names what could stand at a place. -/
def Expectation.describe : Expectation → String
  | identifier => "identifier"
  | attributeName => "attribute name"
  | string => "string"
  | symbol s => s.quoted
  | keyword word => "'" ++ word.name ++ "'"
  | nesting limit => "at most " ++ toString limit ++ " nested subgraphs"

/-- What a state does about a token. -/
inductive Move (goal : Construct) where
  /-- Takes the token. -/
  | shift (next : State goal)
  /-- Moves on before the token. -/
  | pass (next : State goal)
  /-- Stops before the token, with the goal read. -/
  | finish (value : goal.Value)
  /-- Refuses the token. -/
  | reject (expected : List Expectation)

namespace State

variable {goal : Construct}

/-- Takes the symbol `s` and nothing else. -/
def expect (s : Symbol) (next : State goal) (kind : TokenKind) : Move goal :=
  if kind = .symbol s then .shift next else .reject [.symbol s]

/-- What a state does about a token, with at most `maxDepth` subgraphs open. -/
def step (maxDepth : Nat) : State goal → TokenKind → Move goal
  | done value, _ => .finish value
  | moreGraphs before slot, kind =>
    if kind = .eof then .pass (slot.fill before.reverse)
    else .pass (.graph (.nextGraph before slot))
  | graph slot, kind =>
    if kind = .keyword .strict then .shift (.strictGraph slot)
    else
      match kind.graphKind? with
      | some k => .shift (.graphName k false slot)
      | none => .reject [.keyword .strict, .keyword .graph, .keyword .digraph]
  | strictGraph slot, kind =>
    match kind.graphKind? with
    | some k => .shift (.graphName k true slot)
    | none => .reject [.keyword .graph, .keyword .digraph]
  | graphName k strict slot, kind =>
    if kind.startsId then .pass (.id (.graphName k strict slot))
    else .pass (.openGraph ⟨k, strict, none⟩ slot)
  | openGraph head slot, kind => expect .openBrace (.body [] (.graphBody head slot)) kind
  | body before slot, kind =>
    if kind = .symbol .semicolon then .shift (.body before slot)
    else if kind = .symbol .closeBrace then .shift (slot.fill before.reverse)
    else if kind = .eof then .reject [.symbol .closeBrace]
    else .pass (.stmt (.nextStmt before slot))
  | stmt slot, kind =>
    match kind.target? with
    | some t => .shift (.target t slot)
    | none =>
      if kind.startsSubgraph then .pass (.subgraph (.firstSubgraph slot))
      else if kind.startsId then .pass (.id (.firstId slot))
      else
        .reject [.identifier, .symbol .openBrace, .symbol .closeBrace, .keyword .graph,
          .keyword .node, .keyword .edge, .keyword .subgraph]
  | target t slot, kind => expect .openBracket (.group [] (.targetAttributes t slot)) kind
  | afterId i slot, kind =>
    if kind = .symbol .equal then .shift (.id (.assigned i slot))
    else .pass (.nodeId i (.firstNode slot))
  | afterNode node slot, kind =>
    if kind.isArrow then .shift (.endpoint [.node node] (.edgeStmt slot))
    else .pass (.attributes [] (.nodeAttributes node slot))
  | afterSubgraph g slot, kind =>
    if kind.isArrow then .shift (.endpoint [.subgraph g] (.edgeStmt slot))
    else .pass (slot.fill (.subgraph g))
  | edge endpoints slot, kind =>
    if kind.isArrow then .shift (.endpoint endpoints slot)
    else .pass (.attributes [] (.edgeAttributes endpoints slot))
  | endpoint before slot, kind =>
    if kind.startsSubgraph then .pass (.subgraph (.nextSubgraph before slot))
    else if kind.startsId then .pass (.id (.nextId before slot))
    else .reject [.identifier, .symbol .openBrace, .keyword .subgraph]
  | subgraph slot, kind =>
    if maxDepth ≤ slot.depth then .reject [.nesting maxDepth]
    else if kind = .keyword .subgraph then .shift (.subgraphName slot)
    else .pass (.openSubgraph none slot)
  | subgraphName slot, kind =>
    if kind.startsId then .pass (.id (.subgraphName slot)) else .pass (.openSubgraph none slot)
  | openSubgraph i slot, kind => expect .openBrace (.body [] (.subgraphBody i slot)) kind
  | nodeId i slot, kind =>
    if kind = .symbol .colon then .shift (.id (.port i slot)) else .pass (slot.fill ⟨i, none⟩)
  | afterPort i port slot, kind =>
    if kind = .symbol .colon then .shift (.id (.compass i port slot))
    else .pass (slot.fill ⟨i, some ⟨port, none⟩⟩)
  | attributes before slot, kind =>
    if kind = .symbol .openBracket then .shift (.group before slot)
    else .pass (slot.fill before.reverse)
  | group before slot, kind =>
    if kind = .symbol .closeBracket then .shift (.attributes before slot)
    else if kind.startsId then .pass (.id (.attributeKey before slot))
    else .reject [.attributeName, .symbol .closeBracket]
  | equals before key slot, kind => expect .equal (.id (.attributeValue before key slot)) kind
  | separator before slot, kind =>
    if kind = .symbol .semicolon || kind = .symbol .comma then .shift (.group before slot)
    else .pass (.group before slot)
  | id slot, kind =>
    match kind with
    | .identifier text => .shift (slot.fill (.name text))
    | .number value => .shift (slot.fill (.number value))
    | .html text => .shift (slot.fill (.html text))
    | .string value => .shift (.string value slot)
    | _ => .reject [.identifier]
  | string value slot, kind =>
    if kind = .symbol .plus then .shift (.plus value slot) else .pass (slot.fill (.name value))
  | plus value slot, kind =>
    match kind with
    | .string more => .shift (.string (value ++ more) slot)
    | _ => .reject [.string]

/-! ## Moving on comes to an end -/

/-- How far a state is from taking or refusing a token. -/
def rank : State goal → Nat
  | done _ => 0
  | graph _ => 0
  | strictGraph _ => 0
  | openGraph _ _ => 0
  | openSubgraph _ _ => 0
  | target _ _ => 0
  | equals _ _ _ => 0
  | id _ => 0
  | plus _ _ => 0
  | graphName _ _ _ => 1
  | moreGraphs _ _ => 1
  | subgraph _ => 1
  | subgraphName _ => 1
  | group _ _ => 1
  | separator _ _ => 2
  | stmt _ => 2
  | endpoint _ _ => 2
  | body _ _ => 3
  | attributes _ _ => 4
  | edge _ _ => 5
  | afterNode _ _ => 6
  | afterSubgraph _ _ => 6
  | nodeId _ _ => 7
  | afterPort _ _ _ => 7
  | afterId _ _ => 8
  | string _ _ => 9

/-- The greatest rank behind a construct. -/
def rankBehind : Construct → Nat
  | .id => 8
  | .nodeId => 6
  | .attributes => 3
  | .edge => 3
  | .stmt => 3
  | .body => 6
  | .subgraph => 6
  | .graph => 1
  | .graphs => 0

theorem rank_fill_le {c : Construct} (slot : Slot goal c) (value : c.Value) :
    (slot.fill value).rank ≤ rankBehind c := by
  induction slot with
  | graphBody head slot ih => exact Nat.le_trans (ih _) (by decide)
  | subgraphBody id slot ih => exact ih _
  | assigned key slot ih => exact Nat.le_trans (ih _) (by decide)
  | nodeAttributes node slot ih => exact ih _
  | targetAttributes target slot ih => exact ih _
  | edgeStmt slot ih => exact ih _
  | edgeAttributes endpoints slot ih => exact ih _
  | compass id port slot ih => exact Nat.le_trans (ih _) (by decide)
  | _ => simp [Slot.fill, rank, rankBehind]

theorem rank_fill_lt {c : Construct} (slot : Slot goal c) (value : c.Value) {n : Nat}
    (h : rankBehind c < n) : (slot.fill value).rank < n :=
  Nat.lt_of_le_of_lt (rank_fill_le slot value) h

theorem expect_ne_pass {s : Symbol} {next s' : State goal} {kind : TokenKind} :
    expect s next kind ≠ .pass s' := by
  unfold expect
  split <;> simp

/-- Moving on lowers the rank. -/
theorem rank_of_pass {maxDepth : Nat} {s s' : State goal} {kind : TokenKind}
    (h : s.step maxDepth kind = .pass s') : s'.rank < s.rank := by
  revert h
  fun_cases step maxDepth s kind <;> intro h
  all_goals first
    | exact absurd h expect_ne_pass
    | cases h <;> first
      | exact rank_fill_lt _ _ (Nat.le_of_ble_eq_true rfl)
      | simp [rank]

/-- The end of input is never taken. -/
theorem ne_eof_of_shift {maxDepth : Nat} {s s' : State goal} {kind : TokenKind}
    (h : s.step maxDepth kind = .shift s') : kind ≠ .eof := by
  rintro rfl
  cases s with
  | subgraph slot =>
    simp only [step, reduceCtorEq, if_false] at h
    split at h <;> simp at h
  | _ => simp [step, expect, TokenKind.graphKind?, TokenKind.target?, TokenKind.startsSubgraph,
      TokenKind.startsId, TokenKind.isArrow] at h

end State

end DotLang.Parser
