import DotLang.Proofs.Feed

/-!
# Graphs in front

What is done about a token does not depend on the graphs that are read already. They are kept and
stand in front of all that is read later.

* `State.step_behind`: a state with graphs in front does the same about a token.
* `State.feed_behind`: the same comes of any tokens.
-/

namespace DotLang.Parser

variable {maxDepth : Nat} {c : Construct} {gs : List Graph}

/-- The slot with the graphs `gs` in front of all others. -/
def Slot.behind (gs : List Graph) {c : Construct} : Slot .graphs c → Slot .graphs c
  | top => top
  | nextGraph before slot => nextGraph (before ++ gs.reverse) (slot.behind gs)
  | graphName kind strict slot => graphName kind strict (slot.behind gs)
  | graphBody head slot => graphBody head (slot.behind gs)
  | nextStmt before slot => nextStmt before (slot.behind gs)
  | firstId slot => firstId (slot.behind gs)
  | assigned key slot => assigned key (slot.behind gs)
  | firstNode slot => firstNode (slot.behind gs)
  | nodeAttributes node slot => nodeAttributes node (slot.behind gs)
  | targetAttributes target slot => targetAttributes target (slot.behind gs)
  | firstSubgraph slot => firstSubgraph (slot.behind gs)
  | edgeStmt slot => edgeStmt (slot.behind gs)
  | nextId before slot => nextId before (slot.behind gs)
  | nextNode before slot => nextNode before (slot.behind gs)
  | nextSubgraph before slot => nextSubgraph before (slot.behind gs)
  | edgeAttributes endpoints slot => edgeAttributes endpoints (slot.behind gs)
  | subgraphName slot => subgraphName (slot.behind gs)
  | subgraphBody id slot => subgraphBody id (slot.behind gs)
  | port id slot => port id (slot.behind gs)
  | compass id p slot => compass id p (slot.behind gs)
  | attributeKey before slot => attributeKey before (slot.behind gs)
  | attributeValue before key slot => attributeValue before key (slot.behind gs)

/-- The state with the graphs `gs` in front of all others. -/
def State.behind (gs : List Graph) : State .graphs → State .graphs
  | done value => done (gs ++ value)
  | moreGraphs before slot => moreGraphs (before ++ gs.reverse) (slot.behind gs)
  | graph slot => graph (slot.behind gs)
  | strictGraph slot => strictGraph (slot.behind gs)
  | graphName kind strict slot => graphName kind strict (slot.behind gs)
  | openGraph head slot => openGraph head (slot.behind gs)
  | body before slot => body before (slot.behind gs)
  | stmt slot => stmt (slot.behind gs)
  | target t slot => target t (slot.behind gs)
  | afterId i slot => afterId i (slot.behind gs)
  | afterNode node slot => afterNode node (slot.behind gs)
  | afterSubgraph g slot => afterSubgraph g (slot.behind gs)
  | edge endpoints slot => edge endpoints (slot.behind gs)
  | endpoint before slot => endpoint before (slot.behind gs)
  | subgraph slot => subgraph (slot.behind gs)
  | subgraphName slot => subgraphName (slot.behind gs)
  | openSubgraph i slot => openSubgraph i (slot.behind gs)
  | nodeId i slot => nodeId i (slot.behind gs)
  | afterPort i p slot => afterPort i p (slot.behind gs)
  | attributes before slot => attributes before (slot.behind gs)
  | group before slot => group before (slot.behind gs)
  | equals before key slot => equals before key (slot.behind gs)
  | separator before slot => separator before (slot.behind gs)
  | id slot => id (slot.behind gs)
  | string value slot => string value (slot.behind gs)
  | plus value slot => plus value (slot.behind gs)

def Move.behind (gs : List Graph) : Move .graphs → Move .graphs
  | shift next => shift (next.behind gs)
  | pass next => pass (next.behind gs)
  | finish value => finish (gs ++ value)
  | reject expected => reject expected

def Outcome.behind (gs : List Graph) : Outcome .graphs → Outcome .graphs
  | waiting s => waiting (s.behind gs)
  | finished value left => finished (gs ++ value) left
  | refused expected left => refused expected left

@[simp] theorem Slot.depth_behind (slot : Slot .graphs c) : (slot.behind gs).depth = slot.depth := by
  induction slot with
  | top => rfl
  | subgraphBody id slot ih => exact congrArg (· + 1) ih
  | _ => rename_i ih; exact ih

namespace State

theorem fill_behind (hc : c ≠ .graphs) (slot : Slot .graphs c) (value : c.Value) :
    (slot.behind gs).fill value = (slot.fill value).behind gs := by
  induction slot with
  | top => exact absurd rfl hc
  | graphBody head slot ih => exact ih (by decide) _
  | assigned key slot ih => exact ih (by decide) _
  | nodeAttributes node slot ih => exact ih (by decide) _
  | targetAttributes t slot ih => exact ih (by decide) _
  | edgeStmt slot ih => exact ih (by decide) _
  | edgeAttributes es slot ih => exact ih (by decide) _
  | subgraphBody i slot ih => exact ih (by decide) _
  | compass i p slot ih => exact ih (by decide) _
  | _ => rfl

/-- All graphs together are those in front and the others. -/
theorem fill_behind_graphs (slot : Slot .graphs .graphs) (before : List Graph) :
    (slot.behind gs).fill (before ++ gs.reverse).reverse = (slot.fill before.reverse).behind gs :=
  match slot with
  | .top => by
    rw [List.reverse_append, List.reverse_reverse]
    rfl

theorem expect_behind (sym : Symbol) (next : State .graphs) (kind : TokenKind) :
    expect sym (next.behind gs) kind = (expect sym next kind).behind gs := by
  unfold expect
  split <;> rfl

/-- A state with graphs in front does the same about a token. -/
theorem step_behind (s : State .graphs) (kind : TokenKind) :
    (s.behind gs).step maxDepth kind = (s.step maxDepth kind).behind gs := by
  fun_cases step maxDepth s kind
  all_goals
    simp only [State.behind, step, Slot.depth_behind, *, if_true, if_false]
    first
      | rfl
      | exact congrArg Move.shift (fill_behind (by decide) _ _)
      | exact congrArg Move.pass (fill_behind (by decide) _ _)
      | exact congrArg Move.pass (fill_behind_graphs _ _)
      | (rw [← expect_behind]; rfl)

/-- With graphs in front the same comes of any tokens. -/
theorem feed_behind (s : State .graphs) (kinds : List TokenKind) :
    (s.behind gs).feed maxDepth kinds = (s.feed maxDepth kinds).behind gs := by
  fun_induction feed maxDepth s kinds with
  | case1 s => exact feed_nil
  | case2 s kind kinds next hstep ih =>
    have hbehind : (s.behind gs).step maxDepth kind = .shift (next.behind gs) := by
      rw [step_behind, hstep]
      rfl
    rw [feed_of_shift hbehind, ih]
  | case3 s kind kinds next hstep ih =>
    have hbehind : (s.behind gs).step maxDepth kind = .pass (next.behind gs) := by
      rw [step_behind, hstep]
      rfl
    rw [feed_of_pass hbehind, ih]
  | case4 s kind kinds value hstep =>
    have hbehind : (s.behind gs).step maxDepth kind = .finish (gs ++ value) := by
      rw [step_behind, hstep]
      rfl
    exact feed_of_finish hbehind
  | case5 s kind kinds expected hstep =>
    have hbehind : (s.behind gs).step maxDepth kind = .reject expected := by
      rw [step_behind, hstep]
      rfl
    exact feed_of_reject hbehind

end State

end DotLang.Parser
