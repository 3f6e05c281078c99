import DotLang.Proofs.Soundness

/-!
# Open braces

In a text the subgraphs that are open can be counted: there is an open brace for each of them and
one for the graph around them. `State.braces` is the number of braces that a state has still to
close.

* `State.count_of_feed`: it is the number of braces that are opened and not closed again.
* `Slot.braces_eq`: inside a graph there is one more than there are open subgraphs.
* `Slot.depth_le_of_mem_before`: no more subgraphs are open than may be.
-/

namespace DotLang.Parser

open Grammar

variable {goal c : Construct} {maxDepth : Nat}

/-- The number of braces that are open around a slot. -/
def Slot.braces {c : Construct} : Slot goal c → Nat
  | top => 0
  | graphBody _ slot => slot.braces + 1
  | subgraphBody _ slot => slot.braces + 1
  | nextGraph _ slot => slot.braces
  | graphName _ _ slot => slot.braces
  | nextStmt _ slot => slot.braces
  | firstId slot | assigned _ slot | firstNode slot => slot.braces
  | nodeAttributes _ slot | targetAttributes _ slot => slot.braces
  | firstSubgraph slot | edgeStmt slot => slot.braces
  | nextId _ slot | nextNode _ slot | nextSubgraph _ slot | edgeAttributes _ slot => slot.braces
  | subgraphName slot => slot.braces
  | port _ slot | compass _ _ slot => slot.braces
  | attributeKey _ slot | attributeValue _ _ slot => slot.braces

/-- The number of braces that are open around a state. -/
def State.braces : State goal → Nat
  | done _ => 0
  | moreGraphs _ slot => slot.braces
  | graph slot | strictGraph slot | graphName _ _ slot | openGraph _ slot => slot.braces
  | body _ slot => slot.braces
  | stmt slot | target _ slot | afterId _ slot | afterNode _ slot | afterSubgraph _ slot =>
    slot.braces
  | edge _ slot | endpoint _ slot => slot.braces
  | subgraph slot | subgraphName slot | openSubgraph _ slot => slot.braces
  | nodeId _ slot | afterPort _ _ slot => slot.braces
  | attributes _ slot | group _ slot | equals _ _ slot | separator _ slot => slot.braces
  | id slot | string _ slot | plus _ slot => slot.braces

/-! ## Open subgraphs -/

namespace Slot

theorem depth_graph (slot : Slot .graphs .graph) : slot.depth = 0 ∧ slot.braces = 0 :=
  match slot with
  | .nextGraph _ .top => ⟨rfl, rfl⟩

/-- Inside a graph one brace is open for each subgraph, and one for the graph. -/
theorem braces_eq (slot : Slot .graphs c) (hc : c ∉ [.id, .graph, .graphs]) :
    slot.braces = slot.depth + 1 := by
  induction slot with
  | graphBody head slot ih => rw [braces, depth, slot.depth_graph.1, slot.depth_graph.2]
  | subgraphBody i slot ih => rw [braces, depth, ih (by decide)]
  | nextStmt before slot ih => exact ih (by decide)
  | firstNode slot ih => exact ih (by decide)
  | nodeAttributes node slot ih => exact ih (by decide)
  | targetAttributes t slot ih => exact ih (by decide)
  | firstSubgraph slot ih => exact ih (by decide)
  | edgeStmt slot ih => exact ih (by decide)
  | nextNode before slot ih => exact ih (by decide)
  | nextSubgraph before slot ih => exact ih (by decide)
  | edgeAttributes es slot ih => exact ih (by decide)
  | _ => exact absurd hc (by decide)

theorem braces_subgraph (slot : Slot .graphs .subgraph) : slot.braces = slot.depth + 1 :=
  slot.braces_eq (by decide)

/-- Tokens stand in front of a slot only if there is room for the subgraphs around it. -/
theorem depth_le_of_mem_before {slot : Slot goal c} {ks : List TokenKind}
    (h : ks ∈ slot.before maxDepth) : slot.depth ≤ maxDepth := by
  induction slot generalizing ks with
  | top => exact Nat.zero_le _
  | subgraphBody i slot ih =>
    obtain ⟨_, hks, _, ⟨_, hhead, -⟩, -⟩ := h
    -- the head of a subgraph says that there is room for it
    have hroom : 0 < slot.room maxDepth := by
      generalize slot.room maxDepth = room at hhead
      cases hhead <;> exact Nat.succ_pos _
    exact Nat.lt_of_sub_pos hroom
  | firstId slot ih => exact ih h
  | firstNode slot ih => exact ih h
  | firstSubgraph slot ih => exact ih h
  | edgeStmt slot ih => exact ih h
  | _ =>
    rename_i ih
    obtain ⟨_, hks, -⟩ := h
    exact ih hks

end Slot

/-! ## Counting braces -/

namespace State

theorem braces_fill {slot : Slot goal c} (value : c.Value) (hc : c ≠ .body) :
    (slot.fill value).braces = slot.braces := by
  induction slot with
  | graphBody head slot ih => exact absurd rfl hc
  | subgraphBody i slot ih => exact absurd rfl hc
  | assigned key slot ih => exact ih _ (by decide)
  | nodeAttributes node slot ih => exact ih _ (by decide)
  | targetAttributes t slot ih => exact ih _ (by decide)
  | edgeStmt slot ih => exact ih _ (by decide)
  | edgeAttributes es slot ih => exact ih _ (by decide)
  | compass i p slot ih => exact ih _ (by decide)
  | _ => rfl

/-- Behind a body one brace less is open. -/
theorem braces_fill_body {slot : Slot .graphs .body} (body : List Stmt) :
    (slot.fill body).braces + 1 = slot.braces := by
  cases slot with
  | graphBody head slot => rw [Slot.fill, braces_fill _ (by decide), Slot.braces]
  | subgraphBody i slot => rw [Slot.fill, braces_fill _ (by decide), Slot.braces]

/-- A token that is taken counts if it is a brace. -/
theorem Shifts.braces_eq {s s' : State .graphs} {kind : TokenKind} (h : Shifts maxDepth s kind s') :
    s'.braces + [kind].count (.symbol .closeBrace) =
      s.braces + [kind].count (.symbol .openBrace) := by
  cases h with
  | openGraph => rfl
  | openSubgraph => rfl
  | closeBody => exact braces_fill_body _
  | graphWord hk => cases kind <;> first | rfl | exact nomatch hk
  | strictGraphWord hk => cases kind <;> first | rfl | exact nomatch hk
  | target ht => cases kind <;> first | rfl | exact nomatch ht
  | nodeArrow hk => cases kind <;> first | rfl | exact nomatch hk
  | subgraphArrow hk => cases kind <;> first | rfl | exact nomatch hk
  | arrow hk => cases kind <;> first | rfl | exact nomatch hk
  | separate hsep => cases hsep <;> rfl
  | identifier => exact braces_fill _ (by decide)
  | number => exact braces_fill _ (by decide)
  | html => exact braces_fill _ (by decide)
  | _ => rfl

theorem Passes.braces_eq {s s' : State .graphs} {kind : TokenKind} (h : Passes maxDepth s kind s') :
    s'.braces = s.braces := by
  cases h with
  | lastGraph => exact braces_fill _ (by decide)
  | subgraphStmt => exact braces_fill _ (by decide)
  | noPort => exact braces_fill _ (by decide)
  | noCompass => exact braces_fill _ (by decide)
  | lastGroup => exact braces_fill _ (by decide)
  | lastString => exact braces_fill _ (by decide)
  | _ => rfl

/-- The braces that are open behind some tokens are those that the tokens leave open. -/
theorem count_of_feed {s s' : State .graphs} {kinds : List TokenKind}
    (h : s.feed maxDepth kinds = .waiting s') :
    s'.braces + kinds.count (.symbol .closeBrace) =
      s.braces + kinds.count (.symbol .openBrace) := by
  fun_induction feed maxDepth s kinds with
  | case1 s =>
    obtain rfl := Outcome.waiting.inj h
    rfl
  | case2 s kind kinds next hstep ih =>
    have hkind := (Shifts.of_step hstep).braces_eq
    have hkinds := ih h
    rw [← List.singleton_append, List.count_append, List.count_append]
    omega
  | case3 s kind kinds next hstep ih =>
    rw [ih h, (Passes.of_step hstep).braces_eq]
  | case4 s kind kinds value hstep => cases h
  | case5 s kind kinds expected hstep => cases h

end State

end DotLang.Parser
