import DotLang.Proofs.Soundness

/-!
# What is read can be completed

A state is completable if whatever can stand in front of it can be made a text. The state in front
of a move is completable if the one behind it is, so a way from each place inside a construct to
the end of the construct is all that is needed; for what is around the construct there is an
induction on the slot. Only the place in front of a subgraph is left out: there may be no room for
another one, but no token has led there.

* `State.Shifts.completable_of`, `State.Passes.completable_of`: one move back.
* `Slot.completable`: a construct that is read can be completed.
* `State.completable_of_feed`: tokens that are taken are the beginning of a text.
-/

namespace DotLang.Parser

open Grammar

variable {maxDepth : Nat} {c : Construct}

/-- Whatever stands in front of the state can be made a text. -/
def State.Completable (maxDepth : Nat) (s : State .graphs) : Prop :=
  ∀ ks ∈ s.before maxDepth, ∃ more gs, DerivesGraphs maxDepth (ks ++ more) gs

/-- A text can go on behind any construct in the slot. -/
def Slot.Completable (maxDepth : Nat) (slot : Slot .graphs c) : Prop :=
  ∀ value, (slot.fill value).Completable maxDepth

namespace State

variable {s s' : State .graphs} {kind : TokenKind}

/-! ## One move back -/

theorem Shifts.completable_of (h : Shifts maxDepth s kind s') (hs' : s'.Completable maxDepth) :
    s.Completable maxDepth := by
  intro ks hks
  have htaken : ks ++ [kind] ∈ s'.before maxDepth :=
    h.before_mul_one_le (Language.append_mem_mul hks rfl)
  obtain ⟨more, gs, hgs⟩ := hs' _ htaken
  rw [List.append_assoc] at hgs
  exact ⟨kind :: more, gs, hgs⟩

theorem Passes.completable_of (h : Passes maxDepth s kind s') (hs' : s'.Completable maxDepth) :
    s.Completable maxDepth :=
  fun ks hks => hs' ks (h.before_le hks)

end State

/-! ## The way to the end of a construct

A token that is not needed for anything else is the end of input, in front of which everything
that may be left out is left out.
-/

namespace Slot

theorem Completable.id {slot : Slot .graphs .id} (h : slot.Completable maxDepth) :
    (State.id slot).Completable maxDepth := by
  have hshift : State.Shifts maxDepth (.id slot) (.identifier "") (slot.fill (.name "")) :=
    .identifier
  exact hshift.completable_of (h _)

theorem Completable.nodeId {slot : Slot .graphs .nodeId} (h : slot.Completable maxDepth) (i : Id) :
    (State.nodeId i slot).Completable maxDepth := by
  have hpass : State.Passes maxDepth (.nodeId i slot) .eof (slot.fill ⟨i, none⟩) := .noPort nofun
  exact hpass.completable_of (h _)

theorem Completable.afterPort {slot : Slot .graphs .nodeId} (h : slot.Completable maxDepth)
    (i p : Id) : (State.afterPort i p slot).Completable maxDepth := by
  have hpass : State.Passes maxDepth (.afterPort i p slot) .eof
      (slot.fill ⟨i, some ⟨p, none⟩⟩) := .noCompass nofun
  exact hpass.completable_of (h _)

theorem Completable.attributes {slot : Slot .graphs .attributes} (h : slot.Completable maxDepth)
    (as : List Attribute) : (State.attributes as slot).Completable maxDepth := by
  have hpass : State.Passes maxDepth (.attributes as slot) .eof (slot.fill as.reverse) :=
    .lastGroup nofun
  exact hpass.completable_of (h _)

theorem Completable.group {slot : Slot .graphs .attributes} (h : slot.Completable maxDepth)
    (as : List Attribute) : (State.group as slot).Completable maxDepth :=
  State.Shifts.closeGroup.completable_of (h.attributes as)

theorem Completable.separator {slot : Slot .graphs .attributes} (h : slot.Completable maxDepth)
    (as : List Attribute) : (State.separator as slot).Completable maxDepth :=
  (State.Shifts.separate .comma).completable_of (h.group as)

theorem Completable.equals {slot : Slot .graphs .attributes} (h : slot.Completable maxDepth)
    (as : List Attribute) (key : Id) : (State.equals as key slot).Completable maxDepth := by
  have hvalue : (Slot.attributeValue as key slot).Completable maxDepth := fun _ => h.separator _
  exact State.Shifts.equal.completable_of hvalue.id

theorem Completable.edge {slot : Slot .graphs .edge} (h : slot.Completable maxDepth)
    (es : List Endpoint) : (State.edge es slot).Completable maxDepth := by
  have hattributes : (Slot.edgeAttributes es slot).Completable maxDepth := fun _ => h _
  have hpass : State.Passes maxDepth (.edge es slot) .eof
      (.attributes [] (.edgeAttributes es slot)) := .edgeAttributes nofun
  exact hpass.completable_of (hattributes.attributes [])

theorem Completable.endpoint {slot : Slot .graphs .edge} (h : slot.Completable maxDepth)
    (es : List Endpoint) : (State.endpoint es slot).Completable maxDepth := by
  have hnode : (Slot.nextNode es slot).Completable maxDepth := fun _ => h.edge _
  have hid : (Slot.nextId es slot).Completable maxDepth := fun i => hnode.nodeId i
  have hpass : State.Passes maxDepth (.endpoint es slot) (.identifier "") (.id (.nextId es slot)) :=
    .nextId rfl
  exact hpass.completable_of hid.id

theorem Completable.afterNode {slot : Slot .graphs .stmt} (h : slot.Completable maxDepth)
    (node : NodeId) : (State.afterNode node slot).Completable maxDepth := by
  have hattributes : (Slot.nodeAttributes node slot).Completable maxDepth := fun _ => h _
  have hpass : State.Passes maxDepth (.afterNode node slot) .eof
      (.attributes [] (.nodeAttributes node slot)) := .nodeAttributes nofun
  exact hpass.completable_of (hattributes.attributes [])

theorem Completable.afterId {slot : Slot .graphs .stmt} (h : slot.Completable maxDepth) (i : Id) :
    (State.afterId i slot).Completable maxDepth := by
  have hnode : (Slot.firstNode slot).Completable maxDepth := fun _ => h.afterNode _
  have hpass : State.Passes maxDepth (.afterId i slot) .eof (.nodeId i (.firstNode slot)) :=
    .firstNode nofun
  exact hpass.completable_of (hnode.nodeId i)

theorem Completable.afterSubgraph {slot : Slot .graphs .stmt} (h : slot.Completable maxDepth)
    (g : Subgraph) : (State.afterSubgraph g slot).Completable maxDepth := by
  have hpass : State.Passes maxDepth (.afterSubgraph g slot) .eof (slot.fill (.subgraph g)) :=
    .subgraphStmt nofun
  exact hpass.completable_of (h _)

theorem Completable.stmt {slot : Slot .graphs .stmt} (h : slot.Completable maxDepth) :
    (State.stmt slot).Completable maxDepth := by
  have hid : (Slot.firstId slot).Completable maxDepth := fun i => h.afterId i
  have hpass : State.Passes maxDepth (.stmt slot) (.identifier "") (.id (.firstId slot)) :=
    .firstId rfl
  exact hpass.completable_of hid.id

theorem Completable.target {slot : Slot .graphs .stmt} (h : slot.Completable maxDepth)
    (t : AttributeTarget) : (State.target t slot).Completable maxDepth := by
  have hattributes : (Slot.targetAttributes t slot).Completable maxDepth := fun _ => h _
  exact State.Shifts.openTarget.completable_of (hattributes.group [])

theorem Completable.body {slot : Slot .graphs .body} (h : slot.Completable maxDepth)
    (b : List Stmt) : (State.body b slot).Completable maxDepth :=
  State.Shifts.closeBody.completable_of (h _)

theorem Completable.openSubgraph {slot : Slot .graphs .subgraph} (h : slot.Completable maxDepth)
    (i : Option Id) : (State.openSubgraph i slot).Completable maxDepth := by
  have hbody : (Slot.subgraphBody i slot).Completable maxDepth := fun _ => h _
  exact State.Shifts.openSubgraph.completable_of (hbody.body [])

theorem Completable.subgraphName {slot : Slot .graphs .subgraph} (h : slot.Completable maxDepth) :
    (State.subgraphName slot).Completable maxDepth := by
  have hpass : State.Passes maxDepth (.subgraphName slot) .eof (.openSubgraph none slot) :=
    .noSubgraphId nofun
  exact hpass.completable_of (h.openSubgraph none)

theorem Completable.openGraph {slot : Slot .graphs .graph} (h : slot.Completable maxDepth)
    (head : GraphHead) : (State.openGraph head slot).Completable maxDepth := by
  have hbody : (Slot.graphBody head slot).Completable maxDepth := fun _ => h _
  exact State.Shifts.openGraph.completable_of (hbody.body [])

theorem Completable.graphName {slot : Slot .graphs .graph} (h : slot.Completable maxDepth)
    (kind : GraphKind) (strict : Bool) : (State.graphName kind strict slot).Completable maxDepth := by
  have hpass : State.Passes maxDepth (.graphName kind strict slot) .eof
      (.openGraph ⟨kind, strict, none⟩ slot) := .noGraphId nofun
  exact hpass.completable_of (h.openGraph _)

theorem Completable.graph {slot : Slot .graphs .graph} (h : slot.Completable maxDepth) :
    (State.graph slot).Completable maxDepth := by
  have hshift : State.Shifts maxDepth (.graph slot) (.keyword .graph)
      (.graphName .undirected false slot) := .graphWord rfl
  exact hshift.completable_of (h.graphName _ _)

theorem Completable.strictGraph {slot : Slot .graphs .graph} (h : slot.Completable maxDepth) :
    (State.strictGraph slot).Completable maxDepth := by
  have hshift : State.Shifts maxDepth (.strictGraph slot) (.keyword .graph)
      (.graphName .undirected true slot) := .strictGraphWord rfl
  exact hshift.completable_of (h.graphName _ _)

theorem Completable.moreGraphs {slot : Slot .graphs .graphs} (h : slot.Completable maxDepth)
    (gs : List Graph) : (State.moreGraphs gs slot).Completable maxDepth :=
  State.Passes.lastGraph.completable_of (h _)

theorem Completable.string {slot : Slot .graphs .id} (h : slot.Completable maxDepth)
    (value : String) : (State.string value slot).Completable maxDepth := by
  have hpass : State.Passes maxDepth (.string value slot) .eof (slot.fill (.name value)) :=
    .lastString nofun
  exact hpass.completable_of (h _)

theorem Completable.plus {slot : Slot .graphs .id} (h : slot.Completable maxDepth)
    (value : String) : (State.plus value slot).Completable maxDepth := by
  have hshift : State.Shifts maxDepth (.plus value slot) (.string "")
      (.string (value ++ "") slot) := .nextString
  exact hshift.completable_of (h.string _)

/-- A construct that is read can be completed, whatever is around it. -/
theorem completable (slot : Slot .graphs c) : slot.Completable maxDepth := by
  induction slot with
  | top =>
    intro value ks hks
    exact ⟨[], value, by rwa [List.append_nil]⟩
  | nextGraph before slot ih => exact fun _ => ih.moreGraphs _
  | graphName kind strict slot ih => exact fun _ => ih.openGraph _
  | graphBody head slot ih => exact fun _ => ih _
  | nextStmt before slot ih => exact fun _ => ih.body _
  | firstId slot ih => exact fun i => ih.afterId i
  | assigned key slot ih => exact fun _ => ih _
  | firstNode slot ih => exact fun _ => ih.afterNode _
  | nodeAttributes node slot ih => exact fun _ => ih _
  | targetAttributes t slot ih => exact fun _ => ih _
  | firstSubgraph slot ih => exact fun _ => ih.afterSubgraph _
  | edgeStmt slot ih => exact fun _ => ih _
  | nextId before slot ih =>
    have hnode : (Slot.nextNode before slot).Completable maxDepth := fun _ => ih.edge _
    exact fun i => hnode.nodeId i
  | nextNode before slot ih => exact fun _ => ih.edge _
  | nextSubgraph before slot ih => exact fun _ => ih.edge _
  | edgeAttributes endpoints slot ih => exact fun _ => ih _
  | subgraphName slot ih => exact fun i => ih.openSubgraph _
  | subgraphBody i slot ih => exact fun _ => ih _
  | port i slot ih => exact fun _ => ih.afterPort _ _
  | compass i p slot ih => exact fun _ => ih _
  | attributeKey before slot ih => exact fun _ => ih.equals _ _
  | attributeValue before key slot ih => exact fun _ => ih.separator _

end Slot

namespace State

/-- Every state is completable but the one in front of a subgraph, which may find no room. -/
theorem completable {s : State .graphs} (hs : ∀ slot, s ≠ subgraph slot) :
    s.Completable maxDepth := by
  cases s with
  | done value => exact Slot.completable .top value
  | moreGraphs before slot => exact slot.completable.moreGraphs _
  | graph slot => exact slot.completable.graph
  | strictGraph slot => exact slot.completable.strictGraph
  | graphName kind strict slot => exact slot.completable.graphName _ _
  | openGraph head slot => exact slot.completable.openGraph _
  | body before slot => exact slot.completable.body _
  | stmt slot => exact slot.completable.stmt
  | target t slot => exact slot.completable.target _
  | afterId i slot => exact slot.completable.afterId _
  | afterNode node slot => exact slot.completable.afterNode _
  | afterSubgraph g slot => exact slot.completable.afterSubgraph _
  | edge endpoints slot => exact slot.completable.edge _
  | endpoint before slot => exact slot.completable.endpoint _
  | subgraph slot => exact absurd rfl (hs slot)
  | subgraphName slot => exact slot.completable.subgraphName
  | openSubgraph i slot => exact slot.completable.openSubgraph _
  | nodeId i slot => exact slot.completable.nodeId _
  | afterPort i p slot => exact slot.completable.afterPort _ _
  | attributes before slot => exact slot.completable.attributes _
  | group before slot => exact slot.completable.group _
  | equals before key slot => exact slot.completable.equals _ _
  | separator before slot => exact slot.completable.separator _
  | id slot => exact slot.completable.id
  | string value slot => exact slot.completable.string _
  | plus value slot => exact slot.completable.plus _

/-! ## No token leads in front of a subgraph -/

theorem fill_ne_subgraph {slot : Slot .graphs c} (value : c.Value) (slot' : Slot .graphs .subgraph) :
    slot.fill value ≠ subgraph slot' := by
  induction slot with
  | graphBody head slot ih => exact ih _
  | assigned key slot ih => exact ih _
  | nodeAttributes node slot ih => exact ih _
  | targetAttributes t slot ih => exact ih _
  | edgeStmt slot ih => exact ih _
  | edgeAttributes es slot ih => exact ih _
  | subgraphBody i slot ih => exact ih _
  | compass i p slot ih => exact ih _
  | _ => exact nofun

theorem Shifts.ne_subgraph {s s' : State .graphs} {kind : TokenKind}
    (h : Shifts maxDepth s kind s') (slot : Slot .graphs .subgraph) : s' ≠ subgraph slot := by
  cases h with
  | closeBody => exact fill_ne_subgraph _ _
  | identifier => exact fill_ne_subgraph _ _
  | number => exact fill_ne_subgraph _ _
  | html => exact fill_ne_subgraph _ _
  | _ => exact nofun

theorem ne_subgraph_of_feed {s s' : State .graphs} {kinds : List TokenKind}
    (h : s.feed maxDepth kinds = .waiting s') (hs : kinds ≠ [] ∨ ∀ slot, s ≠ subgraph slot)
    (slot : Slot .graphs .subgraph) : s' ≠ subgraph slot :=
  holds_of_feed (· ≠ subgraph slot) (fun _ _ _ hshift => hshift.ne_subgraph slot) h
    (hs.imp_right fun hs => hs slot)

/-- Tokens that are taken are the beginning of a text. -/
theorem completable_of_feed {s : State .graphs} {kinds : List TokenKind}
    (h : (graph (.nextGraph [] .top)).feed maxDepth kinds = .waiting s) :
    ∃ more gs, DerivesGraphs maxDepth (kinds ++ more) gs := by
  have hkinds : kinds ∈ s.before maxDepth := mem_before_of_feed h nil_mem_before_start
  exact completable (ne_subgraph_of_feed h (.inr fun _ => nofun)) kinds hkinds

end State

end DotLang.Parser
