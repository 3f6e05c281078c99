import DotLang.Graph

/-!
# What a parse is doing

A parse reads one construct, its goal. While it reads a part of the goal, the unfinished
constructs around that part wait in a `Slot`, which says where the part goes and what has been
read so far. A `State` is the place inside the innermost construct, with its slot.

* `Slot.fill`: puts a finished construct into its slot, which gives the next state.
* `Slot.depth`: the number of subgraphs whose bodies are open around a slot.

Lists that are still growing are kept latest first.
-/

namespace DotLang.Parser

/-- The constructs that a parse reads, as a goal or as a part of one. -/
inductive Construct where
  | id
  | nodeId
  | attributes
  | edge
  | stmt
  | body
  | subgraph
  | graph
  | graphs
deriving DecidableEq

/-- What a construct stands for once it is read. -/
abbrev Construct.Value : Construct → Type
  | id => Id
  | nodeId => NodeId
  | attributes => List Attribute
  | edge => EdgeStmt
  | stmt => Stmt
  | body => List Stmt
  | subgraph => Subgraph
  | graph => Graph
  | graphs => List Graph

/-- Where a construct goes once it is read. -/
inductive Slot (goal : Construct) : Construct → Type where
  /-- It is the goal. -/
  | top : Slot goal goal
  /-- A graph behind others. -/
  | nextGraph (before : List Graph) (slot : Slot goal .graphs) : Slot goal .graph
  | graphName (kind : GraphKind) (strict : Bool) (slot : Slot goal .graph) : Slot goal .id
  | graphBody (head : GraphHead) (slot : Slot goal .graph) : Slot goal .body
  /-- A statement behind others. -/
  | nextStmt (before : List Stmt) (slot : Slot goal .body) : Slot goal .stmt
  /-- The id at the start of a statement. -/
  | firstId (slot : Slot goal .stmt) : Slot goal .id
  /-- The value of an assignment. -/
  | assigned (key : Id) (slot : Slot goal .stmt) : Slot goal .id
  /-- The node at the start of a statement. -/
  | firstNode (slot : Slot goal .stmt) : Slot goal .nodeId
  | nodeAttributes (node : NodeId) (slot : Slot goal .stmt) : Slot goal .attributes
  | targetAttributes (target : AttributeTarget) (slot : Slot goal .stmt) : Slot goal .attributes
  /-- The subgraph at the start of a statement. -/
  | firstSubgraph (slot : Slot goal .stmt) : Slot goal .subgraph
  | edgeStmt (slot : Slot goal .stmt) : Slot goal .edge
  /-- The id of an endpoint behind others. -/
  | nextId (before : List Endpoint) (slot : Slot goal .edge) : Slot goal .id
  /-- An endpoint that is a node, behind others. -/
  | nextNode (before : List Endpoint) (slot : Slot goal .edge) : Slot goal .nodeId
  /-- An endpoint that is a subgraph, behind others. -/
  | nextSubgraph (before : List Endpoint) (slot : Slot goal .edge) : Slot goal .subgraph
  | edgeAttributes (endpoints : List Endpoint) (slot : Slot goal .edge) : Slot goal .attributes
  | subgraphName (slot : Slot goal .subgraph) : Slot goal .id
  | subgraphBody (id : Option Id) (slot : Slot goal .subgraph) : Slot goal .body
  | port (id : Id) (slot : Slot goal .nodeId) : Slot goal .id
  | compass (id port : Id) (slot : Slot goal .nodeId) : Slot goal .id
  | attributeKey (before : List Attribute) (slot : Slot goal .attributes) : Slot goal .id
  | attributeValue (before : List Attribute) (key : Id) (slot : Slot goal .attributes) :
      Slot goal .id

/-- The place inside the innermost construct that is being read. -/
inductive State (goal : Construct) where
  /-- The goal is read. -/
  | done (value : goal.Value)
  /-- Behind some graphs: another one, or the end. -/
  | moreGraphs (before : List Graph) (slot : Slot goal .graphs)
  | graph (slot : Slot goal .graph)
  /-- Behind `strict`. -/
  | strictGraph (slot : Slot goal .graph)
  /-- Behind `graph` or `digraph`. -/
  | graphName (kind : GraphKind) (strict : Bool) (slot : Slot goal .graph)
  /-- Before the brace that opens a graph. -/
  | openGraph (head : GraphHead) (slot : Slot goal .graph)
  /-- Inside the braces, before a statement. -/
  | body (before : List Stmt) (slot : Slot goal .body)
  | stmt (slot : Slot goal .stmt)
  /-- Behind `graph`, `node` or `edge`, before its attributes. -/
  | target (target : AttributeTarget) (slot : Slot goal .stmt)
  /-- Behind the id at the start of a statement. -/
  | afterId (id : Id) (slot : Slot goal .stmt)
  /-- Behind the node at the start of a statement. -/
  | afterNode (node : NodeId) (slot : Slot goal .stmt)
  /-- Behind the subgraph at the start of a statement. -/
  | afterSubgraph (subgraph : Subgraph) (slot : Slot goal .stmt)
  /-- Behind an endpoint. -/
  | edge (endpoints : List Endpoint) (slot : Slot goal .edge)
  /-- Behind an arrow. -/
  | endpoint (before : List Endpoint) (slot : Slot goal .edge)
  | subgraph (slot : Slot goal .subgraph)
  /-- Behind `subgraph`. -/
  | subgraphName (slot : Slot goal .subgraph)
  /-- Before the brace that opens a subgraph. -/
  | openSubgraph (id : Option Id) (slot : Slot goal .subgraph)
  /-- Behind the id of a node. -/
  | nodeId (id : Id) (slot : Slot goal .nodeId)
  /-- Behind the port of a node. -/
  | afterPort (id port : Id) (slot : Slot goal .nodeId)
  /-- Before a group of attributes, or behind the last one. -/
  | attributes (before : List Attribute) (slot : Slot goal .attributes)
  /-- Inside the brackets, before an attribute. -/
  | group (before : List Attribute) (slot : Slot goal .attributes)
  /-- Behind the key of an attribute. -/
  | equals (before : List Attribute) (key : Id) (slot : Slot goal .attributes)
  /-- Behind an attribute. -/
  | separator (before : List Attribute) (slot : Slot goal .attributes)
  | id (slot : Slot goal .id)
  /-- Behind a quoted string, which may go on. -/
  | string (value : String) (slot : Slot goal .id)
  /-- Behind a plus sign between two strings. -/
  | plus (value : String) (slot : Slot goal .id)

namespace Slot

/-- The state behind a construct that is read. -/
def fill {goal c : Construct} : Slot goal c → c.Value → State goal
  | top, value => .done value
  | nextGraph before slot, g => .moreGraphs (g :: before) slot
  | graphName kind strict slot, id => .openGraph ⟨kind, strict, some id⟩ slot
  | graphBody head slot, body => slot.fill ⟨head, body⟩
  | nextStmt before slot, s => .body (s :: before) slot
  | firstId slot, id => .afterId id slot
  | assigned key slot, value => slot.fill (.assignment ⟨key, value⟩)
  | firstNode slot, node => .afterNode node slot
  | nodeAttributes node slot, attributes => slot.fill (.node ⟨node, attributes⟩)
  | targetAttributes target slot, attributes => slot.fill (.attributes ⟨target, attributes⟩)
  | firstSubgraph slot, g => .afterSubgraph g slot
  | edgeStmt slot, e => slot.fill (.edge e)
  | nextId before slot, id => .nodeId id (.nextNode before slot)
  | nextNode before slot, node => .edge (.node node :: before) slot
  | nextSubgraph before slot, g => .edge (.subgraph g :: before) slot
  | edgeAttributes endpoints slot, attributes => slot.fill ⟨endpoints.reverse, attributes⟩
  | subgraphName slot, id => .openSubgraph (some id) slot
  | subgraphBody id slot, body => slot.fill ⟨id, body⟩
  | port id slot, p => .afterPort id p slot
  | compass id p slot, c => slot.fill ⟨id, some ⟨p, some c⟩⟩
  | attributeKey before slot, key => .equals before key slot
  | attributeValue before key slot, value => .separator (⟨key, value⟩ :: before) slot

/-- The number of subgraphs whose bodies are open around a slot. -/
def depth {goal c : Construct} : Slot goal c → Nat
  | top => 0
  | nextGraph _ slot => slot.depth
  | graphName _ _ slot => slot.depth
  | graphBody _ slot => slot.depth
  | nextStmt _ slot => slot.depth
  | firstId slot => slot.depth
  | assigned _ slot => slot.depth
  | firstNode slot => slot.depth
  | nodeAttributes _ slot => slot.depth
  | targetAttributes _ slot => slot.depth
  | firstSubgraph slot => slot.depth
  | edgeStmt slot => slot.depth
  | nextId _ slot => slot.depth
  | nextNode _ slot => slot.depth
  | nextSubgraph _ slot => slot.depth
  | edgeAttributes _ slot => slot.depth
  | subgraphName slot => slot.depth
  | subgraphBody _ slot => slot.depth + 1
  | port _ slot => slot.depth
  | compass _ _ slot => slot.depth
  | attributeKey _ slot => slot.depth
  | attributeValue _ _ slot => slot.depth

end Slot

end DotLang.Parser
