import DotLang.Visitor

/-!
# Traces of a walk

An `Event` says that a walk has met an element. A trace is the list of events of one walk.

* `Visitor.recorder`: a visitor that notes every element, and goes no further below the elements
  of some kinds.
* `Visitor.leafRecorder`: a visitor that notes only elements without parts.
* `Graph.events`: the elements of a graph in the order in which they are written, listed without
  a visitor.
-/

namespace DotLang

/-- The kinds of elements that a walk meets. -/
inductive Hook where
  | graph
  | stmt
  | node
  | edge
  | nodeId
  | attributes
  | assignment
  | subgraph
deriving DecidableEq

/-- A walk has met an element. -/
inductive Event where
  | graph (id : Option Id)
  | stmt (typeName : String)
  | node (id : Id)
  | edge (endpoints : Nat)
  | nodeId (id : Id)
  | attributes (count : Nat)
  | assignment (assignment : Assignment)
  | subgraph (id : Option Id)
deriving DecidableEq

def Event.hook : Event → Hook
  | graph _ => .graph
  | stmt _ => .stmt
  | node _ => .node
  | edge _ => .edge
  | nodeId _ => .nodeId
  | attributes _ => .attributes
  | assignment _ => .assignment
  | subgraph _ => .subgraph

namespace Visitor

/-- Notes an event and, unless its kind is one of `stop`, goes on with the parts. -/
def record (stop : List Hook) (e : Event) (parts : Array Event → Array Event)
    (trace : Array Event) : Array Event :=
  if e.hook ∈ stop then trace.push e else parts (trace.push e)

/-- Notes every element and goes on with its parts, except below the kinds in `stop`. -/
def recorder (stop : List Hook) : Visitor (Array Event) where
  graph g := record stop (.graph g.id)
  stmt s := record stop (.stmt s.typeName)
  node s trace := trace.push (.node s.node.id)
  edge s := record stop (.edge s.endpoints.length)
  nodeId n trace := trace.push (.nodeId n.id)
  attributes s trace := trace.push (.attributes s.attributes.length)
  assignment s trace := trace.push (.assignment s)
  subgraph g := record stop (.subgraph g.id)

/-- Notes an event if its kind is one of `hooks`. -/
def recordIf (hooks : List Hook) (e : Event) (trace : Array Event) : Array Event :=
  if e.hook ∈ hooks then trace.push e else trace

/-- Notes the elements without parts whose kinds are in `hooks`. -/
def leafRecorder (hooks : List Hook) : Visitor (Array Event) where
  node s := recordIf hooks (.node s.node.id)
  nodeId n := recordIf hooks (.nodeId n.id)
  attributes s := recordIf hooks (.attributes s.attributes.length)
  assignment s := recordIf hooks (.assignment s)

end Visitor

/-! ## The elements of a graph -/

/-- An event and, unless its kind is one of `stop`, the events of its parts. -/
def Event.above (stop : List Hook) (e : Event) (parts : List Event) : List Event :=
  e :: if e.hook ∈ stop then [] else parts

mutual

def Stmt.events (stop : List Hook) : Stmt → List Event
  | .node s => Event.above stop (.stmt "node_stmt") [.node s.node.id]
  | .edge s => Event.above stop (.stmt "edge_stmt") (s.events stop)
  | .attributes s => Event.above stop (.stmt "attr_stmt") [.attributes s.attributes.length]
  | .assignment s => Event.above stop (.stmt "assignment") [.assignment s]
  | .subgraph g => Event.above stop (.stmt "subgraph") (g.events stop)

def EdgeStmt.events (stop : List Hook) : EdgeStmt → List Event
  | ⟨endpoints, _⟩ => Event.above stop (.edge endpoints.length) (endpointEvents stop endpoints)

def Endpoint.events (stop : List Hook) : Endpoint → List Event
  | .node n => [.nodeId n.id]
  | .subgraph g => g.events stop

def Subgraph.events (stop : List Hook) : Subgraph → List Event
  | ⟨id, body⟩ => Event.above stop (.subgraph id) (bodyEvents stop body)

def endpointEvents (stop : List Hook) : List Endpoint → List Event
  | [] => []
  | e :: rest => e.events stop ++ endpointEvents stop rest

def bodyEvents (stop : List Hook) : List Stmt → List Event
  | [] => []
  | s :: rest => s.events stop ++ bodyEvents stop rest

end

/-- The elements of a graph in the order in which they are written, each before its parts, without
the parts of elements of the kinds in `stop`. -/
def Graph.events (stop : List Hook) (g : Graph) : List Event :=
  Event.above stop (.graph g.id) (bodyEvents stop g.body)

end DotLang
