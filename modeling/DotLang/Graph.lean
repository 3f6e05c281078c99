import DotLang.Binary64
import DotLang.Decimal.Layout

/-!
# Graphs

The tree that a text stands for: statements in the order in which they are written, with the ids
that they name. Edges may end in whole subgraphs, so statements, edges, endpoints and subgraphs
are defined together.

* `Id.display`: the plain text of an id.
* `Attribute.lookup?`: of several attributes with one key the last one counts.
-/

namespace DotLang

/-- What something is called: a name, written with or without quotes, a number, or html. -/
inductive Id where
  | name (text : String)
  | number (value : Binary64)
  | html (text : String)
deriving DecidableEq

namespace Id

def name? : Id → Option String
  | name text => some text
  | _ => none

/-- The plain text of an id. Html keeps its brackets; quotes and escapes are not restored. -/
def display : Id → String
  | name text => text
  | number value => value.display
  | html text => "<" ++ text ++ ">"

end Id

structure Attribute where
  key : Id
  value : Id
deriving DecidableEq

/-- The value of the last attribute whose key is the name `key`. -/
def Attribute.lookup? (attributes : List Attribute) (key : String) : Option Id :=
  (attributes.reverse.find? fun a => a.key.name? = some key).map Attribute.value

/-- The part of a node at which an edge ends, with an optional direction. -/
structure Port where
  id : Id
  compass : Option Id
deriving DecidableEq

/-- A node, or a port of it. -/
structure NodeId where
  id : Id
  port : Option Port
deriving DecidableEq

/-- The plain text of a node: its parts between colons. -/
def NodeId.display (n : NodeId) : String :=
  n.id.display ++
    match n.port with
    | none => ""
    | some port =>
      ":" ++ port.id.display ++
        match port.compass with
        | none => ""
        | some compass => ":" ++ compass.display

/-- A node and its attributes. -/
structure NodeStmt where
  node : NodeId
  attributes : List Attribute
deriving DecidableEq

/-- What default attributes apply to. -/
inductive AttributeTarget where
  | graph
  | node
  | edge
deriving DecidableEq

def AttributeTarget.name : AttributeTarget → String
  | graph => "graph"
  | node => "node"
  | edge => "edge"

/-- Default attributes. -/
structure AttributeStmt where
  target : AttributeTarget
  attributes : List Attribute
deriving DecidableEq

/-- An attribute of the graph or subgraph itself. -/
structure Assignment where
  key : Id
  value : Id
deriving DecidableEq

mutual

inductive Stmt where
  | node (stmt : NodeStmt)
  | edge (stmt : EdgeStmt)
  | attributes (stmt : AttributeStmt)
  | assignment (stmt : Assignment)
  | subgraph (subgraph : Subgraph)

/-- A chain of endpoints: each two neighbours are joined by an edge. -/
structure EdgeStmt where
  endpoints : List Endpoint
  attributes : List Attribute

/-- A subgraph as an endpoint stands for all of its nodes. -/
inductive Endpoint where
  | node (node : NodeId)
  | subgraph (subgraph : Subgraph)

structure Subgraph where
  id : Option Id
  body : List Stmt

end

/-- The name of the kind of a statement. -/
def Stmt.typeName : Stmt → String
  | node _ => "node_stmt"
  | edge _ => "edge_stmt"
  | attributes _ => "attr_stmt"
  | assignment _ => "assignment"
  | subgraph _ => "subgraph"

inductive GraphKind where
  | undirected
  | directed
deriving DecidableEq

namespace GraphKind

/-- The keyword that opens a graph of this kind. -/
def name : GraphKind → String
  | undirected => "graph"
  | directed => "digraph"

/-- The arrow between the endpoints of its edges. -/
def arrow : GraphKind → String
  | undirected => "--"
  | directed => "->"

end GraphKind

/-- What stands in front of the body of a graph. -/
structure GraphHead where
  kind : GraphKind
  strict : Bool
  id : Option Id
deriving DecidableEq

structure Graph extends GraphHead where
  body : List Stmt

namespace Graph

/-- Whether the body holds a statement. Semicolons are not statements. -/
def hasStatements (g : Graph) : Bool := !g.body.isEmpty

def isDirected (g : Graph) : Bool := g.kind = .directed

end Graph

end DotLang
