import DotLang.Graph

/-!
# What a graph holds

The ids and the attributes of a graph, those of its subgraphs included, in the order in which they
are written.

* `Graph.ids`: every id, as often as it is written.
* `Graph.allAttributes`: every attribute, in whatever list it stands.
-/

namespace DotLang

def Attribute.ids (a : Attribute) : List Id := [a.key, a.value]

/-- The ids of a port: its own and the direction. -/
def Port.ids (p : Port) : List Id := p.id :: p.compass.toList

/-- The ids of a node: its own and those of its port. -/
def NodeId.ids (n : NodeId) : List Id := n.id :: n.port.toList.flatMap Port.ids

/-- The ids of attributes. -/
def attributeIds (attributes : List Attribute) : List Id := attributes.flatMap Attribute.ids

/-! ## Ids -/

mutual

def Stmt.ids : Stmt → List Id
  | .node s => s.node.ids ++ attributeIds s.attributes
  | .edge s => s.ids
  | .attributes s => attributeIds s.attributes
  | .assignment s => [s.key, s.value]
  | .subgraph g => g.ids

def EdgeStmt.ids : EdgeStmt → List Id
  | ⟨endpoints, attributes⟩ => endpointIds endpoints ++ attributeIds attributes

def Endpoint.ids : Endpoint → List Id
  | .node n => n.ids
  | .subgraph g => g.ids

def Subgraph.ids : Subgraph → List Id
  | ⟨id, body⟩ => id.toList ++ bodyIds body

def endpointIds : List Endpoint → List Id
  | [] => []
  | e :: rest => e.ids ++ endpointIds rest

def bodyIds : List Stmt → List Id
  | [] => []
  | s :: rest => s.ids ++ bodyIds rest

end

/-- The ids of a graph in the order in which they are written. -/
def Graph.ids (g : Graph) : List Id := g.id.toList ++ bodyIds g.body

/-! ## Attributes -/

mutual

def Stmt.allAttributes : Stmt → List Attribute
  | .node s => s.attributes
  | .edge s => s.allAttributes
  | .attributes s => s.attributes
  | .assignment _ => []
  | .subgraph g => g.allAttributes

def EdgeStmt.allAttributes : EdgeStmt → List Attribute
  | ⟨endpoints, attributes⟩ => endpointAttributes endpoints ++ attributes

def Endpoint.allAttributes : Endpoint → List Attribute
  | .node _ => []
  | .subgraph g => g.allAttributes

def Subgraph.allAttributes : Subgraph → List Attribute
  | ⟨_, body⟩ => bodyAttributes body

def endpointAttributes : List Endpoint → List Attribute
  | [] => []
  | e :: rest => e.allAttributes ++ endpointAttributes rest

def bodyAttributes : List Stmt → List Attribute
  | [] => []
  | s :: rest => s.allAttributes ++ bodyAttributes rest

end

/-- The attributes of a graph, in whatever list they stand. -/
def Graph.allAttributes (g : Graph) : List Attribute := bodyAttributes g.body

end DotLang
