import DotLang.Graph

/-!
# Outlines

An outline shows a graph line by line: a line for the graph, for each statement, each endpoint,
each arrow and each attribute. Each level is indented by one space. Ids are written plainly, so
an id that holds a line feed breaks its line.

* `Graph.outlineLines`: the lines of a graph.
* `Graph.outline`: the lines, each ended by a line feed.
-/

namespace DotLang

/-- A line at a level of an outline. -/
def indented (level : Nat) (text : String) : String :=
  String.ofList (List.replicate level ' ') ++ text

/-- An attribute with its number in its list. -/
def Attribute.outlineLine (level number : Nat) (a : Attribute) : String :=
  indented level (toString number ++ ")\"" ++ a.key.display ++ "\" = \"" ++ a.value.display ++ "\"")

/-- Attributes, numbered from zero. -/
def attributeLines (level : Nat) (attributes : List Attribute) : List String :=
  attributes.zipIdx.map fun (a, number) => a.outlineLine level number

def NodeStmt.outlineLines (level : Nat) (s : NodeStmt) : List String :=
  indented level ("Node " ++ s.node.display) :: attributeLines (level + 1) s.attributes

def AttributeTarget.title : AttributeTarget → String
  | graph => "Graph"
  | node => "Node"
  | edge => "Edge"

def AttributeStmt.outlineLines (level : Nat) (s : AttributeStmt) : List String :=
  indented level ("Attribute " ++ s.target.title ++ ":") :: attributeLines (level + 1) s.attributes

def Assignment.outlineLine (level : Nat) (s : Assignment) : String :=
  indented level ("Assign \"" ++ s.key.display ++ "\" = \"" ++ s.value.display ++ "\"")

/-- The line of a subgraph. -/
def subgraphLine (level : Nat) (id : Option Id) : String :=
  indented level <|
    match id with
    | none => "Subgraph:"
    | some id => "Subgraph: " ++ id.display

mutual

def Stmt.outlineLines (arrow : String) (level : Nat) : Stmt → List String
  | .node s => s.outlineLines level
  | .edge s => s.outlineLines arrow level
  | .attributes s => s.outlineLines level
  | .assignment s => [s.outlineLine level]
  | .subgraph g => g.outlineLines arrow level

def EdgeStmt.outlineLines (arrow : String) (level : Nat) : EdgeStmt → List String
  | ⟨endpoints, attributes⟩ =>
    indented level "Edge:" ::
      (endpointLines arrow (level + 1) endpoints ++ attributeLines (level + 1) attributes)

def Endpoint.outlineLines (arrow : String) (level : Nat) : Endpoint → List String
  | .node n => [indented level n.display]
  | .subgraph g => g.outlineLines arrow level

def Subgraph.outlineLines (arrow : String) (level : Nat) : Subgraph → List String
  | ⟨id, body⟩ => subgraphLine level id :: bodyLines arrow (level + 1) body

/-- Endpoints with an arrow between each two. -/
def endpointLines (arrow : String) (level : Nat) : List Endpoint → List String
  | [] => []
  | e :: rest => e.outlineLines arrow level ++ laterEndpointLines arrow level rest

/-- Endpoints with an arrow before each. -/
def laterEndpointLines (arrow : String) (level : Nat) : List Endpoint → List String
  | [] => []
  | e :: rest =>
    indented level arrow :: (e.outlineLines arrow level ++ laterEndpointLines arrow level rest)

def bodyLines (arrow : String) (level : Nat) : List Stmt → List String
  | [] => []
  | s :: rest => s.outlineLines arrow level ++ bodyLines arrow level rest

end

namespace Graph

/-- The line of a graph. -/
def headLine (g : Graph) : String :=
  (if g.strict then "strict " else "") ++ g.kind.name ++
    (match g.id with
    | none => ""
    | some id => " " ++ id.display) ++ ":"

def outlineLines (g : Graph) : List String := g.headLine :: bodyLines g.kind.arrow 1 g.body

/-- The outline of a graph. -/
def outline (g : Graph) : String := String.join (g.outlineLines.map (· ++ "\n"))

end Graph

end DotLang
