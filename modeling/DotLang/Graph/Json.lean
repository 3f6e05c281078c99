import DotLang.Graph
import DotLang.Json

/-!
# Graphs as JSON

Statements, endpoints and graphs are objects whose first field tells their kind. A name is a
string, a number is a number, and html is an object with one field, so the three stay apart. The
body of a graph without statements is null; that of a subgraph is always a list.
-/

namespace DotLang

def Id.toJson : Id → Json
  | name text => .string text
  | number value => .number value
  | html text => .object [("html", .string text)]

/-- Null if there is no value. -/
def optionToJson {α : Type} (toJson : α → Json) : Option α → Json
  | none => .null
  | some value => toJson value

def Attribute.toJson (a : Attribute) : Json :=
  .object [("key", a.key.toJson), ("value", a.value.toJson)]

def attributesToJson (attributes : List Attribute) : Json :=
  .array (attributes.map Attribute.toJson)

def Port.toJson (p : Port) : Json :=
  .object [("id", p.id.toJson), ("compass", optionToJson Id.toJson p.compass)]

/-- The fields of a node, which its kind goes before. -/
def NodeId.jsonFields (n : NodeId) : List (String × Json) :=
  [("id", n.id.toJson), ("port", optionToJson Port.toJson n.port)]

def NodeId.toJson (n : NodeId) : Json := .object n.jsonFields

mutual

def Stmt.toJson : Stmt → Json
  | .node s =>
    .object (("type", .string "node_stmt") :: s.node.jsonFields ++
      [("attr_list", attributesToJson s.attributes)])
  | .edge s => .object (("type", .string "edge_stmt") :: s.jsonFields)
  | .attributes s =>
    .object [("type", .string "attr_stmt"), ("target", .string s.target.name),
      ("attr_list", attributesToJson s.attributes)]
  | .assignment s =>
    .object [("type", .string "assignment"), ("id", s.key.toJson), ("eq", s.value.toJson)]
  | .subgraph g => .object (("type", .string "subgraph") :: g.jsonFields)

/-- The fields of an edge statement, which its kind goes before. -/
def EdgeStmt.jsonFields : EdgeStmt → List (String × Json)
  | ⟨endpoints, attributes⟩ =>
    [("edge_list", .array (endpointsToJson endpoints)), ("attr_list", attributesToJson attributes)]

def Endpoint.toJson : Endpoint → Json
  | .node n => .object (("type", .string "node_id") :: n.jsonFields)
  | .subgraph g => .object (("type", .string "subgraph") :: g.jsonFields)

/-- The fields of a subgraph, which its kind goes before. -/
def Subgraph.jsonFields : Subgraph → List (String × Json)
  | ⟨id, body⟩ => [("id", optionToJson Id.toJson id), ("children", .array (bodyToJson body))]

def endpointsToJson : List Endpoint → List Json
  | [] => []
  | e :: rest => e.toJson :: endpointsToJson rest

def bodyToJson : List Stmt → List Json
  | [] => []
  | s :: rest => s.toJson :: bodyToJson rest

end

def EdgeStmt.toJson (s : EdgeStmt) : Json := .object s.jsonFields

def Subgraph.toJson (g : Subgraph) : Json := .object g.jsonFields

def Graph.toJson (g : Graph) : Json :=
  .object [("type", .string g.kind.name), ("strict", .bool g.strict),
    ("id", optionToJson Id.toJson g.id),
    ("children", if g.hasStatements then .array (bodyToJson g.body) else .null)]

/-- A list of graphs as JSON. -/
def graphsToJson (graphs : List Graph) : Json := .array (graphs.map Graph.toJson)

end DotLang
