import DotLang.Graph.Equality
import DotLang.Graph.Json
import DotLang.Proofs.BoundedRuns
import DotLang.Proofs.JsonText
import DotLang.Proofs.Writing
import DotLang.Proofs.WrittenIds

/-!
# The JSON of graphs determines them

The JSON of graphs has the numbers of their ids, and no other. It is the same value for graphs
that are the same, and only for those: the kinds of ids, statements and endpoints have different
kinds of values or different texts in their first field, and null stands for nothing that has a
value of its own. So the compact text determines graphs without NaN and infinities, and no text
has a graph with those.

* `Graph.same_toJson`: graphs are the same if and only if their JSON is.
* `Graph.numbers_toJson`: the numbers in the JSON of a graph.
* `same_of_compact`: lists of graphs with the same compact text are the same.
-/

namespace DotLang

/-! ## Equality -/

theorem Id.same_toJson (i j : Id) : i.toJson.same j.toJson = i.same j := by
  cases i <;> cases j <;> simp [Id.toJson, Id.same, Json.same, Json.sameFields]

theorem Json.same_null {v : Json} (h : v.kind ≠ null.kind) :
    null.same v = false ∧ v.same null = false := by
  cases v with
  | null => exact absurd rfl h
  | _ => exact ⟨rfl, rfl⟩

section Containers

variable {α : Type} {same : α → α → Bool} {toJson : α → Json}
  (hsame : ∀ a b, (toJson a).same (toJson b) = same a b)

include hsame

/-- Null stands for a missing value only. -/
theorem same_optionToJson (hkind : ∀ a, (toJson a).kind ≠ Json.null.kind) (a b : Option α) :
    (optionToJson toJson a).same (optionToJson toJson b) = sameOption same a b := by
  cases a with
  | none =>
    cases b with
    | none => rfl
    | some b => exact (Json.same_null (hkind b)).1
  | some a =>
    cases b with
    | none => exact (Json.same_null (hkind a)).2
    | some b => exact hsame a b

theorem sameItems_map (as bs : List α) :
    Json.sameItems (as.map toJson) (bs.map toJson) = sameList same as bs := by
  induction as generalizing bs with
  | nil => cases bs <;> rfl
  | cons a as ih =>
    cases bs with
    | nil => rfl
    | cons b bs =>
      rw [List.map_cons, List.map_cons, Json.sameItems, sameList, hsame, ih]

end Containers

theorem Id.kind_toJson (i : Id) : i.toJson.kind ≠ Json.null.kind := by
  cases i <;> exact nofun

theorem same_optionalId (i j : Option Id) :
    (optionToJson Id.toJson i).same (optionToJson Id.toJson j) = sameOption Id.same i j :=
  same_optionToJson Id.same_toJson Id.kind_toJson i j

theorem Attribute.same_toJson (a b : Attribute) : a.toJson.same b.toJson = a.same b := by
  simp [Attribute.toJson, Attribute.same, Json.same, Json.sameFields, Id.same_toJson]

theorem same_attributesToJson (as bs : List Attribute) :
    (attributesToJson as).same (attributesToJson bs) = sameList Attribute.same as bs :=
  sameItems_map Attribute.same_toJson as bs

theorem Port.same_toJson (a b : Port) : a.toJson.same b.toJson = a.same b := by
  simp [Port.toJson, Port.same, Json.same, Json.sameFields, Id.same_toJson, same_optionalId]

theorem same_optionalPort (a b : Option Port) :
    (optionToJson Port.toJson a).same (optionToJson Port.toJson b) = sameOption Port.same a b :=
  same_optionToJson Port.same_toJson (fun _ => nofun) a b

theorem NodeId.same_jsonFields (a b : NodeId) :
    Json.sameFields a.jsonFields b.jsonFields = a.same b := by
  simp [NodeId.jsonFields, NodeId.same, Json.sameFields, Id.same_toJson, same_optionalPort]

theorem NodeStmt.same_toJson (a b : NodeStmt) :
    (Stmt.node a).toJson.same (Stmt.node b).toJson = a.same b := by
  simp [Stmt.toJson, NodeStmt.same, NodeId.same, NodeId.jsonFields, Json.same, Json.sameFields,
    Id.same_toJson, same_optionalPort, same_attributesToJson, Bool.and_assoc]

theorem AttributeTarget.name_inj {t u : AttributeTarget} : t.name = u.name ↔ t = u := by
  cases t <;> cases u <;> simp [AttributeTarget.name]

theorem AttributeStmt.same_toJson (a b : AttributeStmt) :
    (Stmt.attributes a).toJson.same (Stmt.attributes b).toJson = a.same b := by
  simp [Stmt.toJson, AttributeStmt.same, Json.same, Json.sameFields, AttributeTarget.name_inj,
    same_attributesToJson]

theorem Assignment.same_toJson (a b : Assignment) :
    (Stmt.assignment a).toJson.same (Stmt.assignment b).toJson = a.same b := by
  simp [Stmt.toJson, Assignment.same, Json.same, Json.sameFields, Id.same_toJson]

/-- The first field of a statement tells its kind. -/
theorem Stmt.exists_toJson (s : Stmt) :
    ∃ fields, s.toJson = .object (("type", .string s.typeName) :: fields) := by
  cases s <;> exact ⟨_, by rw [toJson]; rfl⟩

theorem Stmt.typeName_eq_of_same {s t : Stmt} : s.same t = true → s.typeName = t.typeName := by
  cases s <;> cases t <;> simp [Stmt.same, Stmt.typeName]

/-- Statements of different kinds are not the same, and neither is their JSON. -/
theorem Stmt.same_toJson_of_ne {s t : Stmt} (h : s.typeName ≠ t.typeName) :
    s.toJson.same t.toJson = s.same t := by
  have hstmt : s.same t = false := Bool.eq_false_iff.2 (mt typeName_eq_of_same h)
  obtain ⟨fields, hs⟩ := s.exists_toJson
  obtain ⟨fields', ht⟩ := t.exists_toJson
  rw [hs, ht, hstmt]
  simp [Json.same, Json.sameFields, h]

mutual

theorem Stmt.same_toJson (s t : Stmt) : s.toJson.same t.toJson = s.same t := by
  match s with
  | .node a =>
    cases t with
    | node b => rw [NodeStmt.same_toJson, Stmt.same]
    | _ => exact Stmt.same_toJson_of_ne (by simp [Stmt.typeName])
  | .edge a =>
    cases t with
    | edge b =>
      rw [Stmt.same, ← EdgeStmt.same_jsonFields a b]
      simp [Stmt.toJson, Json.same, Json.sameFields]
    | _ => exact Stmt.same_toJson_of_ne (by simp [Stmt.typeName])
  | .attributes a =>
    cases t with
    | attributes b => rw [AttributeStmt.same_toJson, Stmt.same]
    | _ => exact Stmt.same_toJson_of_ne (by simp [Stmt.typeName])
  | .assignment a =>
    cases t with
    | assignment b => rw [Assignment.same_toJson, Stmt.same]
    | _ => exact Stmt.same_toJson_of_ne (by simp [Stmt.typeName])
  | .subgraph a =>
    cases t with
    | subgraph b =>
      rw [Stmt.same, ← Subgraph.same_jsonFields a b]
      simp [Stmt.toJson, Json.same, Json.sameFields]
    | _ => exact Stmt.same_toJson_of_ne (by simp [Stmt.typeName])

theorem EdgeStmt.same_jsonFields :
    ∀ a b : EdgeStmt, Json.sameFields a.jsonFields b.jsonFields = a.same b
  | ⟨es, as⟩, ⟨fs, bs⟩ => by
    simp [EdgeStmt.jsonFields, EdgeStmt.same, Json.same, Json.sameFields,
      sameItems_endpointsToJson es fs, same_attributesToJson]

theorem Endpoint.same_toJson : ∀ e f : Endpoint, e.toJson.same f.toJson = e.same f
  | .node a, .node b => by
    rw [Endpoint.same, ← NodeId.same_jsonFields a b]
    simp [Endpoint.toJson, Json.same, Json.sameFields]
  | .subgraph a, .subgraph b => by
    rw [Endpoint.same, ← Subgraph.same_jsonFields a b]
    simp [Endpoint.toJson, Json.same, Json.sameFields]
  | .node a, .subgraph b => by
    simp [Endpoint.toJson, Endpoint.same, Json.same, Json.sameFields]
  | .subgraph a, .node b => by
    simp [Endpoint.toJson, Endpoint.same, Json.same, Json.sameFields]

theorem Subgraph.same_jsonFields :
    ∀ a b : Subgraph, Json.sameFields a.jsonFields b.jsonFields = a.same b
  | ⟨i, ss⟩, ⟨j, ts⟩ => by
    simp [Subgraph.jsonFields, Subgraph.same, Json.same, Json.sameFields, same_optionalId,
      sameItems_bodyToJson ss ts]

theorem sameItems_endpointsToJson :
    ∀ es fs : List Endpoint,
      Json.sameItems (endpointsToJson es) (endpointsToJson fs) = sameEndpoints es fs
  | [], [] => by simp [endpointsToJson, Json.sameItems, sameEndpoints]
  | [], _ :: _ => by simp [endpointsToJson, Json.sameItems, sameEndpoints]
  | _ :: _, [] => by simp [endpointsToJson, Json.sameItems, sameEndpoints]
  | e :: es, f :: fs => by
    rw [endpointsToJson, endpointsToJson, Json.sameItems, sameEndpoints, Endpoint.same_toJson e f,
      sameItems_endpointsToJson es fs]

theorem sameItems_bodyToJson :
    ∀ ss ts : List Stmt, Json.sameItems (bodyToJson ss) (bodyToJson ts) = sameStmts ss ts
  | [], [] => by simp [bodyToJson, Json.sameItems, sameStmts]
  | [], _ :: _ => by simp [bodyToJson, Json.sameItems, sameStmts]
  | _ :: _, [] => by simp [bodyToJson, Json.sameItems, sameStmts]
  | s :: ss, t :: ts => by
    rw [bodyToJson, bodyToJson, Json.sameItems, sameStmts, Stmt.same_toJson s t,
      sameItems_bodyToJson ss ts]

end

theorem GraphKind.name_inj {k l : GraphKind} : k.name = l.name ↔ k = l := by
  cases k <;> cases l <;> simp [GraphKind.name]

/-- The body of a graph: null stands for one without statements, and for no other. -/
theorem same_children (g h : Graph) :
    (if g.hasStatements then Json.array (bodyToJson g.body) else .null).same
      (if h.hasStatements then .array (bodyToJson h.body) else .null) =
        sameStmts g.body h.body := by
  obtain ⟨_, body⟩ := g
  obtain ⟨_, body'⟩ := h
  cases body <;> cases body' <;>
    simp [Graph.hasStatements, Json.same, sameStmts, sameItems_bodyToJson]

/-- Graphs are the same if and only if their JSON is. -/
theorem Graph.same_toJson (g h : Graph) : g.toJson.same h.toJson = g.same h := by
  have hchildren := same_children g h
  simp only [Graph.toJson, Json.same, Json.sameFields, hchildren, same_optionalId, Graph.same,
    GraphHead.same, GraphKind.name_inj]
  simp [Bool.and_assoc]

theorem same_graphsToJson (gs hs : List Graph) :
    (graphsToJson gs).same (graphsToJson hs) = sameList Graph.same gs hs :=
  sameItems_map Graph.same_toJson gs hs

/-! ## Numbers -/

/-- The number that an id is. -/
def Id.number? : Id → Option Binary64
  | number x => some x
  | _ => none

/-- The numbers among ids. -/
def idNumbers (ids : List Id) : List Binary64 := ids.filterMap Id.number?

@[simp]
theorem idNumbers_nil : idNumbers [] = [] := rfl

@[simp]
theorem idNumbers_cons (i : Id) (is : List Id) :
    idNumbers (i :: is) = i.number?.toList ++ idNumbers is := by
  rw [idNumbers, List.filterMap_cons]
  cases i.number? <;> rfl

@[simp]
theorem idNumbers_append (is js : List Id) : idNumbers (is ++ js) = idNumbers is ++ idNumbers js :=
  List.filterMap_append

theorem mem_idNumbers {x : Binary64} {ids : List Id} : x ∈ idNumbers ids ↔ .number x ∈ ids := by
  rw [idNumbers, List.mem_filterMap]
  constructor
  · rintro ⟨i, hi, hx⟩
    cases i with
    | number y =>
      obtain rfl := Option.some.inj hx
      exact hi
    | _ => exact nomatch hx
  · intro hx
    exact ⟨_, hx, rfl⟩

@[simp]
theorem Id.numbers_toJson (i : Id) : i.toJson.numbers = i.number?.toList := by
  cases i <;> simp [Id.toJson, Json.numbers, Json.fieldNumbers, Id.number?]

theorem numbers_optionToJson {α : Type} {toJson : α → Json} {ids : α → List Id}
    (h : ∀ a, (toJson a).numbers = idNumbers (ids a)) (a : Option α) :
    (optionToJson toJson a).numbers = idNumbers (a.toList.flatMap ids) := by
  cases a with
  | none => simp [optionToJson, Json.numbers]
  | some a => simp [optionToJson, h]

theorem itemNumbers_map {α : Type} {toJson : α → Json} {ids : α → List Id}
    (h : ∀ a, (toJson a).numbers = idNumbers (ids a)) (as : List α) :
    Json.itemNumbers (as.map toJson) = idNumbers (as.flatMap ids) := by
  induction as with
  | nil => rfl
  | cons a as ih => rw [List.map_cons, Json.itemNumbers, h, ih, List.flatMap_cons, idNumbers_append]

@[simp]
theorem numbers_optionalId (i : Option Id) :
    (optionToJson Id.toJson i).numbers = idNumbers i.toList := by
  cases i <;> simp [optionToJson, Json.numbers]

theorem Attribute.numbers_toJson (a : Attribute) : a.toJson.numbers = idNumbers a.ids := by
  simp [Attribute.toJson, Attribute.ids, Json.numbers, Json.fieldNumbers]

@[simp]
theorem numbers_attributesToJson (as : List Attribute) :
    (attributesToJson as).numbers = idNumbers (attributeIds as) := by
  rw [attributesToJson, Json.numbers, itemNumbers_map Attribute.numbers_toJson, attributeIds]

theorem Port.numbers_toJson (p : Port) : p.toJson.numbers = idNumbers p.ids := by
  simp [Port.toJson, Port.ids, Json.numbers, Json.fieldNumbers]

theorem NodeId.fieldNumbers_jsonFields (n : NodeId) (fields : List (String × Json)) :
    Json.fieldNumbers (n.jsonFields ++ fields) = idNumbers n.ids ++ Json.fieldNumbers fields := by
  simp [NodeId.jsonFields, NodeId.ids, Json.fieldNumbers, numbers_optionToJson Port.numbers_toJson]

mutual

theorem Stmt.numbers_toJson : ∀ s : Stmt, s.toJson.numbers = idNumbers s.ids
  | .node s => by
    simp [Stmt.toJson, Stmt.ids, Json.numbers, Json.fieldNumbers, NodeId.fieldNumbers_jsonFields]
  | .edge s => by
    have hfields := EdgeStmt.fieldNumbers_jsonFields s
    simp [Stmt.toJson, Stmt.ids, Json.numbers, Json.fieldNumbers, hfields]
  | .attributes s => by
    simp [Stmt.toJson, Stmt.ids, Json.numbers, Json.fieldNumbers]
  | .assignment s => by
    simp [Stmt.toJson, Stmt.ids, Json.numbers, Json.fieldNumbers]
  | .subgraph g => by
    have hfields := Subgraph.fieldNumbers_jsonFields g
    simp [Stmt.toJson, Stmt.ids, Json.numbers, Json.fieldNumbers, hfields]

theorem EdgeStmt.fieldNumbers_jsonFields :
    ∀ s : EdgeStmt, Json.fieldNumbers s.jsonFields = idNumbers s.ids
  | ⟨es, as⟩ => by
    simp [EdgeStmt.jsonFields, EdgeStmt.ids, Json.numbers, Json.fieldNumbers,
      itemNumbers_endpointsToJson es]

theorem Endpoint.numbers_toJson : ∀ e : Endpoint, e.toJson.numbers = idNumbers e.ids
  | .node n => by
    have hfields := n.fieldNumbers_jsonFields []
    simp only [List.append_nil, Json.fieldNumbers] at hfields
    simp [Endpoint.toJson, Endpoint.ids, Json.numbers, Json.fieldNumbers, hfields]
  | .subgraph g => by
    simp [Endpoint.toJson, Endpoint.ids, Json.numbers, Json.fieldNumbers,
      Subgraph.fieldNumbers_jsonFields g]

theorem Subgraph.fieldNumbers_jsonFields :
    ∀ g : Subgraph, Json.fieldNumbers g.jsonFields = idNumbers g.ids
  | ⟨i, ss⟩ => by
    simp [Subgraph.jsonFields, Subgraph.ids, Json.numbers, Json.fieldNumbers,
      itemNumbers_bodyToJson ss]

theorem itemNumbers_endpointsToJson :
    ∀ es : List Endpoint, Json.itemNumbers (endpointsToJson es) = idNumbers (endpointIds es)
  | [] => by simp [endpointsToJson, endpointIds, Json.itemNumbers]
  | e :: es => by
    simp [endpointsToJson, endpointIds, Json.itemNumbers, Endpoint.numbers_toJson e,
      itemNumbers_endpointsToJson es]

theorem itemNumbers_bodyToJson :
    ∀ ss : List Stmt, Json.itemNumbers (bodyToJson ss) = idNumbers (bodyIds ss)
  | [] => by simp [bodyToJson, bodyIds, Json.itemNumbers]
  | s :: ss => by
    simp [bodyToJson, bodyIds, Json.itemNumbers, Stmt.numbers_toJson s, itemNumbers_bodyToJson ss]

end

/-- The JSON of a graph has the numbers among its ids. -/
theorem Graph.numbers_toJson (g : Graph) : g.toJson.numbers = idNumbers g.ids := by
  obtain ⟨head, body⟩ := g
  cases body <;>
    simp [Graph.toJson, Graph.ids, Graph.hasStatements, bodyIds, bodyToJson, Json.numbers,
      Json.fieldNumbers, Json.itemNumbers, Stmt.numbers_toJson, itemNumbers_bodyToJson]

theorem numbers_graphsToJson (gs : List Graph) :
    (graphsToJson gs).numbers = idNumbers (gs.flatMap Graph.ids) := by
  rw [graphsToJson, Json.numbers, itemNumbers_map Graph.numbers_toJson]

/-! ## Texts -/

/-- No id of the graphs is NaN or an infinity. -/
def FiniteIds (gs : List Graph) : Prop :=
  ∀ g ∈ gs, ∀ x, Id.number x ∈ g.ids → x.isFinite = true

theorem FiniteIds.isFinite {gs : List Graph} (h : FiniteIds gs) :
    ∀ x ∈ (graphsToJson gs).numbers, x.isFinite = true := by
  intro x hx
  rw [numbers_graphsToJson, mem_idNumbers] at hx
  obtain ⟨g, hg, hid⟩ := List.mem_flatMap.1 hx
  exact h g hg x hid

/-- A number that is written is a token. -/
theorem Grammar.mem_of_mem_writtenIds {x : Binary64} {kinds : List TokenKind}
    (h : .number x ∈ writtenIds kinds) : .number x ∈ kinds := by
  fun_induction writtenIds kinds <;> grind

/-- The numbers among the tokens of a text are finite. -/
theorem isFinite_of_tokenize {source : String} {tokens : List Token} {x : Binary64}
    (h : Lexer.tokenize source = .ok tokens) (hx : .number x ∈ tokens.map Token.kind) :
    x.isFinite = true := by
  rcases occurs_of_tokenize h _ hx with heof | ⟨text, hspells⟩
  · exact nomatch heof
  · exact Lexeme.wellFormed_of_spells hspells

/-- No text has a graph with NaN or an infinity. -/
theorem finiteIds_of_parse {source : String} {options : ParseOptions} {gs : List Graph}
    (h : parse source options = .ok gs) : FiniteIds gs := by
  intro g hg x hx
  obtain ⟨tokens, htokens, hderives⟩ := derivesText_of_parse h
  have hwritten : .number x ∈ gs.flatMap Graph.ids := List.mem_flatMap.2 ⟨g, hg, hx⟩
  rw [hderives.flatMap_ids] at hwritten
  exact isFinite_of_tokenize htokens (Grammar.mem_of_mem_writtenIds hwritten)

/-- The compact text of graphs loses nothing: lists of graphs with the same text are the same, as
long as no id is NaN or an infinity, and so it is with all graphs that are read from texts. -/
theorem same_of_compact :
    (∀ {source : String} {options : ParseOptions} {gs : List Graph},
      parse source options = .ok gs → FiniteIds gs) ∧
    ∀ {gs hs : List Graph}, FiniteIds gs → FiniteIds hs →
      (graphsToJson gs).compact = (graphsToJson hs).compact → sameList Graph.same gs hs = true := by
  refine ⟨finiteIds_of_parse, ?_⟩
  intro gs hs hgs hhs htext
  rw [← same_graphsToJson]
  exact Json.same_of_compact_eq hgs.isFinite hhs.isFinite htext

/-- The two zeros in two texts: different graphs that are the same, with one text. -/
theorem same_of_compact_zeros : ∃ gs hs,
    parse "graph 0\x7b\x7d" ⟨0⟩ = .ok gs ∧ parse "graph -0\x7b\x7d" ⟨0⟩ = .ok hs ∧ gs ≠ hs ∧
      (graphsToJson gs).compact = (graphsToJson hs).compact ∧ sameList Graph.same gs hs = true := by
  have hpos : parse "graph 0\x7b\x7d" ⟨0⟩ =
      .ok [⟨⟨.undirected, false, some (.number (.ofBits 0))⟩, []⟩] :=
    parse_eq_of_within 40 rfl rfl
  have hneg : parse "graph -0\x7b\x7d" ⟨0⟩ =
      .ok [⟨⟨.undirected, false, some (.number (.ofBits 0x8000000000000000))⟩, []⟩] :=
    parse_eq_of_within 40 rfl rfl
  refine ⟨_, _, hpos, hneg, fun h => ?_, by decide, ?_⟩
  · have hids := congrArg (List.map fun g : Graph => g.id) h
    exact absurd hids (by decide)
  · exact same_of_compact.2 (same_of_compact.1 hpos) (same_of_compact.1 hneg) (by decide)

end DotLang
