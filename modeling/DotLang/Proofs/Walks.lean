import DotLang.Stats
import DotLang.Trace
import Mathlib.Algebra.GroupWithZero.Nat
import Mathlib.Data.List.Basic
import Mathlib.Data.List.Induction

/-!
# What a walk meets

The elements of a graph form a tree: each has its parts, in the order in which they are written. A
walk goes through this tree in preorder. A visitor may do something with each element that it meets,
and may stop at the elements of some kinds; whatever it does, it does so with each element once, in
preorder, and with no element below one at which it stops.

* `Element.parts`, `Element.preorder`: the tree, and its elements in preorder.
* `Element.induction`: what holds of an element if it holds of its parts holds of all elements.
* `Visitor.Follows`: a visitor that does something with each element.
* `Visitor.Follows.visit_eq`: what such a visitor does on a walk.
* `visitors_meet_elements`: the traces of a graph and its counts.
-/

namespace DotLang

/-! ## The tree of elements -/

/-- An element of a graph, with all that belongs to it. -/
inductive Element where
  | graph (graph : Graph)
  | stmt (stmt : Stmt)
  | node (stmt : NodeStmt)
  | edge (stmt : EdgeStmt)
  /-- An endpoint that is a node. -/
  | nodeId (node : NodeId)
  | attributes (stmt : AttributeStmt)
  | assignment (stmt : Assignment)
  | subgraph (subgraph : Subgraph)

/-- What a statement is, apart from being a statement. -/
def Stmt.element : Stmt → Element
  | .node s => .node s
  | .edge s => .edge s
  | .attributes s => .attributes s
  | .assignment s => .assignment s
  | .subgraph g => .subgraph g

def Endpoint.element : Endpoint → Element
  | .node n => .nodeId n
  | .subgraph g => .subgraph g

namespace Element

/-- What a trace notes of an element. -/
def event : Element → Event
  | graph g => .graph g.id
  | stmt s => .stmt s.typeName
  | node s => .node s.node.id
  | edge s => .edge s.endpoints.length
  | nodeId n => .nodeId n.id
  | attributes s => .attributes s.attributes.length
  | assignment s => .assignment s
  | subgraph g => .subgraph g.id

def hook (e : Element) : Hook := e.event.hook

/-- The parts of an element, in the order in which they are written. -/
def parts : Element → List Element
  | graph g => g.body.map stmt
  | stmt s => [s.element]
  | edge s => s.endpoints.map Endpoint.element
  | subgraph g => g.body.map stmt
  | node _ | nodeId _ | attributes _ | assignment _ => []

theorem sizeOf_element_stmt (s : Stmt) : sizeOf s.element < sizeOf (stmt s) := by
  cases s <;> simp only [Stmt.element, stmt.sizeOf_spec, node.sizeOf_spec, edge.sizeOf_spec,
    attributes.sizeOf_spec, assignment.sizeOf_spec, subgraph.sizeOf_spec, Stmt.node.sizeOf_spec,
    Stmt.edge.sizeOf_spec, Stmt.attributes.sizeOf_spec, Stmt.assignment.sizeOf_spec,
    Stmt.subgraph.sizeOf_spec] <;> omega

theorem sizeOf_element_endpoint (e : Endpoint) : sizeOf e.element = sizeOf e := by
  cases e <;> rfl

/-- A part is smaller than the whole. -/
theorem sizeOf_lt_of_mem_parts {e p : Element} (h : p ∈ e.parts) : sizeOf p < sizeOf e := by
  cases e with
  | graph g =>
    obtain ⟨s, hs, rfl⟩ := List.mem_map.1 h
    have := List.sizeOf_lt_of_mem hs
    cases g
    simp only [graph.sizeOf_spec, stmt.sizeOf_spec, Graph.mk.sizeOf_spec] at this ⊢
    omega
  | stmt s =>
    obtain rfl := List.mem_singleton.1 h
    exact sizeOf_element_stmt s
  | edge s =>
    obtain ⟨e, he, rfl⟩ := List.mem_map.1 h
    have := List.sizeOf_lt_of_mem he
    cases s
    simp only [sizeOf_element_endpoint, edge.sizeOf_spec, EdgeStmt.mk.sizeOf_spec] at this ⊢
    omega
  | subgraph g =>
    obtain ⟨s, hs, rfl⟩ := List.mem_map.1 h
    have := List.sizeOf_lt_of_mem hs
    cases g
    simp only [subgraph.sizeOf_spec, stmt.sizeOf_spec, Subgraph.mk.sizeOf_spec] at this ⊢
    omega
  | node | nodeId | attributes | assignment => exact absurd h List.not_mem_nil

/-- What holds of an element if it holds of its parts holds of every element. -/
theorem induction {P : Element → Prop} (step : ∀ e, (∀ p ∈ e.parts, P p) → P e) (e : Element) :
    P e :=
  step e fun p _ => induction step p
termination_by sizeOf e
decreasing_by exact sizeOf_lt_of_mem_parts ‹_›

/-- An element and all below it, each in front of its parts, but nothing below the elements of the
kinds in `stop`. -/
def preorder (stop : List Hook) (e : Element) : List Element :=
  e :: if e.hook ∈ stop then [] else e.parts.attach.flatMap fun p => preorder stop p.1
termination_by sizeOf e
decreasing_by exact sizeOf_lt_of_mem_parts p.2

theorem preorder_eq (stop : List Hook) (e : Element) :
    e.preorder stop = e :: if e.hook ∈ stop then [] else e.parts.flatMap (preorder stop) := by
  rw [preorder, List.flatMap_subtype, List.unattach_attach]
  intro p hp
  rfl

end Element

/-- The elements of a graph in preorder, without those below the elements of the kinds in `stop`. -/
def Graph.elements (stop : List Hook) (g : Graph) : List Element := (Element.graph g).preorder stop

/-! ## What a visitor does -/

/-- Goes on with the parts of an element unless its kind is one of `stop`. -/
def goOn {σ : Type} (stop : List Hook) (hook : Hook) (parts : σ → σ) (state : σ) : σ :=
  if hook ∈ stop then state else parts state

namespace Visitor

variable {σ : Type}

/-- Walks over an element. -/
def visitElement (v : Visitor σ) : Element → σ → σ
  | .graph g => v.visit g
  | .stmt s => v.visitStmt s
  | .node s => v.node s
  | .edge s => v.visitEdge s
  | .nodeId n => v.nodeId n
  | .attributes s => v.attributes s
  | .assignment s => v.assignment s
  | .subgraph g => v.visitSubgraph g

/-- Walks over elements one after the other. -/
def visitElements (v : Visitor σ) (elements : List Element) (state : σ) : σ :=
  elements.foldl (fun state e => v.visitElement e state) state

theorem visitStmts_eq (v : Visitor σ) (body : List Stmt) (state : σ) :
    v.visitStmts body state = v.visitElements (body.map .stmt) state := by
  induction body generalizing state with
  | nil => rw [visitStmts]; rfl
  | cons s body ih => rw [visitStmts, ih]; rfl

theorem visitEndpoint_eq (v : Visitor σ) (e : Endpoint) (state : σ) :
    v.visitEndpoint e state = v.visitElement e.element state := by
  cases e <;> rw [visitEndpoint] <;> rfl

theorem visitEndpoints_eq (v : Visitor σ) (endpoints : List Endpoint) (state : σ) :
    v.visitEndpoints endpoints state = v.visitElements (endpoints.map Endpoint.element) state := by
  induction endpoints generalizing state with
  | nil => rw [visitEndpoints]; rfl
  | cons e endpoints ih => rw [visitEndpoints, ih, visitEndpoint_eq]; rfl

/-- The visitor does `note` with each element and then goes on with its parts, except with those of
the elements of the kinds in `stop`. -/
structure Follows (v : Visitor σ) (note : Element → σ → σ) (stop : List Hook) : Prop where
  graph (g : Graph) (parts : σ → σ) (state : σ) :
    v.graph g parts state = goOn stop .graph parts (note (.graph g) state)
  stmt (s : Stmt) (parts : σ → σ) (state : σ) :
    v.stmt s parts state = goOn stop .stmt parts (note (.stmt s) state)
  node (s : NodeStmt) (state : σ) : v.node s state = note (.node s) state
  edge (s : EdgeStmt) (parts : σ → σ) (state : σ) :
    v.edge s parts state = goOn stop .edge parts (note (.edge s) state)
  nodeId (n : NodeId) (state : σ) : v.nodeId n state = note (.nodeId n) state
  attributes (s : AttributeStmt) (state : σ) : v.attributes s state = note (.attributes s) state
  assignment (s : Assignment) (state : σ) : v.assignment s state = note (.assignment s) state
  subgraph (g : Subgraph) (parts : σ → σ) (state : σ) :
    v.subgraph g parts state = goOn stop .subgraph parts (note (.subgraph g) state)

namespace Follows

variable {v : Visitor σ} {note : Element → σ → σ} {stop : List Hook}

/-- A walk over an element notes it and goes on with its parts. -/
theorem visitElement_eq (h : v.Follows note stop) (e : Element) (state : σ) :
    v.visitElement e state = goOn stop e.hook (v.visitElements e.parts) (note e state) := by
  have hleaf (hook : Hook) (state : σ) : goOn stop hook (v.visitElements []) state = state :=
    ite_self state
  cases e with
  | graph g =>
    rw [visitElement, visit, h.graph]
    exact congrArg (goOn stop .graph · _) (funext (v.visitStmts_eq g.body))
  | stmt s =>
    cases s <;> rw [visitElement, visitStmt, h.stmt] <;> rfl
  | node s => exact (h.node s state).trans (hleaf _ _).symm
  | edge s =>
    obtain ⟨endpoints, attributes⟩ := s
    rw [visitElement, visitEdge, h.edge]
    exact congrArg (goOn stop .edge · _) (funext (v.visitEndpoints_eq endpoints))
  | nodeId n => exact (h.nodeId n state).trans (hleaf _ _).symm
  | attributes s => exact (h.attributes s state).trans (hleaf _ _).symm
  | assignment s => exact (h.assignment s state).trans (hleaf _ _).symm
  | subgraph g =>
    obtain ⟨id, body⟩ := g
    rw [visitElement, visitSubgraph, h.subgraph]
    exact congrArg (goOn stop .subgraph · _) (funext (v.visitStmts_eq body))

/-- A walk over an element notes it and all below it in preorder. -/
theorem visitElement_preorder (h : v.Follows note stop) (e : Element) (state : σ) :
    v.visitElement e state = (e.preorder stop).foldl (fun state e => note e state) state := by
  induction e using Element.induction generalizing state with
  | step e ih =>
    rw [h.visitElement_eq, Element.preorder_eq, List.foldl_cons, goOn]
    split
    · rfl
    · rw [List.foldl_flatMap]
      exact List.foldl_ext _ _ _ fun state p hp => ih p hp state

/-- A walk over a graph notes its elements in preorder. -/
theorem visit_eq (h : v.Follows note stop) (g : Graph) (state : σ) :
    v.visit g state = (g.elements stop).foldl (fun state e => note e state) state :=
  h.visitElement_preorder (.graph g) state

end Follows

end Visitor

/-! ## Traces -/

theorem Visitor.recorder_follows (stop : List Hook) :
    (recorder stop).Follows (fun e trace => trace.push e.event) stop where
  graph _ _ _ := rfl
  stmt _ _ _ := rfl
  node _ _ := rfl
  edge _ _ _ := rfl
  nodeId _ _ := rfl
  attributes _ _ := rfl
  assignment _ _ := rfl
  subgraph _ _ _ := rfl

/-- The kinds of elements without parts. -/
def Hook.leaves : List Hook := [.node, .nodeId, .attributes, .assignment]

theorem Visitor.leafRecorder_follows {hooks : List Hook} (h : hooks ⊆ Hook.leaves) :
    (leafRecorder hooks).Follows (fun e => recordIf hooks e.event) [] := by
  have hpass {hook : Hook} (hhook : hook ∉ Hook.leaves) (e : Event) (he : e.hook = hook)
      (trace : Array Event) : recordIf hooks e trace = trace :=
    if_neg fun hmem => hhook (he ▸ h hmem)
  constructor
  · intro g parts trace
    exact congrArg parts (hpass (by decide : Hook.graph ∉ Hook.leaves) _ rfl trace).symm
  · intro s parts trace
    exact congrArg parts (hpass (by decide : Hook.stmt ∉ Hook.leaves) _ rfl trace).symm
  · exact fun _ _ => rfl
  · intro s parts trace
    exact congrArg parts (hpass (by decide : Hook.edge ∉ Hook.leaves) _ rfl trace).symm
  · exact fun _ _ => rfl
  · exact fun _ _ => rfl
  · exact fun _ _ => rfl
  · intro g parts trace
    exact congrArg parts (hpass (by decide : Hook.subgraph ∉ Hook.leaves) _ rfl trace).symm

/-- The trace of a graph notes its elements in preorder. -/
theorem Graph.visit_recorder (g : Graph) (stop : List Hook) (trace : Array Event) :
    (Visitor.recorder stop).visit g trace =
      trace ++ ((g.elements stop).map Element.event).toArray := by
  rw [(Visitor.recorder_follows stop).visit_eq, List.foldl_push_eq_append]

/-- A trace of elements without parts is what the whole trace says about them. -/
theorem Graph.visit_leafRecorder (g : Graph) {hooks : List Hook} (h : hooks ⊆ Hook.leaves) :
    (Visitor.leafRecorder hooks).visit g #[] =
      ((Visitor.recorder []).visit g #[]).filter (fun e => e.hook ∈ hooks) := by
  have hpush := @List.foldl_push_eq_append _ _ ((g.elements []).filter fun e => e.hook ∈ hooks)
    Element.event #[]
  rw [Array.empty_append, List.foldl_filter] at hpush
  simp only [decide_eq_true_eq] at hpush
  rw [(Visitor.leafRecorder_follows h).visit_eq, visit_recorder, Array.empty_append,
    List.filter_toArray, List.filter_map]
  exact hpush

/-! ## Events listed without a visitor -/

/-- The events of an element, listed without a visitor. -/
def Element.events (stop : List Hook) : Element → List Event
  | .graph g => g.events stop
  | .stmt s => s.events stop
  | .edge s => s.events stop
  | .subgraph g => g.events stop
  | e => [e.event]

theorem bodyEvents_eq (stop : List Hook) (body : List Stmt) :
    bodyEvents stop body = (body.map Element.stmt).flatMap (Element.events stop) := by
  induction body with
  | nil => rw [bodyEvents]; rfl
  | cons s body ih => rw [bodyEvents, ih]; rfl

theorem Endpoint.events_eq (stop : List Hook) (e : Endpoint) :
    e.events stop = e.element.events stop := by
  cases e <;> rw [Endpoint.events] <;> rfl

theorem endpointEvents_eq (stop : List Hook) (endpoints : List Endpoint) :
    endpointEvents stop endpoints =
      (endpoints.map Endpoint.element).flatMap (Element.events stop) := by
  induction endpoints with
  | nil => rw [endpointEvents]; rfl
  | cons e endpoints ih => rw [endpointEvents, ih, Endpoint.events_eq]; rfl

namespace Element

theorem events_eq (stop : List Hook) (e : Element) :
    e.events stop = Event.above stop e.event (e.parts.flatMap (events stop)) := by
  cases e with
  | graph g => rw [events, Graph.events, bodyEvents_eq]; rfl
  | stmt s =>
    rw [parts, List.flatMap_singleton]
    cases s <;> rw [events, Stmt.events] <;> rfl
  | edge s =>
    obtain ⟨endpoints, attributes⟩ := s
    rw [events, EdgeStmt.events, endpointEvents_eq]
    rfl
  | subgraph g =>
    obtain ⟨id, body⟩ := g
    rw [events, Subgraph.events, bodyEvents_eq]
    rfl
  | node | nodeId | attributes | assignment => simp [events, Event.above, parts]

/-- The events are those of the elements in preorder. -/
theorem events_eq_map (stop : List Hook) (e : Element) :
    e.events stop = (e.preorder stop).map event := by
  induction e using Element.induction with
  | step e ih =>
    rw [events_eq, preorder_eq, Event.above, List.map_cons]
    congr 1
    change (if e.hook ∈ stop then _ else _) = _
    split
    · rfl
    · rw [List.map_flatMap]
      exact List.flatMap_congr ih

end Element

/-! ## Counts -/

/-- The edges that an event stands for. -/
def Event.arrows : Event → Nat
  | edge endpoints => endpoints - 1
  | _ => 0

/-- The counts of a trace. -/
def Stats.ofTrace (trace : List Event) : Stats where
  nodeStmts := trace.countP (·.hook = .node)
  edgeStmts := trace.countP (·.hook = .edge)
  edges := (trace.map Event.arrows).sum
  attributeStmts := trace.countP (·.hook = .attributes)
  assignments := trace.countP (·.hook = .assignment)
  subgraphs := trace.countP (·.hook = .subgraph)

namespace Stats

/-- Counts one event more. -/
def note : Event → Stats → Stats
  | .graph _, stats => stats
  | .stmt _, stats => stats
  | .node _, stats => { stats with nodeStmts := stats.nodeStmts + 1 }
  | .edge n, stats =>
    { stats with edgeStmts := stats.edgeStmts + 1, edges := stats.edges + (n - 1) }
  | .nodeId _, stats => stats
  | .attributes _, stats => { stats with attributeStmts := stats.attributeStmts + 1 }
  | .assignment _, stats => { stats with assignments := stats.assignments + 1 }
  | .subgraph _, stats => { stats with subgraphs := stats.subgraphs + 1 }

theorem visitor_follows : visitor.Follows (fun e => note e.event) [] where
  graph _ _ _ := rfl
  stmt _ _ _ := rfl
  node _ _ := rfl
  edge _ _ _ := rfl
  nodeId _ _ := rfl
  attributes _ _ := rfl
  assignment _ _ := rfl
  subgraph _ _ _ := rfl

theorem ofTrace_concat (trace : List Event) (e : Event) :
    ofTrace (trace ++ [e]) = note e (ofTrace trace) := by
  cases e <;> simp [ofTrace, note, Event.hook, Event.arrows]

end Stats

theorem Graph.stats_eq (g : Graph) : g.stats = .ofTrace ((g.elements []).map Element.event) := by
  rw [stats, Stats.visitor_follows.visit_eq]
  generalize g.elements [] = elements
  induction elements using List.reverseRecOn with
  | nil => rfl
  | append_singleton elements e ih =>
    rw [List.foldl_concat, ih, List.map_append, List.map_singleton, Stats.ofTrace_concat]

/-- A walk meets each element of a graph once, in preorder, and nothing below the elements at which
the visitor stops: whatever a visitor does with each element, that is what it does with the elements
of the graph. So a trace of all elements lists their events, a trace of elements without parts is
what the whole trace says about these, and the counts of a graph are those of the whole trace. -/
theorem visitors_meet_elements (g : Graph) :
    (∀ (σ : Type) (v : Visitor σ) (note : Element → σ → σ) (stop : List Hook),
      v.Follows note stop → ∀ state : σ,
        v.visit g state = (g.elements stop).foldl (fun state e => note e state) state) ∧
    (∀ (stop : List Hook) (trace : Array Event),
      (Visitor.recorder stop).visit g trace = trace ++ (g.events stop).toArray ∧
        g.events stop = (g.elements stop).map Element.event) ∧
    (∀ hooks ⊆ Hook.leaves, (Visitor.leafRecorder hooks).visit g #[] =
      ((Visitor.recorder []).visit g #[]).filter fun e => e.hook ∈ hooks) ∧
    g.stats = .ofTrace ((Visitor.recorder []).visit g #[]).toList := by
  have hevents (stop : List Hook) : g.events stop = (g.elements stop).map Element.event :=
    Element.events_eq_map stop (.graph g)
  refine ⟨fun σ v note stop h state => h.visit_eq g state, fun stop trace => ⟨?_, hevents stop⟩,
    fun hooks h => g.visit_leafRecorder h, ?_⟩
  · rw [hevents, g.visit_recorder]
  · rw [g.stats_eq, g.visit_recorder, Array.empty_append]

end DotLang
