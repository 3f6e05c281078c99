import DotLang.Graph

/-!
# Walks over a graph

A `Visitor` has a hook for each kind of element. A walk meets the elements in the order in which
they are written, each before its parts. The hook of an element that has parts decides what to do
with the walk over them: by default it only goes on with that walk. So a visitor gives only the
hooks that it is interested in.

* `Visitor.visit`: walks over a graph.
-/

namespace DotLang

/-- What to do with each kind of element, with a state of type `σ`. -/
structure Visitor (σ : Type) where
  graph : Graph → (σ → σ) → σ → σ := fun _ parts => parts
  stmt : Stmt → (σ → σ) → σ → σ := fun _ parts => parts
  node : NodeStmt → σ → σ := fun _ state => state
  edge : EdgeStmt → (σ → σ) → σ → σ := fun _ parts => parts
  nodeId : NodeId → σ → σ := fun _ state => state
  attributes : AttributeStmt → σ → σ := fun _ state => state
  assignment : Assignment → σ → σ := fun _ state => state
  subgraph : Subgraph → (σ → σ) → σ → σ := fun _ parts => parts

namespace Visitor

variable {σ : Type}

mutual

def visitStmt (v : Visitor σ) : Stmt → σ → σ
  | .node s => v.stmt (.node s) (v.node s)
  | .edge s => v.stmt (.edge s) (v.visitEdge s)
  | .attributes s => v.stmt (.attributes s) (v.attributes s)
  | .assignment s => v.stmt (.assignment s) (v.assignment s)
  | .subgraph g => v.stmt (.subgraph g) (v.visitSubgraph g)

def visitEdge (v : Visitor σ) : EdgeStmt → σ → σ
  | ⟨endpoints, attributes⟩ => v.edge ⟨endpoints, attributes⟩ (v.visitEndpoints endpoints)

def visitEndpoint (v : Visitor σ) : Endpoint → σ → σ
  | .node n => v.nodeId n
  | .subgraph g => v.visitSubgraph g

def visitSubgraph (v : Visitor σ) : Subgraph → σ → σ
  | ⟨id, body⟩ => v.subgraph ⟨id, body⟩ (v.visitStmts body)

def visitEndpoints (v : Visitor σ) : List Endpoint → σ → σ
  | [], state => state
  | e :: rest, state => v.visitEndpoints rest (v.visitEndpoint e state)

def visitStmts (v : Visitor σ) : List Stmt → σ → σ
  | [], state => state
  | s :: rest, state => v.visitStmts rest (v.visitStmt s state)

end

/-- Walks over a graph. -/
def visit (v : Visitor σ) (g : Graph) : σ → σ := v.graph g (v.visitStmts g.body)

end Visitor

end DotLang
