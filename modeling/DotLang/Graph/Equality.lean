import DotLang.Error
import DotLang.Graph

/-!
# Equality of graphs

Two graphs are the same if they have the same shape and the same ids. Numbers are compared as
numbers: the two zeros are the same, and a NaN is not even the same as itself. So `same` is
coarser than `=` on zeros and finer on NaN.
-/

namespace DotLang

def Id.same : Id → Id → Bool
  | name s, name t => s = t
  | number x, number y => x.same y
  | html s, html t => s = t
  | _, _ => false

/-- Both absent, or both present and the same. -/
def sameOption {α : Type} (same : α → α → Bool) : Option α → Option α → Bool
  | none, none => true
  | some a, some b => same a b
  | _, _ => false

/-- The same length, and the same element in each place. -/
def sameList {α : Type} (same : α → α → Bool) : List α → List α → Bool
  | [], [] => true
  | a :: as, b :: bs => same a b && sameList same as bs
  | _, _ => false

def Attribute.same (a b : Attribute) : Bool := a.key.same b.key && a.value.same b.value

def Port.same (a b : Port) : Bool := a.id.same b.id && sameOption Id.same a.compass b.compass

def NodeId.same (a b : NodeId) : Bool := a.id.same b.id && sameOption Port.same a.port b.port

def NodeStmt.same (a b : NodeStmt) : Bool :=
  a.node.same b.node && sameList Attribute.same a.attributes b.attributes

def AttributeStmt.same (a b : AttributeStmt) : Bool :=
  a.target = b.target && sameList Attribute.same a.attributes b.attributes

def Assignment.same (a b : Assignment) : Bool := a.key.same b.key && a.value.same b.value

mutual

def Stmt.same : Stmt → Stmt → Bool
  | .node a, .node b => a.same b
  | .edge a, .edge b => a.same b
  | .attributes a, .attributes b => a.same b
  | .assignment a, .assignment b => a.same b
  | .subgraph a, .subgraph b => a.same b
  | _, _ => false

def EdgeStmt.same : EdgeStmt → EdgeStmt → Bool
  | ⟨es, as⟩, ⟨fs, bs⟩ => sameEndpoints es fs && sameList Attribute.same as bs

def Endpoint.same : Endpoint → Endpoint → Bool
  | .node a, .node b => a.same b
  | .subgraph a, .subgraph b => a.same b
  | _, _ => false

def Subgraph.same : Subgraph → Subgraph → Bool
  | ⟨i, ss⟩, ⟨j, ts⟩ => sameOption Id.same i j && sameStmts ss ts

def sameEndpoints : List Endpoint → List Endpoint → Bool
  | [], [] => true
  | e :: es, f :: fs => e.same f && sameEndpoints es fs
  | _, _ => false

def sameStmts : List Stmt → List Stmt → Bool
  | [], [] => true
  | s :: ss, t :: ts => s.same t && sameStmts ss ts
  | _, _ => false

end

def GraphHead.same (a b : GraphHead) : Bool :=
  a.kind = b.kind && a.strict = b.strict && sameOption Id.same a.id b.id

def Graph.same (g h : Graph) : Bool :=
  g.toGraphHead.same h.toGraphHead && sameStmts g.body h.body

/-- Whether two readings have the same outcome: the same graphs, or one and the same error. -/
def sameResult : Except Error (List Graph) → Except Error (List Graph) → Bool
  | .ok gs, .ok hs => sameList Graph.same gs hs
  | .error e, .error f => e = f
  | _, _ => false

end DotLang
