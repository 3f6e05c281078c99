import DotLang.Visitor

/-!
# Statement counts

How many statements of each kind a graph holds, those inside subgraphs included. A chain of
endpoints is one edge statement, and one edge for each two neighbours.
-/

namespace DotLang

structure Stats where
  nodeStmts : Nat
  edgeStmts : Nat
  edges : Nat
  attributeStmts : Nat
  assignments : Nat
  subgraphs : Nat
deriving DecidableEq

namespace Stats

def zero : Stats := ⟨0, 0, 0, 0, 0, 0⟩

/-- Counts each element that it meets and goes on with its parts. -/
def visitor : Visitor Stats where
  node _ stats := { stats with nodeStmts := stats.nodeStmts + 1 }
  edge e parts stats :=
    parts { stats with
      edgeStmts := stats.edgeStmts + 1
      edges := stats.edges + (e.endpoints.length - 1) }
  attributes _ stats := { stats with attributeStmts := stats.attributeStmts + 1 }
  assignment _ stats := { stats with assignments := stats.assignments + 1 }
  subgraph _ parts stats := parts { stats with subgraphs := stats.subgraphs + 1 }

end Stats

/-- The statement counts of a graph. -/
def Graph.stats (g : Graph) : Stats := Stats.visitor.visit g .zero

end DotLang
