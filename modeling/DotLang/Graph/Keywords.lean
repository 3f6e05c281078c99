import DotLang.Graph
import DotLang.Token

/-!
# Keywords in graphs

Which graphs and which default attributes a keyword stands for. `graph` is both: it opens a graph,
and inside a graph it stands for the attributes of the graph.
-/

namespace DotLang.TokenKind

/-- The kind of graph that a keyword opens. -/
def graphKind? : TokenKind → Option GraphKind
  | keyword .graph => some .undirected
  | keyword .digraph => some .directed
  | _ => none

/-- What the attributes behind a keyword apply to. -/
def target? : TokenKind → Option AttributeTarget
  | keyword .graph => some .graph
  | keyword .node => some .node
  | keyword .edge => some .edge
  | _ => none

end DotLang.TokenKind
