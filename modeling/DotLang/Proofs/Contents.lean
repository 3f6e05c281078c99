import DotLang.Proofs.BoundedRuns
import DotLang.Proofs.WrittenIds
import DotLang.Stats
import Mathlib.Algebra.GroupWithZero.Nat

/-!
# Nothing is lost

A text and the graphs that are read from it hold the same things: the same ids in the same order,
and as many statements, attributes and subgraphs as there are tokens that stand for them.

* `DerivesStmt.accounts` and its like: a walk over a construct counts its tokens.
* `contents_of_parse`: what is read from a text holds what the text holds.
-/

namespace DotLang

open Grammar

/-! ## What a walk counts -/

/-- Between the counts `before` and `after` the tokens `kinds` are counted, but for the equal signs
of `attributes` attributes and for `arrows` arrows. Default attributes are counted by their
keywords, and no graph stands inside. -/
structure Accounts (kinds : List TokenKind) (attributes arrows : Nat) (before after : Stats) :
    Prop where
  edges : after.edges + arrows = before.edges + kinds.countP TokenKind.isArrow
  opened : after.subgraphs = before.subgraphs + kinds.count (.symbol .openBrace)
  closed : after.subgraphs = before.subgraphs + kinds.count (.symbol .closeBrace)
  assignments :
    after.assignments + attributes = before.assignments + kinds.count (.symbol .equal)
  attributeStmts :
    after.attributeStmts = before.attributeStmts + kinds.count (.keyword .graph) +
      kinds.count (.keyword .node) + kinds.count (.keyword .edge)
  digraph : kinds.count (.keyword .digraph) = 0
  strict : kinds.count (.keyword .strict) = 0

namespace Accounts

variable {ks ls : List TokenKind} {m n k l : Nat} {s t u : Stats} {kind : TokenKind}

theorem append (h : Accounts ks m k s t) (hl : Accounts ls n l t u) :
    Accounts (ks ++ ls) (m + n) (k + l) s u := by
  obtain ⟨hedges, hopened, hclosed, hassignments, hattributes, hdigraph, hstrict⟩ := h
  obtain ⟨hedges', hopened', hclosed', hassignments', hattributes', hdigraph', hstrict'⟩ := hl
  constructor <;> simp only [List.countP_append, List.count_append] <;> omega

theorem nil : Accounts [] 0 0 s s := ⟨rfl, rfl, rfl, rfl, rfl, rfl, rfl⟩

/-- What is in front of some tokens is counted on its own. -/
theorem cons (h : Accounts [kind] m k s t) (hl : Accounts ks n l t u) :
    Accounts (kind :: ks) (m + n) (k + l) s u := h.append hl

theorem arrow (op : EdgeOp) : Accounts [.edgeOp op] 0 1 s s := by
  cases op <;> exact ⟨rfl, rfl, rfl, rfl, rfl, rfl, rfl⟩

theorem target {target : AttributeTarget} (h : kind.target? = some target) :
    Accounts [kind] 0 0 s { s with attributeStmts := s.attributeStmts + 1 } := by
  cases kind with
  | keyword word =>
    cases word <;> first | exact ⟨rfl, rfl, rfl, rfl, rfl, rfl, rfl⟩ | exact nomatch h
  | _ => exact nomatch h

/-- Node statements are counted as well, but nothing in the tokens tells their number. -/
theorem node (h : Accounts ks m k s t) :
    Accounts ks m k s { t with nodeStmts := t.nodeStmts + 1 } :=
  ⟨h.edges, h.opened, h.closed, h.assignments, h.attributeStmts, h.digraph, h.strict⟩

/-- A subgraph is counted with both of its braces. -/
theorem braces (h : Accounts ks m k { s with subgraphs := s.subgraphs + 1 } t) :
    Accounts (.symbol .openBrace :: ks ++ [.symbol .closeBrace]) m k s t := by
  obtain ⟨hedges, hopened, hclosed, hassignments, hattributes, hdigraph, hstrict⟩ := h
  dsimp only at hedges hopened hclosed hassignments hattributes
  constructor <;> simp [TokenKind.isArrow, *] <;> omega

/-- Of a chain of endpoints the arrows are counted first. -/
theorem chain {arrows : Nat}
    (h : Accounts ks m arrows
      { s with edgeStmts := s.edgeStmts + 1, edges := s.edges + arrows } t) :
    Accounts ks m 0 s t := by
  obtain ⟨hedges, hopened, hclosed, hassignments, hattributes, hdigraph, hstrict⟩ := h
  refine ⟨?_, hopened, hclosed, hassignments, hattributes, hdigraph, hstrict⟩
  dsimp only at hedges
  omega

end Accounts

namespace Grammar

variable {room : Nat} {ks : List TokenKind} {s : Stats}

theorem DerivesString.accounts {text : String} (h : DerivesString ks text) :
    Accounts ks 0 0 s s := by
  induction h with
  | one text => exact ⟨rfl, rfl, rfl, rfl, rfl, rfl, rfl⟩
  | more text _ ih => exact ih.append ⟨rfl, rfl, rfl, rfl, rfl, rfl, rfl⟩

theorem DerivesId.accounts {i : Id} (h : DerivesId ks i) : Accounts ks 0 0 s s := by
  cases h with
  | string hs => exact hs.accounts
  | _ => exact ⟨rfl, rfl, rfl, rfl, rfl, rfl, rfl⟩

theorem DerivesOptionalId.accounts {i : Option Id} (h : DerivesOptionalId ks i) :
    Accounts ks 0 0 s s := by
  cases h with
  | absent => exact .nil
  | present hi => exact hi.accounts

theorem DerivesNode.accounts {n : NodeId} (h : DerivesNode ks n) : Accounts ks 0 0 s s := by
  have hcolon : Accounts [.symbol .colon] 0 0 s s := ⟨rfl, rfl, rfl, rfl, rfl, rfl, rfl⟩
  cases h with
  | id hi => exact hi.accounts
  | port hi hp => exact hi.accounts.append (hcolon.cons hp.accounts)
  | compass hi hp hc =>
    exact (hi.accounts.append (hcolon.cons hp.accounts)).append (hcolon.cons hc.accounts)

theorem Separates.accounts (h : Separates ks) : Accounts ks 0 0 s s := by
  cases h <;> exact ⟨rfl, rfl, rfl, rfl, rfl, rfl, rfl⟩

theorem DerivesGroup.accounts {as : List Attribute} (h : DerivesGroup ks as) :
    Accounts ks as.length 0 s s := by
  have hequal : Accounts [.symbol .equal] 1 0 s s := ⟨rfl, rfl, rfl, rfl, rfl, rfl, rfl⟩
  induction h with
  | nil => exact .nil
  | cons hkey hvalue hsep _ ih =>
    have := ((hkey.accounts.append (hequal.cons hvalue.accounts)).append hsep.accounts).append ih
    rwa [Nat.zero_add, Nat.add_comm] at this

theorem DerivesGroups.accounts {as : List Attribute} (h : DerivesGroups ks as) :
    Accounts ks as.length 0 s s := by
  have hopen : Accounts [.symbol .openBracket] 0 0 s s := ⟨rfl, rfl, rfl, rfl, rfl, rfl, rfl⟩
  have hclose : Accounts [.symbol .closeBracket] 0 0 s s := ⟨rfl, rfl, rfl, rfl, rfl, rfl, rfl⟩
  induction h with
  | nil => exact .nil
  | cons hfirst _ ih =>
    have := (hopen.cons hfirst.accounts).append (hclose.cons ih)
    rwa [Nat.zero_add, Nat.zero_add, ← List.length_append] at this

mutual

theorem DerivesStmt.accounts {room : Nat} {ks : List TokenKind} {stmt : Stmt}
    (h : DerivesStmt room ks stmt) (s : Stats) :
    Accounts ks stmt.allAttributes.length 0 s (Stats.visitor.visitStmt stmt s) :=
  match h with
  | .node hn has => by
    rw [Stmt.allAttributes, Visitor.visitStmt]
    have : Accounts _ _ 0 s s := hn.accounts.append has.accounts
    rw [Nat.zero_add] at this
    exact this.node
  | @DerivesStmt.edge _ _ _ _ first later as he hl _ has => by
    rw [Stmt.allAttributes, EdgeStmt.allAttributes, Visitor.visitStmt, Visitor.visitEdge,
      endpointAttributes, List.length_append, List.length_append]
    have hpath := he.accounts { s with
      edgeStmts := s.edgeStmts + 1, edges := s.edges + later.length }
    have := (hpath.append (hl.accounts _)).append has.accounts
    rw [Nat.zero_add, Nat.add_zero] at this
    exact this.chain
  | .attributes hword has _ => by
    rw [Stmt.allAttributes, Visitor.visitStmt]
    have := (Accounts.target (s := s) hword).cons has.accounts
    rw [Nat.zero_add] at this
    exact this
  | .assignment hkey hvalue => by
    rw [Stmt.allAttributes, Visitor.visitStmt]
    have hequal : Accounts [.symbol .equal] 0 0 s
        { s with assignments := s.assignments + 1 } := ⟨rfl, rfl, rfl, rfl, rfl, rfl, rfl⟩
    exact hkey.accounts.append (hequal.cons hvalue.accounts)
  | .subgraph hg => by
    rw [Stmt.allAttributes, Visitor.visitStmt]
    exact hg.accounts s

theorem DerivesEndpoint.accounts {room : Nat} {ks : List TokenKind} {e : Endpoint}
    (h : DerivesEndpoint room ks e) (s : Stats) :
    Accounts ks e.allAttributes.length 0 s (Stats.visitor.visitEndpoint e s) :=
  match h with
  | .node hn => by
    rw [Endpoint.allAttributes, Visitor.visitEndpoint]
    exact hn.accounts
  | .subgraph hg => by
    rw [Endpoint.allAttributes, Visitor.visitEndpoint]
    exact hg.accounts s

theorem DerivesLater.accounts {room : Nat} {ks : List TokenKind} {es : List Endpoint}
    (h : DerivesLater room ks es) (s : Stats) :
    Accounts ks (endpointAttributes es).length es.length s (Stats.visitor.visitEndpoints es s) :=
  match h with
  | .nil => by
    rw [endpointAttributes, Visitor.visitEndpoints]
    exact .nil
  | @DerivesLater.cons _ op _ _ _ _ he hl => by
    rw [endpointAttributes, Visitor.visitEndpoints, List.length_append, List.length_cons]
    have := ((Accounts.arrow op).cons (he.accounts s)).append (hl.accounts _)
    rwa [Nat.zero_add, Nat.add_comm (1 + 0)] at this

theorem DerivesSubgraph.accounts {room : Nat} {ks : List TokenKind} {g : Subgraph}
    (h : DerivesSubgraph room ks g) (s : Stats) :
    Accounts ks g.allAttributes.length 0 s (Stats.visitor.visitSubgraph g s) :=
  match h with
  | .bare hb => by
    rw [Subgraph.allAttributes, Visitor.visitSubgraph]
    exact (hb.accounts _).braces
  | .named hi hb => by
    rw [Subgraph.allAttributes, Visitor.visitSubgraph, List.append_assoc]
    have hword : Accounts [.keyword .subgraph] 0 0 s s := ⟨rfl, rfl, rfl, rfl, rfl, rfl, rfl⟩
    have := (hword.cons hi.accounts).append
      (hb.accounts { s with subgraphs := s.subgraphs + 1 }).braces
    rw [Nat.zero_add] at this
    exact this

theorem DerivesBody.accounts {room : Nat} {ks : List TokenKind} {b : List Stmt}
    (h : DerivesBody room ks b) (s : Stats) :
    Accounts ks (bodyAttributes b).length 0 s (Stats.visitor.visitStmts b s) :=
  match h with
  | .nil => by
    rw [bodyAttributes, Visitor.visitStmts]
    exact .nil
  | .semicolon hb => by
    have hsemicolon : Accounts [.symbol .semicolon] 0 0 s s :=
      ⟨rfl, rfl, rfl, rfl, rfl, rfl, rfl⟩
    have := hsemicolon.cons (hb.accounts s)
    rwa [Nat.zero_add] at this
  | .cons hs hb => by
    rw [bodyAttributes, Visitor.visitStmts, List.length_append]
    exact (hs.accounts s).append (hb.accounts _)

end

end Grammar

/-! ## Whole texts -/

/-- The counts of the graphs `gs` are those of the tokens `kinds`. -/
structure Counted (kinds : List TokenKind) (gs : List Graph) : Prop where
  edges : (gs.map fun g => g.stats.edges).sum = kinds.countP TokenKind.isArrow
  opened :
    (gs.map fun g => g.stats.subgraphs).sum + gs.length = kinds.count (.symbol .openBrace)
  closed :
    (gs.map fun g => g.stats.subgraphs).sum + gs.length = kinds.count (.symbol .closeBrace)
  assignments :
    (gs.map fun g => g.stats.assignments).sum + (gs.flatMap Graph.allAttributes).length =
      kinds.count (.symbol .equal)
  attributeStmts :
    (gs.map fun g => g.stats.attributeStmts).sum + gs.length =
      kinds.count (.keyword .graph) + kinds.count (.keyword .digraph) +
        kinds.count (.keyword .node) + kinds.count (.keyword .edge)
  strict : gs.countP (fun g => g.strict) = kinds.count (.keyword .strict)

theorem Counted.append {ks ls : List TokenKind} {gs hs : List Graph} (h : Counted ks gs)
    (hl : Counted ls hs) : Counted (ks ++ ls) (gs ++ hs) := by
  obtain ⟨hedges, hopened, hclosed, hassignments, hattributes, hstrict⟩ := h
  obtain ⟨hedges', hopened', hclosed', hassignments', hattributes', hstrict'⟩ := hl
  constructor <;>
    simp only [List.map_append, List.sum_append, List.length_append, List.flatMap_append,
      List.countP_append, List.count_append] <;>
    omega

namespace Grammar

variable {room : Nat} {ks : List TokenKind}

/-- In front of the id of a graph stands what is counted once for the graph. -/
theorem counts_of_head {strict : Bool} {word : TokenKind} {kind : GraphKind}
    (hstrict : DerivesStrict ks strict) (hword : word.graphKind? = some kind) :
      (ks ++ [word]).countP TokenKind.isArrow = 0 ∧
      (ks ++ [word]).count (.symbol .openBrace) = 0 ∧
      (ks ++ [word]).count (.symbol .closeBrace) = 0 ∧
      (ks ++ [word]).count (.symbol .equal) = 0 ∧
      (ks ++ [word]).count (.keyword .graph) + (ks ++ [word]).count (.keyword .digraph) = 1 ∧
      (ks ++ [word]).count (.keyword .node) = 0 ∧
      (ks ++ [word]).count (.keyword .edge) = 0 ∧
      (ks ++ [word]).count (.keyword .strict) = if strict then 1 else 0 := by
  cases word with
  | keyword word => cases hstrict <;> cases word <;> first | decide | exact nomatch hword
  | _ => exact nomatch hword

/-- The keyword and the braces of a graph are counted with its statements. -/
theorem DerivesGraph.counted {g : Graph} (h : DerivesGraph room ks g) : Counted ks [g] := by
  obtain @⟨ss, is, ks, strict, word, kind, id, body, hstrict, hword, hi, hb⟩ := h
  have hparts : ss ++ word :: is ++ .symbol .openBrace :: ks ++ [.symbol .closeBrace] =
      (ss ++ [word]) ++ (is ++ (.symbol .openBrace :: ks ++ [.symbol .closeBrace])) := by simp
  have hhead := counts_of_head hstrict hword
  obtain ⟨hedges, hopened, hclosed, hassignments, hattributes, hdigraph, hno⟩ :=
    hi.accounts.append (hb.accounts .zero)
  rw [hparts]
  generalize ss ++ [word] = head at *
  generalize hwalk : Stats.visitor.visitStmts body .zero = after at *
  have hstats : Graph.stats ⟨⟨kind, strict, id⟩, body⟩ = after := hwalk
  simp only [List.count_append, List.countP_append, Stats.zero] at *
  constructor <;> simp [hstats, Graph.allAttributes, TokenKind.isArrow] <;> omega

theorem DerivesGraphs.counted {gs : List Graph} (h : DerivesGraphs room ks gs) :
    Counted ks gs := by
  induction h with
  | one hg => exact hg.counted
  | cons hg _ ih => exact hg.counted.append ih

theorem DerivesText.counted {gs : List Graph} (h : DerivesText room ks gs) : Counted ks gs := by
  obtain ⟨hgs⟩ := h
  have heof : Counted [.eof] [] := ⟨rfl, rfl, rfl, rfl, rfl, rfl⟩
  have := hgs.counted.append heof
  rwa [List.append_nil] at this

end Grammar

/-- Nothing is lost, added or moved when a text is read: its graphs have the ids that its tokens
write down, each as often and in the same order, and their statements, attributes and subgraphs are
as many as the tokens that stand for them. -/
theorem contents_of_parse {source : String} {options : ParseOptions} {gs : List Graph}
    (h : parse source options = .ok gs) :
    ∃ tokens, Lexer.tokenize source = .ok tokens ∧
      gs.flatMap Graph.ids = writtenIds (tokens.map Token.kind) ∧
      Counted (tokens.map Token.kind) gs := by
  obtain ⟨tokens, htokens, htext⟩ := derivesText_of_parse h
  exact ⟨tokens, htokens, htext.flatMap_ids, htext.counted⟩

/-- A chain that ends in a subgraph, an attribute, and a string in two parts. -/
theorem contents_of_parse_chain : ∃ gs,
    parse "digraph\x7ba->\x7bb=\"c\"+\"d\"\x7d[e=f;]\x7d" ⟨1⟩ = .ok gs ∧
      gs.flatMap Graph.ids = [.name "a", .name "b", .name "cd", .name "e", .name "f"] ∧
      ∃ tokens,
        Lexer.tokenize "digraph\x7ba->\x7bb=\"c\"+\"d\"\x7d[e=f;]\x7d" = .ok tokens ∧
        gs.flatMap Graph.ids = writtenIds (tokens.map Token.kind) ∧
        Counted (tokens.map Token.kind) gs := by
  have h : parse "digraph\x7ba->\x7bb=\"c\"+\"d\"\x7d[e=f;]\x7d" ⟨1⟩ =
      .ok [⟨⟨.directed, false, none⟩,
        [.edge ⟨[.node ⟨.name "a", none⟩, .subgraph ⟨none, [.assignment ⟨.name "b", .name "cd"⟩]⟩],
          [⟨.name "e", .name "f"⟩]⟩]⟩] :=
    parse_eq_of_within 40 rfl rfl
  exact ⟨_, h, rfl, contents_of_parse h⟩

end DotLang
