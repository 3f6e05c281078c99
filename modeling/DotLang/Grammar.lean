import DotLang.Graph.Keywords

/-!
# The grammar as a relation

`DerivesText room kinds graphs` says that the tokens `kinds` are a text and that `graphs` is what
it stands for. The relation says nothing about how a text is read. Each construct has a
relation of its own, built from those of its parts in the order in which they are written.

Constructs that may hold subgraphs are related with some `room`: the number of subgraphs that may
still be opened inside each other.
-/

namespace DotLang.Grammar

/-- Quoted strings with plus signs between them, and the string that they make up. -/
inductive DerivesString : List TokenKind → String → Prop where
  | one (s : String) : DerivesString [.string s] s
  | more {kinds : List TokenKind} {s : String} (t : String) :
      DerivesString kinds s → DerivesString (kinds ++ [.symbol .plus, .string t]) (s ++ t)

inductive DerivesId : List TokenKind → Id → Prop where
  | identifier (s : String) : DerivesId [.identifier s] (.name s)
  | string {kinds : List TokenKind} {s : String} :
      DerivesString kinds s → DerivesId kinds (.name s)
  | number (x : Binary64) : DerivesId [.number x] (.number x)
  | html (s : String) : DerivesId [.html s] (.html s)

/-- An id that may be left out. -/
inductive DerivesOptionalId : List TokenKind → Option Id → Prop where
  | absent : DerivesOptionalId [] none
  | present {kinds : List TokenKind} {i : Id} :
      DerivesId kinds i → DerivesOptionalId kinds (some i)

/-- A node, and a port and a direction behind colons. -/
inductive DerivesNode : List TokenKind → NodeId → Prop where
  | id {ks : List TokenKind} {i : Id} : DerivesId ks i → DerivesNode ks ⟨i, none⟩
  | port {ks ls : List TokenKind} {i p : Id} :
      DerivesId ks i → DerivesId ls p →
      DerivesNode (ks ++ .symbol .colon :: ls) ⟨i, some ⟨p, none⟩⟩
  | compass {ks ls ms : List TokenKind} {i p c : Id} :
      DerivesId ks i → DerivesId ls p → DerivesId ms c →
      DerivesNode (ks ++ .symbol .colon :: ls ++ .symbol .colon :: ms) ⟨i, some ⟨p, some c⟩⟩

/-- Nothing, a semicolon or a comma. -/
inductive Separates : List TokenKind → Prop where
  | nothing : Separates []
  | semicolon : Separates [.symbol .semicolon]
  | comma : Separates [.symbol .comma]

/-- Attributes inside brackets. -/
inductive DerivesGroup : List TokenKind → List Attribute → Prop where
  | nil : DerivesGroup [] []
  | cons {ks ls sep ms : List TokenKind} {key value : Id} {rest : List Attribute} :
      DerivesId ks key → DerivesId ls value → Separates sep → DerivesGroup ms rest →
      DerivesGroup (ks ++ .symbol .equal :: ls ++ sep ++ ms) (⟨key, value⟩ :: rest)

/-- Groups of attributes, each in its brackets. -/
inductive DerivesGroups : List TokenKind → List Attribute → Prop where
  | nil : DerivesGroups [] []
  | cons {ks ls : List TokenKind} {first rest : List Attribute} :
      DerivesGroup ks first → DerivesGroups ls rest →
      DerivesGroups (.symbol .openBracket :: ks ++ .symbol .closeBracket :: ls) (first ++ rest)

mutual

inductive DerivesStmt : Nat → List TokenKind → Stmt → Prop where
  | node {room : Nat} {ks ls : List TokenKind} {n : NodeId} {as : List Attribute} :
      DerivesNode ks n → DerivesGroups ls as → DerivesStmt room (ks ++ ls) (.node ⟨n, as⟩)
  | edge {room : Nat} {ks ls ms : List TokenKind} {first : Endpoint} {later : List Endpoint}
      {as : List Attribute} :
      DerivesEndpoint room ks first → DerivesLater room ls later → later ≠ [] →
      DerivesGroups ms as → DerivesStmt room (ks ++ ls ++ ms) (.edge ⟨first :: later, as⟩)
  | attributes {room : Nat} {word : TokenKind} {target : AttributeTarget} {ks : List TokenKind}
      {as : List Attribute} :
      word.target? = some target → DerivesGroups ks as → ks ≠ [] →
      DerivesStmt room (word :: ks) (.attributes ⟨target, as⟩)
  | assignment {room : Nat} {ks ls : List TokenKind} {key value : Id} :
      DerivesId ks key → DerivesId ls value →
      DerivesStmt room (ks ++ .symbol .equal :: ls) (.assignment ⟨key, value⟩)
  | subgraph {room : Nat} {ks : List TokenKind} {g : Subgraph} :
      DerivesSubgraph room ks g → DerivesStmt room ks (.subgraph g)

inductive DerivesEndpoint : Nat → List TokenKind → Endpoint → Prop where
  | node {room : Nat} {ks : List TokenKind} {n : NodeId} :
      DerivesNode ks n → DerivesEndpoint room ks (.node n)
  | subgraph {room : Nat} {ks : List TokenKind} {g : Subgraph} :
      DerivesSubgraph room ks g → DerivesEndpoint room ks (.subgraph g)

/-- Endpoints with an arrow before each. Either arrow will do in a graph of either kind. -/
inductive DerivesLater : Nat → List TokenKind → List Endpoint → Prop where
  | nil {room : Nat} : DerivesLater room [] []
  | cons {room : Nat} {op : EdgeOp} {ks ls : List TokenKind} {e : Endpoint}
      {rest : List Endpoint} :
      DerivesEndpoint room ks e → DerivesLater room ls rest →
      DerivesLater room (.edgeOp op :: ks ++ ls) (e :: rest)

/-- A subgraph takes up one room. Without its keyword it has no id. -/
inductive DerivesSubgraph : Nat → List TokenKind → Subgraph → Prop where
  | bare {room : Nat} {ks : List TokenKind} {body : List Stmt} :
      DerivesBody room ks body →
      DerivesSubgraph (room + 1) (.symbol .openBrace :: ks ++ [.symbol .closeBrace]) ⟨none, body⟩
  | named {room : Nat} {is ks : List TokenKind} {id : Option Id} {body : List Stmt} :
      DerivesOptionalId is id → DerivesBody room ks body →
      DerivesSubgraph (room + 1)
        (.keyword .subgraph :: is ++ .symbol .openBrace :: ks ++ [.symbol .closeBrace]) ⟨id, body⟩

/-- Statements, and semicolons anywhere between them. -/
inductive DerivesBody : Nat → List TokenKind → List Stmt → Prop where
  | nil {room : Nat} : DerivesBody room [] []
  | semicolon {room : Nat} {ks : List TokenKind} {body : List Stmt} :
      DerivesBody room ks body → DerivesBody room (.symbol .semicolon :: ks) body
  | cons {room : Nat} {ks ls : List TokenKind} {s : Stmt} {rest : List Stmt} :
      DerivesStmt room ks s → DerivesBody room ls rest → DerivesBody room (ks ++ ls) (s :: rest)

end

/-- The word that may stand in front of a graph. -/
inductive DerivesStrict : List TokenKind → Bool → Prop where
  | absent : DerivesStrict [] false
  | present : DerivesStrict [.keyword .strict] true

inductive DerivesGraph : Nat → List TokenKind → Graph → Prop where
  | mk {room : Nat} {ss is ks : List TokenKind} {strict : Bool} {word : TokenKind}
      {kind : GraphKind} {id : Option Id} {body : List Stmt} :
      DerivesStrict ss strict → word.graphKind? = some kind → DerivesOptionalId is id →
      DerivesBody room ks body →
      DerivesGraph room
        (ss ++ word :: is ++ .symbol .openBrace :: ks ++ [.symbol .closeBrace])
        ⟨⟨kind, strict, id⟩, body⟩

/-- One graph or more. -/
inductive DerivesGraphs : Nat → List TokenKind → List Graph → Prop where
  | one {room : Nat} {ks : List TokenKind} {g : Graph} :
      DerivesGraph room ks g → DerivesGraphs room ks [g]
  | cons {room : Nat} {ks ls : List TokenKind} {g : Graph} {rest : List Graph} :
      DerivesGraph room ks g → DerivesGraphs room ls rest →
      DerivesGraphs room (ks ++ ls) (g :: rest)

/-- A whole text: its graphs, and the end of input behind them. -/
inductive DerivesText : Nat → List TokenKind → List Graph → Prop where
  | mk {room : Nat} {ks : List TokenKind} {gs : List Graph} :
      DerivesGraphs room ks gs → DerivesText room (ks ++ [.eof]) gs

end DotLang.Grammar
