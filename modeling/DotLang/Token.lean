import DotLang.Decimal.Layout
import DotLang.Position

/-!
# Tokens

What the text is cut into: names, strings, numbers, keywords, arrows and single symbols, each
with its text and place in the source.

* `Keyword.ofName?`: keywords are read without regard to ASCII case.
* `TokenKind.describe`: how a message names a token.
-/

namespace DotLang

/-- The reserved words. -/
inductive Keyword where
  | graph
  | digraph
  | subgraph
  | node
  | edge
  | strict
deriving DecidableEq

namespace Keyword

def all : List Keyword := [graph, digraph, subgraph, node, edge, strict]

/-- The keyword in lower case. -/
def name : Keyword → String
  | graph => "graph"
  | digraph => "digraph"
  | subgraph => "subgraph"
  | node => "node"
  | edge => "edge"
  | strict => "strict"

/-- The keyword that `word` spells, in whatever case its ASCII letters are. -/
def ofName? (word : List Char) : Option Keyword :=
  let lower := word.map Char.toLower
  all.find? fun k => k.name.toList = lower

/-- A word is the keyword `k` iff it is the name of `k` in lower case. -/
theorem ofName?_eq_some_iff {word : List Char} {k : Keyword} :
    ofName? word = some k ↔ k.name.toList = word.map Char.toLower := by
  unfold ofName?
  generalize word.map Char.toLower = lower
  constructor
  · intro h
    simpa using List.find?_some h
  · rintro rfl
    cases k <;> decide

end Keyword

/-- The arrows between the endpoints of an edge. -/
inductive EdgeOp where
  | directed
  | undirected
deriving DecidableEq

def EdgeOp.text : EdgeOp → String
  | .directed => "->"
  | .undirected => "--"

/-- The tokens of one character. -/
inductive Symbol where
  | equal
  | colon
  | comma
  | semicolon
  | plus
  | openBracket
  | closeBracket
  | openBrace
  | closeBrace
deriving DecidableEq

namespace Symbol

def all : List Symbol :=
  [equal, colon, comma, semicolon, plus, openBracket, closeBracket, openBrace, closeBrace]

def char : Symbol → Char
  | equal => '='
  | colon => ':'
  | comma => ','
  | semicolon => ';'
  | plus => '+'
  | openBracket => '['
  | closeBracket => ']'
  | openBrace => '{'
  | closeBrace => '}'

def ofChar? (c : Char) : Option Symbol := all.find? fun s => s.char = c

theorem ofChar?_eq_some_iff {c : Char} {s : Symbol} : ofChar? c = some s ↔ s.char = c := by
  constructor
  · intro h
    simpa using List.find?_some h
  · rintro rfl
    cases s <;> decide

/-- A symbol as a message shows it. -/
def quoted (s : Symbol) : String := "'" ++ s.char.toString ++ "'"

end Symbol

/-- What a token is, without its place. -/
inductive TokenKind where
  | eof
  | identifier (name : String)
  | string (value : String)
  | html (text : String)
  | number (value : Binary64)
  | keyword (word : Keyword)
  | edgeOp (op : EdgeOp)
  | symbol (symbol : Symbol)
deriving DecidableEq

namespace TokenKind

/-- Whether a token begins an id. -/
def startsId : TokenKind → Bool
  | identifier _ => true
  | string _ => true
  | html _ => true
  | number _ => true
  | _ => false

/-- Whether a token begins a subgraph. -/
def startsSubgraph (kind : TokenKind) : Bool :=
  kind = keyword .subgraph || kind = symbol .openBrace

def isArrow : TokenKind → Bool
  | edgeOp _ => true
  | _ => false

/-- How a message names a token. -/
def describe : TokenKind → String
  | eof => "end of input"
  | identifier name => "identifier \x60" ++ name ++ "\x60"
  | string value => "string \"" ++ value ++ "\""
  | html _ => "html string"
  | number value => "number " ++ value.display
  | keyword word => "keyword \x60" ++ word.name ++ "\x60"
  | edgeOp op => "'" ++ op.text ++ "'"
  | symbol s => s.quoted

end TokenKind

/-- A token with its text as written and the place of its first character. -/
structure Token where
  kind : TokenKind
  text : String
  pos : Position
deriving DecidableEq

end DotLang
