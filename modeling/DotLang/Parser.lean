import DotLang.Lexer
import DotLang.Parser.Step

/-!
# Parsers

A `Parser` reads constructs from a source text. It looks one token ahead and reads no further
than it must, so a malformed token behind the construct does no harm. After an error it stays
where it stopped.

* `Parser.run`: reads on from a state of the grammar until the goal is read or an error is found.
* `Parser.readGraphs`: starts over and reads the whole text.
* `parse`: the graphs of a text.
-/

namespace DotLang

structure ParseOptions where
  /-- How many subgraphs may be open at once. -/
  maxDepth : Nat := 128

structure Parser where
  lexer : Lexer
  /-- The token that is looked at. -/
  current : Token
  options : ParseOptions

namespace Parser

/-- Before the first token. The token that is looked at is the end of input until one is read. -/
def ofString (source : String) (options : ParseOptions) : Parser :=
  ⟨.ofString source, ⟨.eof, "", .start⟩, options⟩

/-- Looks at the next token. If it is malformed the token that was looked at stays. -/
def lex (p : Parser) : Except Error Unit × Parser :=
  match p.lexer.next with
  | (.ok token, lexer) => (.ok (), { p with lexer, current := token })
  | (.error e, lexer) => (.error (.lexical e), { p with lexer })

/-- The error that the token that is looked at cannot stand here. -/
def refuse (p : Parser) (expected : List Expectation) : Error :=
  .grammatical ⟨expected.map Expectation.describe, p.current.kind.describe, p.current.pos⟩

/-- What is left to read: the characters, and the token that is looked at. -/
def size (p : Parser) : Nat :=
  p.lexer.cursor.rest.length + if p.current.kind = .eof then 0 else 1

theorem size_of_lex {p p' : Parser} (hkind : p.current.kind ≠ .eof) (h : p.lex = (.ok (), p')) :
    p'.size < p.size := by
  unfold lex at h
  split at h
  · rename_i token lexer hnext
    obtain ⟨_, rfl⟩ := Prod.mk.inj h
    simp only [Lexer.next, Prod.mk.injEq] at hnext
    obtain ⟨hresult, rfl⟩ := hnext
    simp only [size, if_neg hkind]
    split
    · exact Nat.lt_succ_of_le (Cursor.length_of_next_le _)
    · rename_i hne
      exact Nat.succ_lt_succ (Cursor.length_of_next (Prod.ext hresult rfl) hne)
  · simp at h

/-- Reads on from a state of the grammar. -/
def run {goal : Construct} (p : Parser) (s : State goal) : Except Error goal.Value × Parser :=
  match _hstep : s.step p.options.maxDepth p.current.kind with
  | .finish value => (.ok value, p)
  | .reject expected => (.error (p.refuse expected), p)
  | .pass next => p.run next
  | .shift next =>
    match _hlex : p.lex with
    | (.error e, p') => (.error e, p')
    | (.ok (), p') => p'.run next
termination_by (p.size, s.rank)
decreasing_by
  · exact Prod.Lex.right _ (State.rank_of_pass ‹_›)
  · exact Prod.Lex.left _ _ (size_of_lex (State.ne_eof_of_shift ‹_›) ‹_›)

/-! ## Reading one construct

Each reads from the token that is looked at and stops in front of the token behind the construct.
-/

def readId (p : Parser) : Except Error Id × Parser := p.run (.id .top)

/-- Reads a node whose id is already read. -/
def readNode (p : Parser) (id : Id) : Except Error NodeId × Parser := p.run (.nodeId id .top)

def readAttributes (p : Parser) : Except Error (List Attribute) × Parser :=
  p.run (.attributes [] .top)

/-- Reads an edge statement whose first endpoint is already read. -/
def readEdge (p : Parser) (first : Endpoint) : Except Error EdgeStmt × Parser :=
  p.run (.edge [first] .top)

def readStmt (p : Parser) : Except Error Stmt × Parser := p.run (.stmt .top)

/-- Reads statements up to the closing brace, and the brace. -/
def readBody (p : Parser) : Except Error (List Stmt) × Parser := p.run (.body [] .top)

def readSubgraph (p : Parser) : Except Error Subgraph × Parser := p.run (.subgraph .top)

def readGraph (p : Parser) : Except Error Graph × Parser := p.run (.graph .top)

/-- Starts over and reads the whole text, which must hold a graph. -/
def readGraphs (p : Parser) : Except Error (List Graph) × Parser :=
  match lex { p with lexer := p.lexer.reset } with
  | (.error e, p') => (.error e, p')
  | (.ok (), p') => p'.run (.graph (.nextGraph [] .top))

end Parser

/-- The graphs of a text. -/
def parse (source : String) (options : ParseOptions) : Except Error (List Graph) :=
  (Parser.ofString source options).readGraphs.1

end DotLang
