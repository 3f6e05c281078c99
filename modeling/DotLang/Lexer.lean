import DotLang.Cursor

/-!
# Lexers

A `Lexer` holds a source text and a cursor in it. `next` may be asked as often as one likes and
`reset` starts over. `pull` reads the tokens as a finite sequence: it ends with the first `eof`
or malformed token.

* `Lexer.tokenize`: all tokens of a text, `eof` included, or its first malformed token.
-/

namespace DotLang

structure Lexer where
  /-- The text, without a byte-order mark in front. -/
  source : List Char
  cursor : Cursor
  /-- Whether the sequence of tokens has ended. -/
  ended : Bool

namespace Lexer

/-- A text without one byte-order mark in front. The mark takes no column. -/
def dropMark : List Char → List Char
  | '\ufeff' :: rest => rest
  | text => text

/-- A lexer at the start of a text without a mark. -/
def fresh (source : List Char) : Lexer := ⟨source, .atStart source, false⟩

def ofString (source : String) : Lexer := fresh (dropMark source.toList)

/-- Starts over. -/
def reset (l : Lexer) : Lexer := fresh l.source

/-- Reads the next token, whether or not the sequence has ended. -/
def next (l : Lexer) : Except LexError Token × Lexer :=
  let (result, cursor) := l.cursor.next
  (result, { l with cursor })

/-- Whether a result is the last one of a sequence. -/
def IsLast (result : Except LexError Token) : Bool :=
  match result with
  | .ok token => token.kind = .eof
  | .error _ => true

/-- The next item of the sequence, or nothing if it has ended. -/
def pull (l : Lexer) : Option (Except LexError Token) × Lexer :=
  if l.ended then (none, l)
  else
    let (result, l') := l.next
    (some result, { l' with ended := IsLast result })

/-- The remaining items of the sequence. -/
def drain (l : Lexer) : List (Except LexError Token) × Lexer :=
  if l.ended then ([], l)
  else
    let run := l.cursor.readAll
    (run.tokens.map .ok ++ [run.ending], { l with cursor := run.cursor, ended := true })

/-- All tokens of a text, or its first malformed token. -/
def tokenize (source : String) : Except LexError (List Token) :=
  let run := (ofString source).cursor.readAll
  run.ending.map fun last => run.tokens ++ [last]

end Lexer

end DotLang
