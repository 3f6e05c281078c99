import DotLang.Position
import DotLang.Text.CharLiteral
import DotLang.Text.Lines

/-!
# Errors

Reading stops at the first error. An error is a malformed token or a token that cannot stand
where it stands, with the place where it begins.

* `Error.message`: the text of an error.
* `Error.annotate`: the message under the source line, with a caret below the place.
-/

namespace DotLang

/-- What is wrong with a malformed token. -/
inductive LexFault where
  | unterminatedString
  | unterminatedComment
  | unterminatedHtml
  | unexpectedChar (c : Char)
  | invalidNumber (text : String)
deriving DecidableEq

/-- A malformed token. -/
structure LexError where
  fault : LexFault
  pos : Position
deriving DecidableEq

/-- A token that cannot stand at its place. -/
structure SyntaxError where
  /-- What could have stood there. -/
  expected : List String
  found : String
  pos : Position
deriving DecidableEq

/-- Why a text could not be read. -/
inductive Error where
  | lexical (error : LexError)
  | grammatical (error : SyntaxError)
deriving DecidableEq

def LexFault.message : LexFault → String
  | unterminatedString => "unterminated string"
  | unterminatedComment => "unterminated block comment"
  | unterminatedHtml => "unterminated html string"
  | unexpectedChar c => "unexpected character " ++ Text.charLiteral c
  | invalidNumber text => "invalid number \x60" ++ text ++ "\x60"

/-- The list of what was expected: a single one stands alone. -/
def SyntaxError.expectedText (expected : List String) : String :=
  match expected with
  | [] => "nothing"
  | [one] => one
  | many => "one of " ++ ", ".intercalate many

def SyntaxError.message (e : SyntaxError) : String :=
  "expected " ++ expectedText e.expected ++ ", found " ++ e.found

namespace Error

def pos : Error → Position
  | lexical e => e.pos
  | grammatical e => e.pos

/-- The cause of an error, without its place. -/
def cause : Error → String
  | lexical e => e.fault.message
  | grammatical e => e.message

/-- The text of an error: its place and its cause. -/
def message (e : Error) : String :=
  toString e.pos.line ++ ":" ++ toString e.pos.col ++ ": " ++ e.cause

/-- The source line of an error with a caret below its column. The padding has no widest width: a
formatter that stops at 65535 blanks agrees up to column 65536. -/
def excerpt (e : Error) (line : List Char) : String :=
  String.ofList (Text.stripReturn line) ++ "\n" ++
    String.ofList (List.replicate (e.pos.col - 1) ' ') ++ "^\n"

/-- The message below the source line, if the source has that line. -/
def annotate (e : Error) (source : String) : String :=
  ((Text.lines source.toList)[e.pos.line - 1]?.map e.excerpt).getD "" ++ "Error: " ++ e.message

end Error

end DotLang
