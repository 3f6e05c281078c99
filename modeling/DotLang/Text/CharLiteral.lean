import DotLang.Text.Unprintable

/-!
# Characters in messages

A message shows a character between single quotes. What would not be seen there, or would be
mistaken for a quote, is escaped.
-/

namespace DotLang.Text

/-- The escaped form of a character between single quotes. -/
def escapeChar (c : Char) : String :=
  match c with
  | '\x00' => "\\0"
  | '\t' => "\\t"
  | '\r' => "\\r"
  | '\n' => "\\n"
  | '\'' => "\\'"
  | '\\' => "\\\\"
  | c =>
    if isUnprintable c then "\\u\x7b" ++ String.ofList (Nat.toDigits 16 c.toNat) ++ "\x7d"
    else c.toString

/-- A character as it is shown in a message. -/
def charLiteral (c : Char) : String := "'" ++ escapeChar c ++ "'"

end DotLang.Text
