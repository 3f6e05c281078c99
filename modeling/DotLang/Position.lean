/-!
# Positions in a source text

Lines and columns are counted from one and a column is one character, whatever its width.

* `Position.after`: the place behind a text. It is the only way the library moves a position,
  so a position is true exactly when it is `start.after` the text before it.
-/

namespace DotLang

/-- A place in a source text, both numbers counted from one. -/
structure Position where
  line : Nat
  col : Nat
deriving DecidableEq

namespace Position

/-- The place of the first character. -/
def start : Position := ⟨1, 1⟩

/-- The place behind the character `c` at `p`: a line feed opens the next line. -/
def next (p : Position) (c : Char) : Position :=
  if c = '\n' then ⟨p.line + 1, 1⟩ else ⟨p.line, p.col + 1⟩

/-- The place behind `text` when `text` begins at `p`. -/
def after (p : Position) (text : List Char) : Position := text.foldl next p

@[simp] theorem after_nil (p : Position) : p.after [] = p := rfl

@[simp] theorem after_cons (p : Position) (c : Char) (text : List Char) :
    p.after (c :: text) = (p.next c).after text := rfl

theorem after_append (p : Position) (s t : List Char) : p.after (s ++ t) = (p.after s).after t :=
  List.foldl_append

/-- The start of a line: only here does `#` open a comment. -/
def IsLineStart (p : Position) : Prop := p.col = 1

instance (p : Position) : Decidable p.IsLineStart := inferInstanceAs (Decidable (p.col = 1))

end Position

end DotLang
