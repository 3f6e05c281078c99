/-!
# Lines of a text

Lines are separated by line feeds, so a text has one line more than it has line feeds and the
last line may be empty.

* `joined_lines`: the lines with a line feed between each two are the text.
-/

namespace DotLang.Text

/-- Puts a character in front of the first line. -/
def consFirst (c : Char) : List (List Char) → List (List Char)
  | [] => [[c]]
  | line :: rest => (c :: line) :: rest

/-- The lines of a text. -/
def lines : List Char → List (List Char)
  | [] => [[]]
  | c :: cs => if c = '\n' then [] :: lines cs else consFirst c (lines cs)

/-- The text of lines with a line feed between each two. -/
def joined : List (List Char) → List Char
  | [] => []
  | [line] => line
  | line :: rest => line ++ '\n' :: joined rest

/-- A line without one carriage return at its end. -/
def stripReturn (line : List Char) : List Char :=
  if line.getLast? = some '\r' then line.dropLast else line

theorem lines_ne_nil (text : List Char) : lines text ≠ [] := by
  fun_induction lines text with
  | case1 => simp
  | case2 => simp
  | case3 c cs _ _ => cases lines cs <;> simp [consFirst]

theorem joined_consFirst (c : Char) {ls : List (List Char)} (h : ls ≠ []) :
    joined (consFirst c ls) = c :: joined ls := by
  match ls with
  | [] => exact absurd rfl h
  | [_] => rfl
  | _ :: _ :: _ => rfl

theorem joined_lines (text : List Char) : joined (lines text) = text := by
  fun_induction lines text with
  | case1 => rfl
  | case2 cs ih =>
    have h := lines_ne_nil cs
    revert h ih
    cases lines cs with
    | nil => simp
    | cons line rest => intro ih _; rw [joined, ih]; simp; simp
  | case3 c cs _ ih => rw [joined_consFirst c (lines_ne_nil cs), ih]

theorem length_lines (text : List Char) : (lines text).length = text.count '\n' + 1 := by
  fun_induction lines text with
  | case1 => rfl
  | case2 cs ih => simp [ih]
  | case3 c cs h ih =>
    have hne := lines_ne_nil cs
    rw [List.count_cons_of_ne h, ← ih]
    revert hne
    cases lines cs with
    | nil => simp
    | cons => intro _; rfl

end DotLang.Text
