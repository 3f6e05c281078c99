import DotLang.Position
import Mathlib.Data.List.DropRight

/-!
# Places told from the text in front of them

A place moves along a text character by character. Where it ends up can be told from the line feeds
of the text and from the characters behind the last of them.

* `Position.isBehind_after`: the place behind a text, told without going through the text.
* `Position.after_down`: a text that begins some lines further down ends as many lines further
  down.
-/

namespace DotLang.Position

/-- The place behind a text: its line is one more than the line feeds of the text, and its column is
one more than the characters of the last line. -/
structure IsBehind (text : List Char) (p : Position) : Prop where
  line : p.line = text.count '\n' + 1
  col : p.col = (text.rtakeWhile (· ≠ '\n')).length + 1

theorem next_feed (p : Position) : p.next '\n' = ⟨p.line + 1, 1⟩ := rfl

theorem next_of_ne {c : Char} (p : Position) (h : c ≠ '\n') : p.next c = ⟨p.line, p.col + 1⟩ := by
  simp [next, h]

theorem IsBehind.next {text : List Char} {p : Position} (h : p.IsBehind text) (c : Char) :
    (p.next c).IsBehind (text ++ [c]) := by
  by_cases hc : c = '\n'
  · subst hc
    rw [next_feed]
    constructor
    · simp [h.line]
    · simp
  · rw [next_of_ne p hc]
    constructor
    · simp [h.line, List.count_cons_of_ne hc]
    · simp [hc, h.col]

/-- The place behind a text that begins at the start. -/
theorem isBehind_after (text : List Char) : (start.after text).IsBehind text := by
  induction text using List.reverseRecOn with
  | nil => exact ⟨rfl, rfl⟩
  | append_singleton text c ih =>
    rw [after_append, after_cons, after_nil]
    exact ih.next c

/-! ## Further down -/

/-- The same column, `lines` lines further down. -/
def down (lines : Nat) (p : Position) : Position := ⟨p.line + lines, p.col⟩

theorem next_down (lines : Nat) (p : Position) (c : Char) :
    (p.down lines).next c = (p.next c).down lines := by
  by_cases hc : c = '\n'
  · simp only [next, if_pos hc, down, Nat.add_right_comm]
  · simp only [next, if_neg hc, down]

theorem after_down (lines : Nat) (p : Position) (text : List Char) :
    (p.down lines).after text = (p.after text).down lines := by
  induction text generalizing p with
  | nil => rfl
  | cons c text ih => rw [after_cons, next_down, ih, after_cons]

/-- Behind a text and a line feed stands the first column, one line further down than the text has
line feeds. -/
theorem next_feed_after (text : List Char) :
    (start.after text).next '\n' = start.down (text.count '\n' + 1) := by
  rw [next_feed, (isBehind_after text).line, Nat.add_comm]
  rfl

end DotLang.Position
