import DotLang.Proofs.QuotedStrings

/-!
# What html strings hold

An html string ends with the bracket that closes its first one. The text in front of that bracket
is balanced, and no other bracket has a balanced text in front of it; so a text begins with an html
string in one way at most, and nothing but brackets counts inside.

* `Html.Balanced.split_unique`: a text begins with a balanced text and a closing bracket in one way
  at most.
* `Cursor.next_of_balanced`, `Cursor.next_of_unbalanced`: what is read behind an opening bracket.
* `Lexer.tokenize_html`: the display of an html id is read back.
* `html_strings_balanced`: the html strings that a lexer reads.
-/

namespace DotLang

open Lexeme

namespace Lexeme.Html

/-- An html string is split off behind a balanced text. -/
theorem split?_zero_eq_some_iff {input body rest : List Char} :
    split? 0 input = some (body, rest) ↔ Balanced body ∧ input = body ++ '>' :: rest := by
  rw [split?_eq_some_iff, balanced_iff_nested]

theorem split?_zero_eq_none_iff {input : List Char} :
    split? 0 input = none ↔ ∀ body rest, Balanced body → input ≠ body ++ '>' :: rest := by
  rw [Option.eq_none_iff_forall_ne_some]
  constructor
  · intro h body rest hbody hinput
    exact h (body, rest) (split?_zero_eq_some_iff.2 ⟨hbody, hinput⟩)
  · rintro h ⟨body, rest⟩ hsplit
    obtain ⟨hbody, hinput⟩ := split?_zero_eq_some_iff.1 hsplit
    exact h body rest hbody hinput

variable {v w : List Char}

/-- A balanced text has no bracket that closes more than the text in front of it opens. -/
theorem Balanced.not_prefix (hw : Balanced w) (hv : Balanced v) : ¬ v ++ ['>'] <+: w := by
  intro h
  have hle := hw.count_le _ h
  have heq := hv.count_eq
  simp only [List.count_append, List.count_singleton_self,
    List.count_cons_of_ne (show ('>' : Char) ≠ '<' by decide), List.count_nil] at hle
  omega

/-- Only one closing bracket has a balanced text in front of it. -/
theorem Balanced.split_unique {rest left : List Char} (hv : Balanced v) (hw : Balanced w)
    (h : v ++ '>' :: rest = w ++ '>' :: left) : v = w ∧ rest = left := by
  have hfirst : v ++ ['>'] <+: v ++ '>' :: rest := ⟨rest, by simp⟩
  have hsecond : w ++ ['>'] <+: v ++ '>' :: rest := ⟨left, by simp [h]⟩
  rcases Nat.lt_trichotomy v.length w.length with hlt | heq | hlt
  · refine absurd ?_ (hw.not_prefix hv)
    exact List.prefix_of_prefix_length_le hfirst ((List.prefix_append w _).trans hsecond)
      (by rw [List.length_append]; exact hlt)
  · obtain ⟨rfl, htail⟩ := List.append_inj h heq
    exact ⟨rfl, (List.cons.inj htail).2⟩
  · refine absurd ?_ (hv.not_prefix hw)
    exact List.prefix_of_prefix_length_le hsecond ((List.prefix_append v _).trans hfirst)
      (by rw [List.length_append]; exact hlt)

end Lexeme.Html

open Lexeme.Html

/-! ## Reading an html string -/

namespace Cursor

variable {c : Cursor} {input v rest : List Char}

theorem scan_bracket (input : List Char) : scan '<' input = scanHtml input := rfl

/-- In front of an opening bracket there is neither a blank nor a comment. -/
theorem head_bracket (lineStart : Bool) (input : List Char) :
    Trivia.head lineStart ('<' :: input) = .absent :=
  Trivia.head_of_ne rfl (by decide) (by decide) _ _

/-- An html string is read up to the bracket behind the balanced text. -/
theorem next_of_balanced (h : c.rest = '<' :: (v ++ '>' :: rest)) (hv : Balanced v) :
    c.next = (.ok ⟨.html (String.ofList v), String.ofList ('<' :: (v ++ ['>'])), c.pos⟩,
      c.skip ('<' :: (v ++ ['>'])) rest) := by
  obtain ⟨_, pos⟩ := c
  obtain rfl := h
  refine next_of_absent (head_bracket _ _) ?_
  rw [scan_bracket, scanHtml, split?_zero_eq_some_iff.2 ⟨hv, rfl⟩]

/-- A text that has no balanced text in front of a closing bracket is no html string. All of it is
passed. -/
theorem next_of_unbalanced (h : c.rest = '<' :: input)
    (hinput : ∀ v rest, Balanced v → input ≠ v ++ '>' :: rest) :
    c.next = (.error ⟨.unterminatedHtml, c.pos⟩, c.toEnd) := by
  obtain ⟨_, pos⟩ := c
  obtain rfl := h
  refine next_of_fault (head_bracket _ _) ?_
  rw [scan_bracket, scanHtml, split?_zero_eq_none_iff.2 hinput]

/-- The html strings that are read. -/
theorem exists_next_html_iff {v : String} :
    (∃ (c : Cursor) (text : String) (pos : Position), c.next.1 = .ok ⟨.html v, text, pos⟩) ↔
      Balanced v.toList := by
  constructor
  · rintro ⟨c, text, pos, h⟩
    exact wellFormed_of_next (Prod.ext h rfl : c.next = (_, c.next.2))
  · intro h
    have hnext := @next_of_balanced ⟨'<' :: (v.toList ++ ['>']), .start⟩ v.toList [] rfl h
    rw [String.ofList_toList] at hnext
    exact ⟨_, _, _, congrArg Prod.fst hnext⟩

end Cursor

theorem Id.toList_display_html (v : String) :
    (Id.html v).display.toList = '<' :: (v.toList ++ ['>']) := by
  simp [Id.display]

/-- The display of an html id is read back as one token. -/
theorem Lexer.tokenize_html {v : String} (hv : Balanced v.toList) :
    Lexer.tokenize (Id.html v).display =
      .ok [⟨.html v, (Id.html v).display, .start⟩,
        ⟨.eof, "", Position.start.after (Id.html v).display.toList⟩] := by
  have htext := Id.toList_display_html v
  have hcursor : (Lexer.ofString (Id.html v).display).cursor =
      ⟨(Id.html v).display.toList, .start⟩ := by
    rw [Lexer.ofString, htext]
    rfl
  have hnext := Cursor.next_of_balanced (c := ⟨(Id.html v).display.toList, .start⟩) htext hv
  rw [← htext, String.ofList_toList, String.ofList_toList] at hnext
  have hend := Cursor.readAll_of_eof
    (Cursor.next_nil (Position.start.after (Id.html v).display.toList)) rfl
  rw [Lexer.tokenize_eq, Lexer.run, hcursor, Cursor.readAll_of_token hnext (by rintro ⟨⟩),
    Cursor.skip, hend]
  rfl

/-- Behind an opening bracket a lexer looks for a balanced text and a closing bracket. There is one
such bracket at most. If it is there the lexer gives an html string, with the balanced text as its
value, and stops behind the bracket; if not, the html string has no end, and all of the text is
passed. The display of an html id with a balanced text is read back as this one token, and the
balanced texts are the values of html strings. -/
theorem html_strings_balanced :
    (∀ (l : Lexer) (v rest : List Char),
      l.cursor.rest = '<' :: (v ++ '>' :: rest) → Balanced v →
        let text := '<' :: (v ++ ['>'])
        l.next = (.ok ⟨.html (String.ofList v), String.ofList text, l.cursor.pos⟩,
          { l with cursor := ⟨rest, l.cursor.pos.after text⟩ }) ∧
        ∀ w left, l.cursor.rest = '<' :: (w ++ '>' :: left) → Balanced w → v = w ∧ rest = left) ∧
    (∀ (l : Lexer) (input : List Char), l.cursor.rest = '<' :: input →
      (∀ v rest, Balanced v → input ≠ v ++ '>' :: rest) →
        l.next = (.error ⟨.unterminatedHtml, l.cursor.pos⟩,
          { l with cursor := ⟨[], l.cursor.pos.after ('<' :: input)⟩ })) ∧
    (∀ v : String, Balanced v.toList →
      let text := (Id.html v).display
      Lexer.tokenize text =
        .ok [⟨.html v, text, .start⟩, ⟨.eof, "", Position.start.after text.toList⟩]) ∧
    ∀ v : String,
      (∃ (l : Lexer) (text : String) (pos : Position), l.next.1 = .ok ⟨.html v, text, pos⟩) ↔
        Balanced v.toList := by
  refine ⟨fun l v rest h hv => ⟨?_, fun w left hw => ?_⟩, fun l input h hinput => ?_,
    fun v hv => Lexer.tokenize_html hv, fun v => ?_⟩
  · rw [Lexer.next, Cursor.next_of_balanced h hv]
    rfl
  · intro hbalanced
    exact hv.split_unique hbalanced (List.cons.inj (h.symm.trans hw)).2
  · rw [Lexer.next, Cursor.next_of_unbalanced h hinput, Cursor.toEnd, h]
    rfl
  · rw [← Cursor.exists_next_html_iff]
    constructor
    · rintro ⟨l, text, pos, h⟩
      exact ⟨l.cursor, text, pos, h⟩
    · rintro ⟨c, text, pos, h⟩
      exact ⟨⟨c.rest, c, false⟩, text, pos, h⟩

end DotLang
