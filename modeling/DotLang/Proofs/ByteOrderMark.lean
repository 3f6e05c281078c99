import DotLang.Proofs.FurtherLines
import DotLang.Proofs.LexerCalls

/-!
# The byte-order mark

A byte-order mark in front of a text is no part of it. A lexer of the text with the mark stands one
character further on in its text than a lexer of the text without, at the same line and column, and
gives the same, whatever it is asked for. This is so for one mark only: a second one begins a name.

* `Lexer.answers`: what a lexer gives to a sequence of calls.
* `Lexer.next_second_mark`: a second mark begins a name.
* `mark_transparent`: a text is read alike with and without a mark in front.
-/

namespace DotLang

namespace Lexer

/-- What a lexer gives to a sequence of calls, one answer for each call. -/
def answers (l : Lexer) : List Call → List (Option (Except LexError Token))
  | [] => []
  | call :: calls => (l.call call).1 :: (l.call call).2.answers calls

/-- The text with a mark in front. -/
theorem toList_mark_append (source : String) :
    ("\ufeff" ++ source).toList = '\ufeff' :: source.toList := by
  rw [String.toList_append]
  rfl

variable {source : String}

theorem ofString_mark_append (h : source.toList.head? ≠ some '\ufeff') :
    ofString ("\ufeff" ++ source) = ofString source := by
  rw [ofString, ofString, dropMark_of_head h, toList_mark_append]
  rfl

/-- Whatever a lexer is asked for, its cursor is behind some beginning of its text, and a lexer of
the text with a mark in front is behind the same beginning with the mark in front. -/
theorem cursors_mark_append (h : source.toList.head? ≠ some '\ufeff') (calls : List Call) :
    ∃ before rest pos, source.toList = before ++ rest ∧
      ("\ufeff" ++ source).toList = '\ufeff' :: before ++ rest ∧
      ((ofString source).afterCalls calls).cursor = ⟨rest, pos⟩ ∧
      ((ofString ("\ufeff" ++ source)).afterCalls calls).cursor = ⟨rest, pos⟩ ∧
      pos.IsBehind before := by
  obtain ⟨hsource, before, hbefore, hpos⟩ := placed_afterCalls source calls
  rw [hsource, dropMark_of_head h] at hbefore
  refine ⟨before, _, _, hbefore, ?_, rfl, ?_, ?_⟩
  · rw [toList_mark_append, hbefore]
    rfl
  · rw [ofString_mark_append h]
  · rw [hpos]
    exact Position.isBehind_after before

theorem ofName?_mark (name : List Char) : Keyword.ofName? ('\ufeff' :: name) = none := by
  rw [Option.eq_none_iff_forall_ne_some]
  intro word hword
  have hhead := congrArg List.head? (Keyword.ofName?_eq_some_iff.1 hword)
  rw [List.map_cons, List.head?_cons] at hhead
  cases word <;> exact absurd hhead (by decide)

/-- Only one mark is passed: behind it a second mark is the first character of a name. -/
theorem next_second_mark (text : String) :
    let name := String.ofList ('\ufeff' :: text.toList.takeWhile Lexeme.isNameChar)
    (ofString ("\ufeff" ++ ("\ufeff" ++ text))).next.1 = .ok ⟨.identifier name, name, .start⟩ := by
  have hcursor : (ofString ("\ufeff" ++ ("\ufeff" ++ text))).cursor =
      ⟨'\ufeff' :: text.toList, .start⟩ := by
    rw [ofString, toList_mark_append, toList_mark_append]
    rfl
  have hhead := Trivia.head_of_ne (c := '\ufeff') rfl (by decide) (by decide)
  have hname : ('\ufeff' :: text.toList).takeWhile Lexeme.isNameChar =
      '\ufeff' :: text.toList.takeWhile Lexeme.isNameChar :=
    List.takeWhile_cons_of_pos rfl
  have hscan : Lexeme.scan '\ufeff' text.toList = Lexeme.scanName ('\ufeff' :: text.toList) := rfl
  rw [Lexeme.scanName, hname, ofName?_mark] at hscan
  rw [next, hcursor, Cursor.next_of_absent (hhead _ _) hscan]

end Lexer

/-- A byte-order mark in front of a text changes nothing: the tokens of the text, with their
places, or its malformed token, the answers to any sequence of calls, and the graphs of the text or
the error in it are the same. Behind any calls the cursor is one character further on in the text
with the mark, at the same place. -/
theorem mark_transparent (source : String) (h : source.toList.head? ≠ some '\ufeff') :
    let marked := "\ufeff" ++ source
    Lexer.tokenize marked = Lexer.tokenize source ∧
    (∀ calls : List Lexer.Call,
      (Lexer.ofString marked).answers calls = (Lexer.ofString source).answers calls ∧
      ∃ before rest pos,
        source.toList = before ++ rest ∧
        marked.toList = '\ufeff' :: before ++ rest ∧
        ((Lexer.ofString source).afterCalls calls).cursor = ⟨rest, pos⟩ ∧
        ((Lexer.ofString marked).afterCalls calls).cursor = ⟨rest, pos⟩ ∧
        pos.IsBehind before) ∧
    ∀ options : ParseOptions, parse marked options = parse source options := by
  intro marked
  have hmarked : Lexer.ofString marked = Lexer.ofString source := Lexer.ofString_mark_append h
  refine ⟨?_, fun calls => ⟨?_, Lexer.cursors_mark_append h calls⟩, fun options => ?_⟩
  · rw [Lexer.tokenize, hmarked]
    rfl
  · rw [hmarked]
  · rw [parse, Parser.ofString, hmarked]
    rfl

/-- A line that begins with `#`, and a brace that cannot stand behind it. -/
theorem mark_transparent_hash :
    "#\n\x7b".toList.head? ≠ some '\ufeff' ∧
    Lexer.tokenize ("\ufeff" ++ "#\n\x7b") = Lexer.tokenize "#\n\x7b" ∧
    (Lexer.ofString ("\ufeff" ++ "#\n\x7b")).answers [.next, .pull, .reset, .pull] =
      (Lexer.ofString "#\n\x7b").answers [.next, .pull, .reset, .pull] ∧
    parse ("\ufeff" ++ "#\n\x7b") ⟨1⟩ = parse "#\n\x7b" ⟨1⟩ := by
  have h : "#\n\x7b".toList.head? ≠ some '\ufeff' := by decide
  obtain ⟨htokens, hcalls, hparse⟩ := mark_transparent "#\n\x7b" h
  exact ⟨h, htokens, (hcalls _).1, hparse ⟨1⟩⟩

end DotLang
