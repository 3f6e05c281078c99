import DotLang.Proofs.Places
import DotLang.Proofs.Reading
import DotLang.Proofs.Reformatting

/-!
# The texts of the tokens make up the source

A text is the texts of its tokens, a stretch of blanks and comments in front of each, a last stretch,
and what stands behind it from the first malformed token on. Nothing is left out.

* `Cursor.readAll_written_append`: what a run reads, put together again.
* `Lexeme.Spelling.identifier_eq`, `Lexeme.Spelling.keyword_eq`, `Lexeme.Spelling.html_eq`: the
  values that can be read off the text of a token.
* `run_lossless`: the same for the text of a source.
-/

namespace DotLang

/-- Texts that are not empty, with stretches in front of them from the place `p` on, and a last
stretch in front of `rest`. -/
inductive Trivia.Between :
    Position → List (List Char) → List (List Char) → List Char → List Char → Prop where
  | nil {p : Position} {last rest : List Char} :
      Trivia.Stretch p last rest → Between p [] [] last rest
  | cons {p : Position} {g text last rest : List Char} {gaps texts : List (List Char)} :
      Trivia.Stretch p g (text ++ (written gaps texts last ++ rest)) → text ≠ [] →
      Between (p.after (g ++ text)) gaps texts last rest →
      Between p (g :: gaps) (text :: texts) last rest

theorem written_cons (g text last : List Char) (gaps texts : List (List Char)) :
    written (g :: gaps) (text :: texts) last = g ++ text ++ written gaps texts last := by
  simp [written]

/-! ## Values and texts -/

namespace Lexeme

variable {text : List Char}

theorem Spelling.identifier_eq {name : String} (h : Spelling (.identifier name) text) :
    name.toList = text := by
  cases h
  exact String.toList_ofList

theorem Spelling.keyword_eq {word : Keyword} (h : Spelling (.keyword word) text) :
    word.name.toList = text.map Char.toLower := by
  cases h with
  | keyword _ _ hword => exact Keyword.ofName?_eq_some_iff.1 hword

theorem Spelling.html_eq {body : String} (h : Spelling (.html body) text) :
    text = '<' :: (body.toList ++ ['>']) := by
  cases h
  rw [String.toList_ofList]

end Lexeme

/-! ## Runs -/

namespace Cursor

open Trivia

/-- The texts of the tokens of a run. -/
def Run.texts (run : Run) : List (List Char) := run.tokens.map fun token => token.text.toList

/-- What a run reads is the texts of its tokens with stretches between them. What is left begins
with the malformed token at which the run ends, if it does not end with the text. -/
theorem readAll_written_append (c : Cursor) :
    ∃ gaps last rest, c.rest = written gaps c.readAll.texts last ++ rest ∧
      Between c.pos gaps c.readAll.texts last rest ∧
      (∀ eof, c.readAll.ending = .ok eof → rest = []) ∧
      ∀ e, c.readAll.ending = .error e →
        e.fault.Begins rest ∧ e.pos = c.pos.after (written gaps c.readAll.texts last) := by
  fun_induction readAll c with
  | case1 c e c' hnext =>
    have hreads := c.next_reads
    rw [hnext] at hreads
    cases hreads with
    | @fault gap text rest fault heq hstretch hbegins =>
      refine ⟨[], gap, text ++ rest, heq, .nil hstretch, ?_, ?_⟩
      · rintro _ ⟨⟩
      · rintro _ ⟨rfl⟩
        exact ⟨hbegins, rfl⟩
  | case2 c last c' hnext hkind =>
    have hreads := c.next_reads
    rw [hnext] at hreads
    cases hreads with
    | eof hstretch =>
      refine ⟨[], c.rest, [], (List.append_nil _).symm, .nil hstretch, fun _ _ => rfl, ?_⟩
      rintro _ ⟨⟩
    | token _ _ hspell => exact absurd hkind hspell.ne_eof
  | case3 c first c' hnext hkind run ih =>
    have hreads := c.next_reads
    rw [hnext] at hreads
    cases hreads with
    | eof => exact absurd rfl hkind
    | @token gap text rest kind heq hstretch hspell =>
      obtain ⟨gaps, last, left, hleft, hbetween, hok, herror⟩ := ih
      have hleft : rest = written gaps run.texts last ++ left := hleft
      have htexts (ending : Except LexError Token) (cursor : Cursor) :
          Run.texts ⟨⟨kind, String.ofList text, c.pos.after gap⟩ :: run.tokens, ending, cursor⟩ =
            text :: run.texts := by
        simp [Run.texts]
      refine ⟨gap :: gaps, last, left, ?_, ?_, hok, fun e he => ⟨(herror e he).1, ?_⟩⟩
      · rw [htexts, written_cons, heq, hleft]
        simp only [List.append_assoc]
      · rw [htexts]
        rw [hleft] at hstretch
        exact .cons hstretch hspell.ne_nil hbetween
      · rw [htexts, written_cons, (herror e he).2]
        exact pos_skip_after c (gap ++ text) rest _

end Cursor

/-- The text of a source, without its mark, is the texts of the tokens with stretches of blanks and
comments between them. Behind the last stretch there is nothing, or the malformed token at which the
tokens end. The text of a name is its value, that of a keyword is its name in some case, and that of
an html string is its value between brackets. -/
theorem run_lossless (source : String) :
    (∃ gaps last rest,
      Lexer.dropMark source.toList = written gaps (Lexer.run source).texts last ++ rest ∧
      Trivia.Between .start gaps (Lexer.run source).texts last rest ∧
      (∀ eof, (Lexer.run source).ending = .ok eof → rest = []) ∧
      ∀ e, (Lexer.run source).ending = .error e →
        rest ≠ [] ∧ e.pos.IsBehind (written gaps (Lexer.run source).texts last)) ∧
    ∀ token ∈ (Lexer.run source).tokens,
      (∀ name, token.kind = .identifier name → token.text = name) ∧
      (∀ word, token.kind = .keyword word →
        word.name.toList = token.text.toList.map Char.toLower) ∧
      ∀ body, token.kind = .html body → token.text = "<" ++ body ++ ">" := by
  constructor
  · obtain ⟨gaps, last, rest, hrest, hbetween, hok, herror⟩ :=
      (Lexer.ofString source).cursor.readAll_written_append
    refine ⟨gaps, last, rest, hrest, hbetween, hok, fun e he => ?_⟩
    obtain ⟨hbegins, hpos⟩ := herror e he
    refine ⟨hbegins.ne_nil, ?_⟩
    rw [hpos]
    exact Position.isBehind_after _
  · intro token htoken
    have hspell := Lexeme.spells_iff_spelling.1 (Cursor.spells_of_mem_tokens htoken)
    refine ⟨fun name hname => ?_, fun word hword => ?_, fun body hbody => ?_⟩
    · rw [hname] at hspell
      exact String.toList_inj.1 hspell.identifier_eq.symm
    · rw [hword] at hspell
      exact hspell.keyword_eq
    · rw [hbody] at hspell
      apply String.toList_inj.1
      rw [hspell.html_eq]
      simp

end DotLang
