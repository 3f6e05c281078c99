import DotLang.Proofs.Gaps
import DotLang.Proofs.Spelling
import Mathlib.Data.List.TakeWhile

/-!
# One reading

What `Cursor.next` does, said without the scanners: it passes a stretch of blanks and comments, and
behind the stretch it is at the end of the text, or takes a token, or meets a malformed one.

* `Trivia.head_eq_passed_iff`: the blank or comment at the head of an input.
* `Lexeme.begins_of_scan`: how a malformed token begins.
* `Cursor.next_reads`: the reading itself.
* `Cursor.Reads.exists_passed`: it moves the cursor behind what it passes.
-/

namespace DotLang

/-! ## Stretches -/

namespace Trivia

/-- A line ends in front of a line feed and at the end of the text. -/
def EndsLine (rest : List Char) : Prop := ∀ c ∈ rest.head?, c = '\n'

/-- One blank or one comment at the place `p`, in front of `rest`. -/
inductive Piece (p : Position) : List Char → List Char → Prop where
  | blank {c : Char} {rest : List Char} : isBlank c = true → Piece p [c] rest
  | line {text rest : List Char} : '\n' ∉ text → EndsLine rest → Piece p ('/' :: '/' :: text) rest
  /-- A block comment ends with the first asterisk in front of a slash. -/
  | block {text rest : List Char} :
      ¬ ['*', '/'] <:+: text → Piece p ('/' :: '*' :: (text ++ ['*', '/'])) rest
  /-- Only in the first column does `#` open a comment. -/
  | hash {text rest : List Char} :
      p.IsLineStart → '\n' ∉ text → EndsLine rest → Piece p ('#' :: text) rest

/-- Any number of blanks and comments from the place `p` on, in front of `rest`. -/
inductive Stretch : Position → List Char → List Char → Prop where
  | nil {p : Position} {rest : List Char} : Stretch p [] rest
  | cons {p : Position} {text g rest : List Char} :
      Piece p text (g ++ rest) → Stretch (p.after text) g rest → Stretch p (text ++ g) rest

theorem notMem_line (input : List Char) : '\n' ∉ line input := by
  intro h
  simpa using List.mem_takeWhile_imp h

theorem endsLine_afterLine (input : List Char) : EndsLine (afterLine input) := by
  intro c hc
  rw [afterLine, ← List.find?_not_eq_head?_dropWhile] at hc
  simpa using List.find?_some hc

/-- A text without line feeds in front of the end of a line is the rest of that line. -/
theorem line_append_of_endsLine {text rest : List Char} (h : '\n' ∉ text) (hrest : EndsLine rest) :
    line (text ++ rest) = text ∧ afterLine (text ++ rest) = rest := by
  have hhead : ∀ c ∈ rest.head?, decide (c ≠ '\n') = false := by
    intro c hc
    simp [hrest c hc]
  exact ⟨takeWhile_append_of_head (forall_ne_feed h) hhead,
    dropWhile_append_of_head (forall_ne_feed h) hhead⟩

theorem closes_iff {c : Char} {input : List Char} :
    ['*', '/'] <+: c :: input ↔ c = '*' ∧ ∃ rest, input = '/' :: rest := by
  rw [List.cons_prefix_cons]
  constructor
  · rintro ⟨rfl, rest, rfl⟩
    exact ⟨rfl, rest, rfl⟩
  · rintro ⟨rfl, rest, rfl⟩
    exact ⟨rfl, rest, rfl⟩

/-- A block comment is split off behind the first asterisk in front of a slash. -/
theorem splitBlock?_eq_some_iff {input text rest : List Char} :
    splitBlock? input = some (text, rest) ↔
      ∃ inner, ¬ ['*', '/'] <:+: inner ∧ text = inner ++ ['*', '/'] ∧ input = text ++ rest := by
  constructor
  · intro h
    fun_induction splitBlock? input generalizing text with
    | case1 r =>
      obtain ⟨rfl, rfl⟩ := Prod.mk.inj (Option.some.inj h)
      exact ⟨[], by decide, rfl, rfl⟩
    | case2 c input hopen ih =>
      obtain ⟨⟨t, r⟩, hs, he⟩ := Option.map_eq_some_iff.1 h
      obtain ⟨rfl, rfl⟩ := Prod.mk.inj he
      obtain ⟨inner, hinner, rfl, rfl⟩ := ih hs
      refine ⟨c :: inner, ?_, rfl, rfl⟩
      rw [List.infix_cons_iff, closes_iff]
      rintro (⟨rfl, r', hslash⟩ | hin)
      · -- the slash would stand right behind, be it in the comment or at its end
        cases inner with
        | nil => simp at hslash
        | cons d inner =>
          obtain ⟨rfl, _⟩ := List.cons.inj hslash
          exact hopen _ rfl rfl
      · exact hinner hin
    | case3 => cases h
  · rintro ⟨inner, hinner, rfl, rfl⟩
    rw [List.append_assoc]
    exact splitBlock?_append hinner

theorem splitBlock?_eq_none_iff {input : List Char} :
    splitBlock? input = none ↔ ¬ ['*', '/'] <:+: input := by
  fun_induction splitBlock? input with
  | case1 r =>
    have hin : ['*', '/'] <:+: '*' :: '/' :: r := ⟨[], r, rfl⟩
    simp [hin]
  | case2 c input hopen ih =>
    have hstart : ¬ ['*', '/'] <+: c :: input := by
      rw [closes_iff]
      rintro ⟨rfl, r, rfl⟩
      exact hopen r rfl rfl
    rw [Option.map_eq_none_iff, ih, List.infix_cons_iff, not_or]
    exact ⟨fun h => ⟨hstart, h⟩, fun h => h.2⟩
  | case3 => simp

/-- What is passed at the head of an input is one blank or one comment. -/
theorem head_eq_passed_iff {p : Position} {input text rest : List Char} :
    head p.IsLineStart input = .passed text rest ↔ Piece p text rest ∧ input = text ++ rest := by
  constructor
  · intro h
    refine ⟨?_, (append_of_head h).symm⟩
    revert h
    fun_cases head (decide p.IsLineStart) input with
    | case1 => rintro ⟨⟩
    | case2 r =>
      intro h
      obtain ⟨rfl, rfl⟩ := Head.passed.inj h
      exact .line (notMem_line r) (endsLine_afterLine r)
    | case3 r t r' hs =>
      intro h
      obtain ⟨rfl, rfl⟩ := Head.passed.inj h
      obtain ⟨inner, hinner, rfl, _⟩ := splitBlock?_eq_some_iff.1 hs
      exact .block hinner
    | case4 => rintro ⟨⟩
    | case5 c r hline hblock hc =>
      intro h
      obtain ⟨rfl, rfl⟩ := Head.passed.inj h
      exact .blank hc
    | case6 c r hline hblock hblank hc =>
      intro h
      obtain ⟨rfl, rfl⟩ := Head.passed.inj h
      simp only [Bool.and_eq_true, decide_eq_true_eq] at hc
      obtain ⟨rfl, hstart⟩ := hc
      exact .hash hstart (notMem_line r) (endsLine_afterLine r)
    | case7 => rintro ⟨⟩
  · rintro ⟨hpiece, rfl⟩
    cases hpiece with
    | blank hc => exact head_blank hc
    | line htext hrest =>
      obtain ⟨hline, hafter⟩ := line_append_of_endsLine htext hrest
      rw [List.cons_append, List.cons_append, head, hline, hafter]
    | @block inner _ htext =>
      have hsplit : splitBlock? (inner ++ ['*', '/'] ++ rest) = some (inner ++ ['*', '/'], rest) :=
        splitBlock?_eq_some_iff.2 ⟨inner, htext, rfl, rfl⟩
      rw [List.cons_append, List.cons_append, head, hsplit]
    | hash hstart htext hrest =>
      obtain ⟨hline, hafter⟩ := line_append_of_endsLine htext hrest
      rw [List.cons_append, head]
      · simp [isBlank, hstart, hline, hafter]
      · simp
      · simp

/-- A comment stays open if no asterisk in front of a slash stands behind its opening. -/
theorem head_eq_unclosed_iff {lineStart : Bool} {input : List Char} :
    head lineStart input = .unclosed ↔
      ∃ tail, input = '/' :: '*' :: tail ∧ ¬ ['*', '/'] <:+: tail := by
  constructor
  · intro h
    revert h
    fun_cases head lineStart input with
    | case4 r hs => exact fun _ => ⟨r, rfl, splitBlock?_eq_none_iff.1 hs⟩
    | _ => rintro ⟨⟩
  · rintro ⟨tail, rfl, htail⟩
    rw [head, splitBlock?_eq_none_iff.2 htail]

end Trivia

/-! ## Malformed tokens -/

open Lexeme in
/-- How the input at a malformed token begins, and what is wrong with it there. -/
inductive LexFault.Begins : LexFault → List Char → Prop where
  /-- An opening quote, and no quote closes the string. -/
  | string {tail : List Char} :
      (∀ body rest, Quoted.Body body → tail ≠ body ++ '"' :: rest) →
      Begins .unterminatedString ('"' :: tail)
  /-- The opening of a block comment, and nothing closes it. -/
  | comment {tail : List Char} :
      ¬ ['*', '/'] <:+: tail → Begins .unterminatedComment ('/' :: '*' :: tail)
  /-- An opening bracket, and no bracket closes it. -/
  | html {tail : List Char} :
      (∀ body rest, Html.Nested 0 body → tail ≠ body ++ '>' :: rest) →
      Begins .unterminatedHtml ('<' :: tail)
  /-- A numeral without a value. -/
  | numeral {n : Numeral} {rest : List Char} :
      n.Digital → n.value? = none → n.text ≠ [] →
      Begins (.invalidNumber (String.ofList n.text)) (n.text ++ rest)
  | char {c : Char} {rest : List Char} : Begins (.unexpectedChar c) (c :: rest)

theorem LexFault.Begins.ne_nil {fault : LexFault} {input : List Char} (h : fault.Begins input) :
    input ≠ [] := by
  cases h with
  | numeral _ _ htext => exact List.append_ne_nil_of_left_ne_nil htext _
  | _ => exact List.cons_ne_nil _ _

namespace Numeral

theorem negative_scanUnsigned (negative : Bool) (input : List Char) :
    (scanUnsigned negative input).1.negative = negative := by
  unfold scanUnsigned
  simp only []
  split <;> rfl

theorem unsigned_scanUnsigned_ne_nil {negative : Bool} {c : Char} {input : List Char}
    (hc : c.isDigit = true ∨ c = '.') :
    (scanUnsigned negative (c :: input)).1.unsigned ≠ [] := by
  rcases hc with hc | rfl
  · have hwhole : (c :: input).takeWhile Char.isDigit ≠ [] := by simp [hc]
    unfold scanUnsigned
    simp only []
    split <;> exact List.append_ne_nil_of_left_ne_nil hwhole _
  · simp [scanUnsigned, unsigned, Char.isDigit]

/-- A numeral is cut off in front of a digit, a point or a sign, so it has a text. -/
theorem text_scan_ne_nil {c : Char} {input : List Char}
    (hc : c = '-' ∨ c.isDigit = true ∨ c = '.') : (scan (c :: input)).1.text ≠ [] := by
  rw [text_eq]
  by_cases hsign : c = '-'
  · subst hsign
    simp [scan, negative_scanUnsigned]
  · rw [scan_of_ne hsign]
    exact List.append_ne_nil_of_right_ne_nil _
      (unsigned_scanUnsigned_ne_nil (hc.resolve_left hsign))

end Numeral

namespace Lexeme

variable {fault : LexFault} {input text rest : List Char}

theorem Spelling.ne_nil {kind : TokenKind} (h : Spelling kind text) : text ≠ [] := by
  obtain ⟨first, tail, rfl, -⟩ := h.spells
  exact List.cons_ne_nil first tail

theorem begins_of_scanQuoted (h : scanQuoted input = .fault fault text rest) :
    fault.Begins ('"' :: input) := by
  unfold scanQuoted at h
  split at h
  · exact nomatch h
  · rename_i hsplit
    obtain ⟨rfl, -, -⟩ := Lexeme.fault.inj h
    refine .string fun body r hbody htail => ?_
    rw [Quoted.split?_eq_some_iff.2 ⟨hbody, htail⟩] at hsplit
    exact nomatch hsplit

theorem begins_of_scanHtml (h : scanHtml input = .fault fault text rest) :
    fault.Begins ('<' :: input) := by
  unfold scanHtml at h
  split at h
  · exact nomatch h
  · rename_i hsplit
    obtain ⟨rfl, -, -⟩ := Lexeme.fault.inj h
    refine .html fun body r hbody htail => ?_
    rw [Html.split?_eq_some_iff.2 ⟨hbody, htail⟩] at hsplit
    exact nomatch hsplit

theorem begins_of_scanNumeral {c : Char} (hc : c = '-' ∨ c.isDigit = true ∨ c = '.')
    (h : scanNumeral (c :: input) = .fault fault text rest) : fault.Begins (c :: input) := by
  have htext := @Numeral.text_scan_ne_nil c input hc
  have hdigital := Numeral.digital_scan (c :: input)
  rw [← Numeral.append_scan (c :: input)]
  unfold scanNumeral at h
  split at h
  rename_i n r hscan
  rw [hscan] at htext hdigital ⊢
  split at h
  · exact nomatch h
  · rename_i hvalue
    obtain ⟨rfl, -, -⟩ := Lexeme.fault.inj h
    exact .numeral hdigital hvalue htext

theorem begins_of_scanDash (h : scanDash input = .fault fault text rest) :
    fault.Begins ('-' :: input) := by
  revert h
  fun_cases scanDash input with
  | case1 => rintro ⟨⟩
  | case2 => rintro ⟨⟩
  | case3 => exact begins_of_scanNumeral (.inl rfl)
  | case4 =>
    intro h
    obtain ⟨rfl, -, -⟩ := Lexeme.fault.inj h
    exact .char
  | case5 =>
    intro h
    obtain ⟨rfl, -, -⟩ := Lexeme.fault.inj h
    exact .char

/-- A malformed token begins as its fault says. -/
theorem begins_of_scan {c : Char} (h : scan c input = .fault fault text rest) :
    fault.Begins (c :: input) := by
  revert h
  fun_cases scan c input with
  | case1 => rintro ⟨⟩
  | case2 _ hc => rw [hc]; exact begins_of_scanQuoted
  | case3 _ _ hc => rw [hc]; exact begins_of_scanHtml
  | case4 _ _ _ hc => rw [hc]; exact begins_of_scanDash
  | case5 _ _ _ _ hc => exact begins_of_scanNumeral (.inr (by simpa using hc))
  | case6 => rintro ⟨⟩
  | case7 =>
    intro h
    obtain ⟨rfl, -, -⟩ := Lexeme.fault.inj h
    exact .char

end Lexeme

/-! ## Readings -/

namespace Cursor

open Lexeme Trivia

/-- What a cursor reads, and the cursor behind it. -/
inductive Reads (c : Cursor) : Except LexError Token → Cursor → Prop where
  /-- A stretch up to the end of the text. -/
  | eof : Stretch c.pos c.rest [] → Reads c (.ok ⟨.eof, "", c.pos.after c.rest⟩) c.toEnd
  /-- A stretch, and a token that is spelled by its text. -/
  | token {gap text rest : List Char} {kind : TokenKind} :
      c.rest = gap ++ (text ++ rest) → Stretch c.pos gap (text ++ rest) → Spelling kind text →
      Reads c (.ok ⟨kind, String.ofList text, c.pos.after gap⟩) (c.skip (gap ++ text) rest)
  /-- A stretch, and a malformed token. Some text of it may be passed over. -/
  | fault {gap text rest : List Char} {fault : LexFault} :
      c.rest = gap ++ (text ++ rest) → Stretch c.pos gap (text ++ rest) →
      fault.Begins (text ++ rest) →
      Reads c (.error ⟨fault, c.pos.after gap⟩) (c.skip (gap ++ text) rest)

theorem pos_skip_after (c : Cursor) (text rest t : List Char) :
    (c.skip text rest).pos.after t = c.pos.after (text ++ t) :=
  (Position.after_append _ _ _).symm

theorem skip_skip (c : Cursor) (text rest t r : List Char) :
    (c.skip text rest).skip t r = c.skip (text ++ t) r := by
  rw [skip, pos_skip_after, skip]

/-- What is read behind a blank or a comment is read in front of it. -/
theorem Reads.of_skip {c c' : Cursor} {text rest : List Char} {result : Except LexError Token}
    (hrest : c.rest = text ++ rest) (hpiece : Piece c.pos text rest)
    (h : (c.skip text rest).Reads result c') : c.Reads result c' := by
  cases h with
  | eof hstretch =>
    have hall : Stretch c.pos c.rest [] := by
      rw [hrest]
      refine .cons ?_ hstretch
      rwa [List.append_nil]
    rw [toEnd, skip_skip, pos_skip_after, rest_skip, ← hrest]
    exact .eof hall
  | token heq hstretch hspell =>
    rw [rest_skip] at heq
    subst heq
    rw [skip_skip, pos_skip_after, ← List.append_assoc]
    refine .token ?_ (.cons hpiece hstretch) hspell
    rw [hrest, List.append_assoc]
  | fault heq hstretch hbegins =>
    rw [rest_skip] at heq
    subst heq
    rw [skip_skip, pos_skip_after, ← List.append_assoc]
    refine .fault ?_ (.cons hpiece hstretch) hbegins
    rw [hrest, List.append_assoc]

theorem Reads.of_ok {c c' : Cursor} {token : Token} (h : c.Reads (.ok token) c') :
    ∃ gap, c.rest = gap ++ (token.text.toList ++ c'.rest) ∧
      Stretch c.pos gap (token.text.toList ++ c'.rest) ∧ token.pos = c.pos.after gap ∧
      (token.kind = .eof ∧ token.text = "" ∧ c'.rest = [] ∨
        Spelling token.kind token.text.toList) := by
  cases h with
  | eof hstretch =>
    refine ⟨c.rest, (List.append_nil _).symm, hstretch, rfl, .inl ⟨rfl, rfl, rfl⟩⟩
  | @token gap text rest kind heq hstretch hspell =>
    have htext : (String.ofList text).toList = text := String.toList_ofList
    refine ⟨gap, ?_, ?_, rfl, .inr ?_⟩
    · rw [htext]
      exact heq
    · rw [htext]
      exact hstretch
    · rw [htext]
      exact hspell

theorem Reads.of_error {c c' : Cursor} {e : LexError} (h : c.Reads (.error e) c') :
    ∃ gap rest, c.rest = gap ++ rest ∧ Stretch c.pos gap rest ∧ e.pos = c.pos.after gap ∧
      e.fault.Begins rest := by
  cases h with
  | fault heq hstretch hbegins => exact ⟨_, _, heq, hstretch, rfl, hbegins⟩

/-- A reading moves the cursor behind what it passes. -/
theorem Reads.exists_passed {c c' : Cursor} {result : Except LexError Token}
    (h : c.Reads result c') :
    ∃ passed, c.rest = passed ++ c'.rest ∧ c'.pos = c.pos.after passed := by
  cases h with
  | eof => exact ⟨c.rest, (List.append_nil _).symm, rfl⟩
  | @token gap text rest kind heq =>
    refine ⟨gap ++ text, ?_, rfl⟩
    rw [heq, ← List.append_assoc]
    rfl
  | @fault gap text rest fault heq =>
    refine ⟨gap ++ text, ?_, rfl⟩
    rw [heq, ← List.append_assoc]
    rfl

/-- A reading passes a stretch, and behind it there is the end of the text, a token or a malformed
one. -/
theorem next_reads (c : Cursor) : c.Reads c.next.1 c.next.2 := by
  fun_induction next c with
  | case1 c text rest hhead ih =>
    obtain ⟨hpiece, hrest⟩ := head_eq_passed_iff.1 hhead
    exact ih.of_skip hrest hpiece
  | case2 c hhead =>
    obtain ⟨tail, hrest, htail⟩ := head_eq_unclosed_iff.1 hhead
    have hbegins : LexFault.unterminatedComment.Begins (c.rest ++ []) := by
      rw [List.append_nil, hrest]
      exact .comment htail
    exact @Reads.fault c [] c.rest [] _ (List.append_nil _).symm .nil hbegins
  | case3 c hhead hrest =>
    obtain ⟨_, pos⟩ := c
    obtain rfl := hrest
    exact .eof .nil
  | case4 c hhead first input hrest kind text rest hscan =>
    have happend := append_scan first input
    rw [hscan, ← hrest] at happend
    exact @Reads.token c [] text rest _ happend.symm .nil (spelling_of_scan hscan)
  | case5 c hhead first input hrest fault text rest hscan =>
    have happend := append_scan first input
    rw [hscan, ← hrest] at happend
    have happend : text ++ rest = c.rest := happend
    have hbegins : fault.Begins (text ++ rest) := by
      rw [happend, hrest]
      exact begins_of_scan hscan
    exact @Reads.fault c [] text rest _ happend.symm .nil hbegins

end Cursor

end DotLang
