import DotLang.Cursor

/-!
# Gaps between tokens

A `Gap` is a sequence of blanks and complete comments. It knows whether a line feed stands right
in front of it, since only then may it begin with a line that `#` opens. A reader passes a gap, and
of what is behind it only the place is another.

* `Cursor.next_gap`: reading in front of a gap is reading behind it.
* `Gap.of_false`: what is a gap behind any character is one behind a line feed.
* `Gap.begins`: how a gap begins that stands behind a token.
-/

namespace DotLang

namespace Trivia

/-- Blanks and complete comments. The flag says that a line feed stands in front. -/
inductive Gap : Bool → List Char → Prop where
  | nil {fed : Bool} : Gap fed []
  | blank {fed : Bool} {c : Char} {g : List Char} :
      isBlank c = true → Gap (c = '\n') g → Gap fed (c :: g)
  /-- A line comment and the line feed behind it. -/
  | line {fed : Bool} {text g : List Char} :
      '\n' ∉ text → Gap true g → Gap fed ('/' :: '/' :: (text ++ '\n' :: g))
  /-- A block comment ends with the first asterisk in front of a slash. -/
  | block {fed : Bool} {text g : List Char} :
      ¬ ['*', '/'] <:+: text → Gap false g → Gap fed ('/' :: '*' :: (text ++ '*' :: '/' :: g))
  /-- A line that begins with `#` and the line feed behind it. -/
  | hash {text g : List Char} :
      '\n' ∉ text → Gap true g → Gap true ('#' :: (text ++ '\n' :: g))

/-- What may stand between two tokens: a gap that is not empty. -/
def Separation (g : List Char) : Prop := Gap false g ∧ g ≠ []

theorem Gap.of_false {g : List Char} (h : Gap false g) (fed : Bool) : Gap fed g := by
  cases h with
  | nil => exact .nil
  | blank hc hg => exact .blank hc hg
  | line ht hg => exact .line ht hg
  | block ht hg => exact .block ht hg

theorem Gap.append {fed : Bool} {g g' : List Char} (h : Gap fed g) (h' : Gap false g') :
    Gap fed (g ++ g') := by
  induction h with
  | nil => exact h'.of_false _
  | blank hc _ ih => exact .blank hc ih
  | line ht _ ih =>
    rw [List.cons_append, List.cons_append, List.append_assoc]
    exact .line ht ih
  | block ht _ ih =>
    rw [List.cons_append, List.cons_append, List.append_assoc]
    exact .block ht ih
  | hash ht _ ih =>
    rw [List.cons_append, List.append_assoc]
    exact .hash ht ih

/-- Behind a token a gap begins with a blank or a slash. -/
theorem Gap.begins {c : Char} {g : List Char} (h : Gap false (c :: g)) :
    isBlank c = true ∨ c = '/' := by
  cases h with
  | blank hc _ => exact .inl hc
  | line => exact .inr rfl
  | block => exact .inr rfl

/-! ## Passing a blank or a comment -/

theorem head_blank {lineStart : Bool} {c : Char} {rest : List Char} (hc : isBlank c = true) :
    head lineStart (c :: rest) = .passed [c] rest := by
  have hslash : c ≠ '/' := by
    rintro rfl
    exact absurd hc (by decide)
  unfold head
  split <;> simp_all

/-- What begins with none of the characters that begin a blank or a comment. -/
theorem head_of_ne {c : Char} (hblank : isBlank c = false) (hslash : c ≠ '/') (hhash : c ≠ '#')
    (lineStart : Bool) (rest : List Char) : head lineStart (c :: rest) = .absent := by
  unfold head
  split
  · rfl
  · rename_i heq
    exact absurd (List.cons.inj heq).1 hslash
  · rename_i heq
    exact absurd (List.cons.inj heq).1 hslash
  · rename_i heq
    obtain ⟨rfl, _⟩ := List.cons.inj heq
    simp [hblank, hhash]

theorem forall_ne_feed {text : List Char} (h : '\n' ∉ text) :
    ∀ c ∈ text, decide (c ≠ '\n') = true := by
  intro c hc
  rw [decide_eq_true_iff]
  rintro rfl
  exact h hc

theorem line_append {text rest : List Char} (h : '\n' ∉ text) :
    line (text ++ '\n' :: rest) = text := by
  rw [line, List.takeWhile_append_of_pos (forall_ne_feed h)]
  simp

theorem afterLine_append {text rest : List Char} (h : '\n' ∉ text) :
    afterLine (text ++ '\n' :: rest) = '\n' :: rest := by
  rw [afterLine, List.dropWhile_append_of_pos (forall_ne_feed h)]
  simp

theorem splitBlock?_cons {c : Char} {input : List Char}
    (h : ∀ rest, c = '*' → input ≠ '/' :: rest) :
    splitBlock? (c :: input) = (splitBlock? input).map fun (text, r) => (c :: text, r) := by
  rw [splitBlock?]
  intro rest hc hinput
  exact h rest hc hinput

theorem splitBlock?_append {text rest : List Char} (h : ¬ ['*', '/'] <:+: text) :
    splitBlock? (text ++ '*' :: '/' :: rest) = some (text ++ ['*', '/'], rest) := by
  induction text with
  | nil => rfl
  | cons c text ih =>
    have htext : ¬ ['*', '/'] <:+: text := fun hin => h (List.infix_cons hin)
    have hopen : ∀ r, c = '*' → text ++ '*' :: '/' :: rest ≠ '/' :: r := by
      rintro r rfl heq
      cases text with
      | nil => simp at heq
      | cons d text =>
        obtain ⟨rfl, _⟩ := List.cons.inj heq
        exact h ⟨[], text, rfl⟩
    rw [List.cons_append, splitBlock?_cons hopen, ih htext]
    rfl

end Trivia

namespace Cursor

theorem next_of_passed {c : Cursor} {text rest : List Char}
    (h : Trivia.head c.pos.IsLineStart c.rest = .passed text rest) :
    c.next = (c.skip text rest).next := by
  conv => lhs; rw [next]
  split <;> rename_i heq <;> rw [h] at heq <;> cases heq
  rfl

theorem next_of_absent {pos : Position} {first : Char} {input text rest : List Char}
    {kind : TokenKind} (hhead : Trivia.head pos.IsLineStart (first :: input) = .absent)
    (hscan : Lexeme.scan first input = .token kind text rest) :
    next ⟨first :: input, pos⟩ = (.ok ⟨kind, String.ofList text, pos⟩, ⟨rest, pos.after text⟩) := by
  rw [next]
  split
  · rename_i heq
    cases hhead.symm.trans heq
  · rename_i heq
    cases hhead.symm.trans heq
  · simp only [hscan]
    rfl

theorem next_of_fault {pos : Position} {first : Char} {input text rest : List Char}
    {fault : LexFault} (hhead : Trivia.head pos.IsLineStart (first :: input) = .absent)
    (hscan : Lexeme.scan first input = .fault fault text rest) :
    next ⟨first :: input, pos⟩ = (.error ⟨fault, pos⟩, ⟨rest, pos.after text⟩) := by
  rw [next]
  split
  · rename_i heq
    cases hhead.symm.trans heq
  · rename_i heq
    cases hhead.symm.trans heq
  · simp only [hscan]
    rfl

theorem next_of_unclosed {c : Cursor} (h : Trivia.head c.pos.IsLineStart c.rest = .unclosed) :
    c.next = (.error ⟨.unterminatedComment, c.pos⟩, c.toEnd) := by
  rw [next]
  split <;> rename_i heq <;> rw [h] at heq <;> cases heq

theorem next_nil (pos : Position) : next ⟨[], pos⟩ = (.ok ⟨.eof, "", pos⟩, ⟨[], pos⟩) := by
  rw [next]
  rfl

/-! ## Passing a gap -/

open Trivia

theorem next_blank {b : Char} {rest : List Char} {pos : Position} (hb : isBlank b = true) :
    next ⟨b :: rest, pos⟩ = next ⟨rest, pos.next b⟩ :=
  next_of_passed (c := ⟨b :: rest, pos⟩) (head_blank hb)

theorem isLineStart_next {pos : Position} {c : Char} (h : c = '\n') : (pos.next c).IsLineStart := by
  rw [Position.next, if_pos h]
  rfl

/-- A comment that ends with a line is passed with the line feed behind it. -/
theorem next_line {text rest : List Char} {pos : Position}
    (h : head pos.IsLineStart (text ++ '\n' :: rest) = .passed text ('\n' :: rest)) :
    next ⟨text ++ '\n' :: rest, pos⟩ = next ⟨rest, (pos.after text).next '\n'⟩ := by
  rw [next_of_passed (c := ⟨text ++ '\n' :: rest, pos⟩) h]
  exact next_blank rfl

theorem next_gap {fed : Bool} {g : List Char} (h : Gap fed g) (rest : List Char)
    (pos : Position) (hpos : fed = true → pos.IsLineStart) :
    next ⟨g ++ rest, pos⟩ = next ⟨rest, pos.after g⟩ := by
  induction h generalizing pos with
  | nil => rfl
  | @blank fed c g hc hg ih =>
    have hnext : decide (c = '\n') = true → (pos.next c).IsLineStart :=
      fun h => isLineStart_next (of_decide_eq_true h)
    rw [List.cons_append, next_blank hc, ih _ hnext, Position.after_cons]
  | @line fed text g ht hg ih =>
    have hhead : head pos.IsLineStart (('/' :: '/' :: text) ++ '\n' :: (g ++ rest)) =
        .passed ('/' :: '/' :: text) ('\n' :: (g ++ rest)) := by
      rw [List.cons_append, List.cons_append, head, line_append ht, afterLine_append ht]
    have hsplit : '/' :: '/' :: (text ++ '\n' :: g) ++ rest =
        ('/' :: '/' :: text) ++ '\n' :: (g ++ rest) := by simp
    rw [hsplit, next_line hhead, ih _ fun _ => isLineStart_next rfl, ← Position.after_cons,
      ← Position.after_append]
    rfl
  | @block fed text g ht hg ih =>
    have hhead : head pos.IsLineStart ('/' :: '*' :: (text ++ '*' :: '/' :: g) ++ rest) =
        .passed ('/' :: '*' :: (text ++ ['*', '/'])) (g ++ rest) := by
      rw [List.cons_append, List.cons_append, List.append_assoc, List.cons_append,
        List.cons_append, head, splitBlock?_append ht]
    rw [next_of_passed (c := ⟨'/' :: '*' :: (text ++ '*' :: '/' :: g) ++ rest, pos⟩) hhead]
    rw [skip, ih _ (by simp), ← Position.after_append]
    simp
  | @hash text g ht hg ih =>
    have hstart : decide pos.IsLineStart = true := decide_eq_true (hpos rfl)
    have hhead : head pos.IsLineStart (('#' :: text) ++ '\n' :: (g ++ rest)) =
        .passed ('#' :: text) ('\n' :: (g ++ rest)) := by
      rw [List.cons_append, hstart, head]
      · simp [isBlank, line_append ht, afterLine_append ht]
      · simp
      · simp
    have hsplit : '#' :: (text ++ '\n' :: g) ++ rest =
        ('#' :: text) ++ '\n' :: (g ++ rest) := by simp
    rw [hsplit, next_line hhead, ih _ fun _ => isLineStart_next rfl, ← Position.after_cons,
      ← Position.after_append]
    rfl

/-- Behind a token a gap is passed wherever the token ends. -/
theorem next_gap_false {g : List Char} (h : Gap false g) (rest : List Char) (pos : Position) :
    next ⟨g ++ rest, pos⟩ = next ⟨rest, pos.after g⟩ :=
  next_gap h rest pos nofun

end Cursor

end DotLang
