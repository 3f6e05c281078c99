import DotLang.Lexeme
import DotLang.Trivia

/-!
# Reading tokens

A `Cursor` is what is left of a source text and the place where it begins. `Cursor.next` passes
blanks and comments and reads one token.

* `Cursor.length_of_next`: a token other than the end shortens the input.
* `Cursor.readAll`: the tokens up to the end or the first malformed token.
-/

namespace DotLang

/-- What is left of a source text, and the place of its first character. -/
structure Cursor where
  rest : List Char
  pos : Position

namespace Cursor

/-- Before the first character of a text. -/
def atStart (text : List Char) : Cursor := ⟨text, .start⟩

/-- Moves behind `text`, in front of `rest`. -/
def skip (c : Cursor) (text rest : List Char) : Cursor := ⟨rest, c.pos.after text⟩

@[simp] theorem rest_skip (c : Cursor) (text rest : List Char) : (c.skip text rest).rest = rest :=
  rfl

/-- Behind the last character. -/
def toEnd (c : Cursor) : Cursor := c.skip c.rest []

/-- Reads the next token. At the end of the text this is the token `eof`, as often as it is
asked for. A malformed token is reported at its first character. -/
def next (c : Cursor) : Except LexError Token × Cursor :=
  match _h : Trivia.head c.pos.IsLineStart c.rest with
  | .passed text rest => (c.skip text rest).next
  | .unclosed => (.error ⟨.unterminatedComment, c.pos⟩, c.toEnd)
  | .absent =>
    match c.rest with
    | [] => (.ok ⟨.eof, "", c.pos⟩, c)
    | first :: input =>
      match Lexeme.scan first input with
      | .token kind text rest => (.ok ⟨kind, String.ofList text, c.pos⟩, c.skip text rest)
      | .fault fault text rest => (.error ⟨fault, c.pos⟩, c.skip text rest)
termination_by c.rest.length
decreasing_by exact Trivia.length_of_head ‹_›

theorem length_of_next_le (c : Cursor) : c.next.2.rest.length ≤ c.rest.length := by
  fun_induction next c with
  | case1 c text rest h ih =>
    have := Trivia.length_of_head h
    rw [rest_skip] at ih
    omega
  | case2 => simp [toEnd]
  | case3 => simp
  | case4 c _ first input hrest kind text rest hscan =>
    have h := congrArg List.length (Lexeme.append_scan first input)
    rw [hscan] at h
    simp only [Lexeme.text, Lexeme.rest, List.length_append] at h
    rw [hrest, rest_skip]
    omega
  | case5 c _ first input hrest fault text rest hscan =>
    have h := congrArg List.length (Lexeme.append_scan first input)
    rw [hscan] at h
    simp only [Lexeme.text, Lexeme.rest, List.length_append] at h
    rw [hrest, rest_skip]
    omega

/-- A token other than the end of input shortens the input. -/
theorem length_of_next {c c' : Cursor} {token : Token} (h : c.next = (.ok token, c'))
    (hkind : token.kind ≠ .eof) : c'.rest.length < c.rest.length := by
  fun_induction next c with
  | case1 c text rest hh ih =>
    have := Trivia.length_of_head hh
    have := ih h
    rw [rest_skip] at this
    omega
  | case2 => simp at h
  | case3 =>
    obtain ⟨h1, _⟩ := Prod.mk.inj h
    injection h1 with h1
    simp [← h1] at hkind
  | case4 c _ first input hrest kind text rest hscan =>
    have happ := congrArg List.length (Lexeme.append_scan first input)
    have hne := List.length_pos_iff.2 (Lexeme.ne_nil_of_scan hscan)
    rw [hscan] at happ
    simp only [Lexeme.text, Lexeme.rest, List.length_append] at happ
    obtain ⟨_, h2⟩ := Prod.mk.inj h
    rw [← h2, hrest, rest_skip]
    omega
  | case5 => simp at h

/-- A run to the end: the tokens before it, and the end itself, which is the token `eof` or the
first malformed token. -/
structure Run where
  tokens : List Token
  ending : Except LexError Token
  cursor : Cursor

/-- Reads on until the end of input or the first malformed token. -/
def readAll (c : Cursor) : Run :=
  match _h : c.next with
  | (.error e, c') => ⟨[], .error e, c'⟩
  | (.ok token, c') =>
    if _hkind : token.kind = .eof then ⟨[], .ok token, c'⟩
    else
      let run := c'.readAll
      ⟨token :: run.tokens, run.ending, run.cursor⟩
termination_by c.rest.length
decreasing_by exact length_of_next ‹_› ‹_›

end Cursor

end DotLang
