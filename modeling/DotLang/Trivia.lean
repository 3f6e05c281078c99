/-!
# Blanks and comments

Between tokens stand blanks, line comments, block comments and, at the start of a line only,
lines that begin with `#`. A line comment ends before its line feed, and a block comment with the
first `*/` behind its opening.

* `append_of_head`: passing a blank or comment takes nothing else from the input.
-/

namespace DotLang.Trivia

/-- What stands at the head of an input. -/
inductive Head where
  /-- Neither blank nor comment. -/
  | absent
  /-- One blank or one comment, and the rest of the input. -/
  | passed (text rest : List Char)
  /-- A block comment that is never closed. -/
  | unclosed

/-- A form feed is a blank too. -/
def isBlank (c : Char) : Bool :=
  c = ' ' || c = '\t' || c = '\n' || c = '\x0c' || c = '\r'

/-- The rest of a line, without the line feed. -/
def line (input : List Char) : List Char := input.takeWhile (· ≠ '\n')

/-- The input from the next line feed on. -/
def afterLine (input : List Char) : List Char := input.dropWhile (· ≠ '\n')

/-- Splits the input inside a block comment behind the end of the comment. -/
def splitBlock? : List Char → Option (List Char × List Char)
  | '*' :: '/' :: rest => some (['*', '/'], rest)
  | c :: rest => (splitBlock? rest).map fun (text, r) => (c :: text, r)
  | [] => none

/-- The blank or comment at the head of an input, which is or is not the start of a line. -/
def head (lineStart : Bool) : List Char → Head
  | [] => .absent
  | '/' :: '/' :: rest => .passed ('/' :: '/' :: line rest) (afterLine rest)
  | '/' :: '*' :: rest =>
    match splitBlock? rest with
    | some (text, r) => .passed ('/' :: '*' :: text) r
    | none => .unclosed
  | c :: rest =>
    if isBlank c then .passed [c] rest
    else if c = '#' && lineStart then .passed (c :: line rest) (afterLine rest)
    else .absent

theorem line_append_afterLine (input : List Char) : line input ++ afterLine input = input :=
  List.takeWhile_append_dropWhile

theorem append_of_splitBlock? {input text rest : List Char}
    (h : splitBlock? input = some (text, rest)) : text ++ rest = input := by
  fun_induction splitBlock? input generalizing text rest with
  | case1 r =>
    obtain ⟨rfl, rfl⟩ := Prod.mk.inj (Option.some.inj h)
    rfl
  | case2 c r _ ih =>
    obtain ⟨⟨t, r'⟩, hs, he⟩ := Option.map_eq_some_iff.1 h
    obtain ⟨rfl, rfl⟩ := Prod.mk.inj he
    simp [ih hs]
  | case3 => simp at h

theorem append_of_head {lineStart : Bool} {input text rest : List Char}
    (h : head lineStart input = .passed text rest) : text ++ rest = input := by
  revert h
  fun_cases head lineStart input with
  | case1 => intro h; simp at h
  | case2 r =>
    intro h
    obtain ⟨rfl, rfl⟩ := Head.passed.inj h
    simp [line_append_afterLine]
  | case3 r t r' hs =>
    intro h
    obtain ⟨rfl, rfl⟩ := Head.passed.inj h
    simp [append_of_splitBlock? hs]
  | case4 => intro h; simp at h
  | case5 =>
    intro h
    obtain ⟨rfl, rfl⟩ := Head.passed.inj h
    rfl
  | case6 =>
    intro h
    obtain ⟨rfl, rfl⟩ := Head.passed.inj h
    simp [line_append_afterLine]
  | case7 => intro h; simp at h

theorem ne_nil_of_head {lineStart : Bool} {input text rest : List Char}
    (h : head lineStart input = .passed text rest) : text ≠ [] := by
  revert h
  fun_cases head lineStart input <;> intro h <;> simp_all <;> simp [← h.1]

/-- Passing a blank or comment shortens the input. -/
theorem length_of_head {lineStart : Bool} {input text rest : List Char}
    (h : head lineStart input = .passed text rest) : rest.length < input.length := by
  have hne := List.length_pos_iff.2 (ne_nil_of_head h)
  rw [← append_of_head h, List.length_append]
  omega

end DotLang.Trivia
