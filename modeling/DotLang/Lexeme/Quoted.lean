/-!
# Quoted strings

Between the quotes a backslash hides the character after it, so `\"` does not close the string.
Only two things are decoded: `\"` is a quote, and a backslash before a line break joins the two
lines. Every other backslash stays as written, together with the character after it.

* `append_of_split?`: a split takes nothing from the input but the closing quote.
-/

namespace DotLang.Lexeme.Quoted

/-- Splits the input behind an opening quote into the text up to the closing quote and the rest
behind that quote. -/
def split? : List Char → Option (List Char × List Char)
  | [] => none
  | '"' :: rest => some ([], rest)
  | '\\' :: [] => none
  | '\\' :: c :: rest => (split? rest).map fun (body, r) => ('\\' :: c :: body, r)
  | c :: rest => (split? rest).map fun (body, r) => (c :: body, r)

/-- The value that the text between the quotes stands for. -/
def decode : List Char → List Char
  | '\\' :: '"' :: rest => '"' :: decode rest
  | '\\' :: '\n' :: rest => decode rest
  | '\\' :: '\r' :: '\n' :: rest => decode rest
  | '\\' :: c :: rest => '\\' :: c :: decode rest
  | c :: rest => c :: decode rest
  | [] => []

theorem append_of_split? {input body rest : List Char} (h : split? input = some (body, rest)) :
    body ++ '"' :: rest = input := by
  fun_induction split? input generalizing body rest with
  | case1 => simp at h
  | case2 r =>
    obtain ⟨rfl, rfl⟩ := Prod.mk.inj (Option.some.inj h)
    rfl
  | case3 => simp at h
  | case4 c r ih =>
    obtain ⟨⟨b, r'⟩, hs, he⟩ := Option.map_eq_some_iff.1 h
    obtain ⟨rfl, rfl⟩ := Prod.mk.inj he
    simp [ih hs]
  | case5 c r _ _ _ ih =>
    obtain ⟨⟨b, r'⟩, hs, he⟩ := Option.map_eq_some_iff.1 h
    obtain ⟨rfl, rfl⟩ := Prod.mk.inj he
    simp [ih hs]

end DotLang.Lexeme.Quoted
