/-!
# Html strings

An html string stands between angle brackets and may hold further brackets, as long as each that
is opened is closed. Nothing in it is decoded.

* `append_of_split?`: a split takes nothing from the input but the closing bracket.
-/

namespace DotLang.Lexeme.Html

/-- Splits the input inside `depth + 1` open brackets into the text up to the bracket that closes
the outermost one and the rest behind that bracket. -/
def split? (depth : Nat) : List Char → Option (List Char × List Char)
  | [] => none
  | c :: rest =>
    if c = '>' then
      match depth with
      | 0 => some ([], rest)
      | d + 1 => (split? d rest).map fun (body, r) => (c :: body, r)
    else if c = '<' then (split? (depth + 1) rest).map fun (body, r) => (c :: body, r)
    else (split? depth rest).map fun (body, r) => (c :: body, r)

theorem append_of_split? {depth : Nat} {input body rest : List Char}
    (h : split? depth input = some (body, rest)) : body ++ '>' :: rest = input := by
  induction input generalizing depth body with
  | nil => simp [split?] at h
  | cons c input ih =>
    have step {d : Nat}
        (hm : (split? d input).map (fun (b, r) => (c :: b, r)) = some (body, rest)) :
        body ++ '>' :: rest = c :: input := by
      obtain ⟨⟨b, r⟩, hs, he⟩ := Option.map_eq_some_iff.1 hm
      obtain ⟨rfl, rfl⟩ := Prod.mk.inj he
      simp [ih hs]
    unfold split? at h
    split at h
    · rename_i hc
      split at h
      · obtain ⟨rfl, rfl⟩ := Prod.mk.inj (Option.some.inj h)
        simp [hc]
      · exact step h
    · split at h <;> exact step h

end DotLang.Lexeme.Html
