import DotLang.Error
import DotLang.Lexeme.Html
import DotLang.Lexeme.Quoted
import DotLang.Numeral
import DotLang.Token

/-!
# Lexemes

One lexeme is cut off the head of an input that begins with neither blank nor comment. Its first
characters decide what it is. No place is known here: a lexeme is the same wherever it stands.

* `Lexeme.append_scan`: the text of a lexeme and the rest are the input.
* `Lexeme.ne_nil_of_scan`: a token has a text, so each token shortens the input.
-/

namespace DotLang

/-- A lexeme, with the text that it takes and the rest of the input. -/
inductive Lexeme where
  | token (kind : TokenKind) (text rest : List Char)
  /-- A malformed lexeme, with the text that is passed over. -/
  | fault (fault : LexFault) (text rest : List Char)

namespace Lexeme

def text : Lexeme → List Char
  | token _ text _ => text
  | fault _ text _ => text

def rest : Lexeme → List Char
  | token _ _ rest => rest
  | fault _ _ rest => rest

/-- A name starts with a letter, an underscore or any character that is not ASCII. -/
def isNameStart (c : Char) : Bool := c.isAlpha || c = '_' || 127 < c.toNat

/-- A name goes on with digits too. -/
def isNameChar (c : Char) : Bool := isNameStart c || c.isDigit

/-- The string behind an opening quote. One that is never closed takes all the input. -/
def scanQuoted (input : List Char) : Lexeme :=
  match Quoted.split? input with
  | some (body, rest) =>
    .token (.string (String.ofList (Quoted.decode body))) ('"' :: (body ++ ['"'])) rest
  | none => .fault .unterminatedString ('"' :: input) []

/-- The html string behind an opening bracket. One that is never closed takes all the input. -/
def scanHtml (input : List Char) : Lexeme :=
  match Html.split? 0 input with
  | some (body, rest) => .token (.html (String.ofList body)) ('<' :: (body ++ ['>'])) rest
  | none => .fault .unterminatedHtml ('<' :: input) []

/-- The numeral at the head of the input. It is passed over even if it has no value. -/
def scanNumeral (input : List Char) : Lexeme :=
  let (numeral, rest) := Numeral.scan input
  match numeral.value? with
  | some value => .token (.number value) numeral.text rest
  | none => .fault (.invalidNumber (String.ofList numeral.text)) numeral.text rest

/-- What a minus sign begins: an arrow, or a numeral if a digit or a point follows. -/
def scanDash : List Char → Lexeme
  | '>' :: rest => .token (.edgeOp .directed) ['-', '>'] rest
  | '-' :: rest => .token (.edgeOp .undirected) ['-', '-'] rest
  | c :: rest =>
    if c.isDigit || c = '.' then scanNumeral ('-' :: c :: rest)
    else .fault (.unexpectedChar '-') [] ('-' :: c :: rest)
  | [] => .fault (.unexpectedChar '-') [] ['-']

/-- The longest name at the head of the input, which may be a keyword. -/
def scanName (input : List Char) : Lexeme :=
  let name := input.takeWhile isNameChar
  let kind :=
    match Keyword.ofName? name with
    | some word => .keyword word
    | none => .identifier (String.ofList name)
  .token kind name (input.dropWhile isNameChar)

/-- The lexeme at the head of the input `c :: input`. A character that begins none is not passed
over. -/
def scan (c : Char) (input : List Char) : Lexeme :=
  match Symbol.ofChar? c with
  | some s => .token (.symbol s) [c] input
  | none =>
    if c = '"' then scanQuoted input
    else if c = '<' then scanHtml input
    else if c = '-' then scanDash input
    else if c.isDigit || c = '.' then scanNumeral (c :: input)
    else if isNameStart c then scanName (c :: input)
    else .fault (.unexpectedChar c) [] (c :: input)

/-! ## The text of a lexeme -/

theorem append_scanQuoted (input : List Char) :
    (scanQuoted input).text ++ (scanQuoted input).rest = '"' :: input := by
  unfold scanQuoted
  split
  · rename_i body r h
    simp [text, rest, Quoted.append_of_split? h]
  · simp [text, rest]

theorem append_scanHtml (input : List Char) :
    (scanHtml input).text ++ (scanHtml input).rest = '<' :: input := by
  unfold scanHtml
  split
  · rename_i body r h
    simp [text, rest, Html.append_of_split? h]
  · simp [text, rest]

theorem append_scanNumeral (input : List Char) :
    (scanNumeral input).text ++ (scanNumeral input).rest = input := by
  have h := Numeral.append_scan input
  unfold scanNumeral
  simp only []
  split <;> exact h

theorem append_scanDash (input : List Char) :
    (scanDash input).text ++ (scanDash input).rest = '-' :: input := by
  fun_cases scanDash input with
  | case3 => rw [append_scanNumeral]
  | _ => rfl

theorem append_scanName (input : List Char) :
    (scanName input).text ++ (scanName input).rest = input :=
  List.takeWhile_append_dropWhile

/-- A lexeme takes nothing from the input but its text. -/
theorem append_scan (c : Char) (input : List Char) :
    (scan c input).text ++ (scan c input).rest = c :: input := by
  fun_cases scan c input with
  | case2 _ hc => rw [hc]; exact append_scanQuoted input
  | case3 _ _ hc => rw [hc]; exact append_scanHtml input
  | case4 _ _ _ hc => rw [hc]; exact append_scanDash input
  | case5 => exact append_scanNumeral _
  | case6 => exact append_scanName _
  | _ => rfl

theorem ne_nil_of_scanNumeral {input text rest : List Char} {kind : TokenKind}
    (h : scanNumeral input = .token kind text rest) : text ≠ [] := by
  unfold scanNumeral at h
  split at h
  rename_i numeral r hs
  split at h
  · rename_i value hv
    injection h with _ ht
    rw [← ht]
    intro hnil
    simp only [Numeral.value?] at hv
    simp only [Numeral.text, List.append_eq_nil_iff] at hnil
    split at hv
    · simp at hv
    · rename_i hd
      apply hd
      unfold Numeral.digits
      rw [hnil.1.2]
      revert hnil
      cases numeral.fraction <;> simp
  · simp at h

/-- The text of a token is not empty. -/
theorem ne_nil_of_scan {c : Char} {input text rest : List Char} {kind : TokenKind}
    (h : scan c input = .token kind text rest) : text ≠ [] := by
  revert h
  fun_cases scan c input with
  | case1 => intro h; injection h with _ ht; simp [← ht]
  | case2 =>
    intro h
    unfold scanQuoted at h
    split at h
    · injection h with _ ht; simp [← ht]
    · simp at h
  | case3 =>
    intro h
    unfold scanHtml at h
    split at h
    · injection h with _ ht; simp [← ht]
    · simp at h
  | case4 =>
    intro h
    revert h
    fun_cases scanDash input with
    | case1 => intro h; injection h with _ ht; simp [← ht]
    | case2 => intro h; injection h with _ ht; simp [← ht]
    | case3 => intro h; exact ne_nil_of_scanNumeral h
    | case4 => intro h; simp at h
    | case5 => intro h; simp at h
  | case5 => intro h; exact ne_nil_of_scanNumeral h
  | case6 _ _ _ _ _ hc =>
    intro h
    injection h with _ ht
    rw [← ht, List.takeWhile_cons]
    simp [isNameChar, hc]
  | case7 => intro h; simp at h

end Lexeme

end DotLang
