import DotLang.Binary64.Rounding

/-!
# Numerals

A numeral is an optional minus sign, digits, and an optional point with more digits. It is cut
off as long as possible; only then is it judged, so a sign or a point without any digit is a
numeral without a value.

* `append_scan`: the text of the numeral and the rest are the input.
-/

namespace DotLang

/-- The parts of a numeral. -/
structure Numeral where
  negative : Bool
  /-- The digits before the point. -/
  whole : List Char
  /-- The digits behind the point, if there is a point. -/
  fraction : Option (List Char)
deriving DecidableEq

namespace Numeral

/-- The numeral behind its sign, and the rest of the input. -/
def scanUnsigned (negative : Bool) (input : List Char) : Numeral × List Char :=
  let whole := input.takeWhile Char.isDigit
  match input.dropWhile Char.isDigit with
  | '.' :: rest =>
    (⟨negative, whole, some (rest.takeWhile Char.isDigit)⟩, rest.dropWhile Char.isDigit)
  | rest => (⟨negative, whole, none⟩, rest)

/-- The longest numeral at the head of the input, and the rest of the input. -/
def scan : List Char → Numeral × List Char
  | '-' :: rest => scanUnsigned true rest
  | input => scanUnsigned false input

/-- The numeral as it is written. -/
def text (n : Numeral) : List Char :=
  (if n.negative then ['-'] else []) ++ n.whole ++
    match n.fraction with
    | none => []
    | some digits => '.' :: digits

/-- The digits on both sides of the point. -/
def digits (n : Numeral) : List Char := n.whole ++ n.fraction.getD []

/-- The number that a string of digits stands for. -/
def ofDigits (digits : List Char) : Nat :=
  digits.foldl (fun n c => 10 * n + (c.toNat - '0'.toNat)) 0

/-- The nearest number; a numeral that is too large gives an infinity. -/
def nearest (n : Numeral) : Binary64 :=
  .ofCode n.negative (Binary64.codeOfDecimal (ofDigits n.digits) (-(n.fraction.getD []).length))

/-- The value of a numeral: it needs a digit and must not be too large. -/
def value? (n : Numeral) : Option Binary64 :=
  if n.digits = [] then none
  else if n.nearest.isFinite then some n.nearest
  else none

theorem append_scanUnsigned (negative : Bool) (input : List Char) :
    (scanUnsigned negative input).1.text ++ (scanUnsigned negative input).2 =
      (if negative then ['-'] else []) ++ input := by
  have h := List.takeWhile_append_dropWhile (p := Char.isDigit) (l := input)
  unfold scanUnsigned
  simp only []
  split
  · rename_i rest hd
    rw [hd] at h
    simp [text, h]
  · simp [text, h]

theorem append_scan (input : List Char) : (scan input).1.text ++ (scan input).2 = input := by
  unfold scan
  split <;> simp [append_scanUnsigned]

end Numeral

end DotLang
