import DotLang.Decimal.Shortest

/-!
# Writing numbers

The digits of a number come from `Decimal.shortest`; a `Layout` says how they are set out. Two
layouts are in use: `Layout.plain` for text that is read by people, and `Layout.json`.

* `Binary64.display`: the plain text of a number. It never has an exponent.
* `Binary64.json`: the JSON text. Whole numbers below `2 ^ 53` are written as integers.
-/

namespace DotLang.Decimal

/-- The power of ten of the first digit. -/
def leadingExponent (d : Decimal) : Int := d.exponent + d.digitChars.length - 1

/-- The digits with a point, filled with zeros up to it. A whole number ends in `wholeEnding`. -/
def positional (d : Decimal) (wholeEnding : String) : String :=
  let ds := d.digitChars
  if 0 ≤ d.exponent then
    String.ofList (ds ++ List.replicate d.exponent.toNat '0') ++ wholeEnding
  else
    let places := (-d.exponent).toNat
    if places < ds.length then
      String.ofList (ds.take (ds.length - places)) ++ "." ++
        String.ofList (ds.drop (ds.length - places))
    else
      "0." ++ String.ofList (List.replicate (places - ds.length) '0' ++ ds)

/-- One digit before the point, and the exponent with its sign. -/
def scientific (d : Decimal) : String :=
  let ds := d.digitChars
  let mantissa :=
    if ds.length ≤ 1 then String.ofList ds
    else String.ofList (ds.take 1) ++ "." ++ String.ofList (ds.drop 1)
  let e := d.leadingExponent
  mantissa ++ "e" ++ (if e < 0 then "-" else "+") ++ toString e.natAbs

/-- How a number is set out. -/
structure Layout where
  /-- The rule for two equally near digit strings. -/
  tie : Tie
  /-- The least and greatest exponent of a first digit without an exponent part. -/
  positionalRange : Option (Int × Int)
  /-- What follows a whole number. -/
  wholeEnding : String

namespace Layout

/-- Every number is written without an exponent, whole numbers without a point. -/
def plain : Layout := ⟨.up, none, ""⟩

/-- Magnitudes from 0.00001 to below 10^16 are written without an exponent. -/
def json : Layout := ⟨.even, some (-5, 15), ".0"⟩

/-- Whether a first digit of this exponent is written without an exponent part. -/
def isPositional (layout : Layout) (e : Int) : Bool :=
  match layout.positionalRange with
  | none => true
  | some (least, greatest) => least ≤ e && e ≤ greatest

/-- The text of the finite magnitude with this code. -/
def write (layout : Layout) (code : Nat) : String :=
  let d := shortest layout.tie code
  if layout.isPositional d.leadingExponent then d.positional layout.wholeEnding else d.scientific

end Layout

end DotLang.Decimal

namespace DotLang.Binary64

/-- The plain text of a number. -/
def display (x : Binary64) : String :=
  if x.isNaN then "NaN"
  else (if x.negative then "-" else "") ++
    if x.isFinite then Decimal.Layout.plain.write x.code else "inf"

/-- The JSON text of a number; JSON has none for NaN and the infinities. -/
def json (x : Binary64) : String :=
  if !x.isFinite then "null"
  else
    let sign := if x.negative && !x.isZero then "-" else ""
    match whole? x.code with
    | some n =>
      if n < 0x20000000000000 then sign ++ toString n else sign ++ Decimal.Layout.json.write x.code
    | none => sign ++ Decimal.Layout.json.write x.code

end DotLang.Binary64
