import DotLang.Binary64.Rounding

/-!
# The shortest decimal that reads back

Of all decimals that round to a given binary number, `shortest` picks one with the fewest
digits, and among those the nearest to the number. If a decimal with `n` digits reads back, then
so does one of the two `n`-digit neighbours of the number itself, so only these are tried.
Seventeen digits always suffice; should none of the shorter ones do, the exact value is taken.

* `Decimal.ofCode`: the exact decimal value of a finite code.
* `Decimal.shortest`: the shortest one, with a rule for two equally near neighbours.
-/

namespace DotLang

/-- A decimal number `digits * 10 ^ exponent`. -/
structure Decimal where
  digits : Nat
  exponent : Int
deriving DecidableEq

namespace Decimal

/-- Which of two equally near neighbours is taken. -/
inductive Tie where
  | up
  | even
deriving DecidableEq

/-- The exact value of a finite code: powers of two below one become powers of five. -/
def ofCode (code : Nat) : Decimal :=
  let m := Binary64.significand code
  let q := Binary64.scale code
  if 0 ≤ q then ⟨m <<< q.toNat, 0⟩ else ⟨m * Nat.pow 5 (-q).toNat, q⟩

/-- Whether a decimal rounds to this code. -/
def ReadsAs (d : Decimal) (code : Nat) : Prop :=
  Binary64.codeOfDecimal d.digits d.exponent = code

instance (d : Decimal) (code : Nat) : Decidable (d.ReadsAs code) :=
  inferInstanceAs (Decidable (_ = _))

/-- The digits of a coefficient, the first one first. -/
def digitChars (d : Decimal) : List Char := Nat.toDigits 10 d.digits

/-- The value with `drop` digits less, cut off. -/
def below (d : Decimal) (drop : Nat) : Decimal :=
  ⟨d.digits / Binary64.tenTo drop, d.exponent + drop⟩

/-- The next value on the same grid. -/
def above (d : Decimal) (drop : Nat) : Decimal :=
  ⟨d.digits / Binary64.tenTo drop + 1, d.exponent + drop⟩

/-- Whether `below` is nearer to the value than `above`, or as near and preferred. -/
def prefersBelow (d : Decimal) (drop : Nat) (tie : Tie) : Bool :=
  let grid := Binary64.tenTo drop
  let rest := 2 * (d.digits % grid)
  rest < grid || rest == grid && tie == .even && d.digits / grid % 2 == 0

/-- The better of the two neighbours with `drop` digits less that read as `code`. -/
def neighbour? (d : Decimal) (code drop : Nat) (tie : Tie) : Option Decimal :=
  let lo := d.below drop
  let hi := d.above drop
  if lo.ReadsAs code then
    if hi.ReadsAs code then some (if d.prefersBelow drop tie then lo else hi) else some lo
  else if hi.ReadsAs code then some hi
  else none

/-- Moves trailing zeros of the coefficient into the exponent. Zero is `0 * 10 ^ 0`. -/
def trim (d : Decimal) : Decimal :=
  if d.digits = 0 then ⟨0, 0⟩
  else if d.digits % 10 = 0 then trim ⟨d.digits / 10, d.exponent + 1⟩
  else d
termination_by d.digits
decreasing_by omega

/-- The shortest decimal that reads as the finite code `code`. -/
def shortest (tie : Tie) (code : Nat) : Decimal :=
  let exact := ofCode code
  let length := exact.digitChars.length
  let found := (List.range 17).findSome? fun k =>
    if k + 1 < length then exact.neighbour? code (length - (k + 1)) tie else some exact
  (found.getD exact).trim

end Decimal

end DotLang
