/-!
# Binary floating-point numbers of 64 bits

A `Binary64` is a sign and a `code`, the other 63 bits read as one number: the exponent field
above 52 bits of fraction. Codes are ordered like the magnitudes that they stand for, all codes
below `infinityCode` are finite, and all above it are NaN.

* `significand`, `scale`: a finite number has the magnitude `significand * 2 ^ scale`.
* `same`: equality of numbers, where both zeros are one number and a NaN equals nothing.
* `ofBits_toBits`: the 64 bits of a number determine it.
-/

namespace DotLang

/-- A binary floating-point number: a sign, and the exponent and fraction fields as one code. -/
structure Binary64 where
  negative : Bool
  code : Nat
  code_lt : code < 0x8000000000000000
deriving DecidableEq

namespace Binary64

/-- The bit of the sign. -/
def signBit : Nat := 0x8000000000000000

/-- The lowest bit of the exponent field, and the bit that the fraction leaves out. -/
def leadingBit : Nat := 0x10000000000000

/-- The code of infinity: the largest exponent field over an empty fraction. -/
def infinityCode : Nat := 0x7ff0000000000000

/-- The number with these 64 bits; higher bits are dropped. -/
def ofBits (bits : Nat) : Binary64 where
  negative := bits / signBit % 2 = 1
  code := bits % signBit
  code_lt := Nat.mod_lt _ (by decide)

/-- The 64 bits of a number. -/
def toBits (x : Binary64) : Nat := (if x.negative then signBit else 0) + x.code

theorem ofBits_toBits (x : Binary64) : ofBits x.toBits = x := by
  obtain ⟨s, c, hc⟩ := x
  cases s <;> simp only [ofBits, toBits, signBit, mk.injEq] <;> simp <;> omega

def isNaN (x : Binary64) : Bool := infinityCode < x.code

def isFinite (x : Binary64) : Bool := x.code < infinityCode

/-- Both zeros have the code zero. -/
def isZero (x : Binary64) : Bool := x.code = 0

/-- Equality of numbers. The two zeros are the same number; a NaN is not even itself. -/
def same (x y : Binary64) : Bool :=
  !x.isNaN && !y.isNaN && (x == y || x.isZero && y.isZero)

/-- The significand of a finite code, with the leading bit that the fields leave out. -/
def significand (code : Nat) : Nat :=
  if code < leadingBit then code else leadingBit + code % leadingBit

/-- The power of two of the last significand bit. -/
def scale (code : Nat) : Int := (max (code / leadingBit) 1 : Nat) - 1075

/-- The magnitude of a whole number, or nothing if a fraction is left. -/
def whole? (code : Nat) : Option Nat :=
  let m := significand code
  let q := scale code
  if 0 ≤ q then some (m <<< q.toNat)
  else if m % (1 <<< (-q).toNat) = 0 then some (m >>> (-q).toNat)
  else none

/-- The finite number with this code, and the infinity for every code that is too large. -/
def ofCode (negative : Bool) (code : Nat) : Binary64 where
  negative := negative
  code := min code infinityCode
  code_lt := Nat.lt_of_le_of_lt (Nat.min_le_right ..) (by decide)

end Binary64

end DotLang
