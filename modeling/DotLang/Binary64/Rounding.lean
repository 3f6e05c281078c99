import DotLang.Binary64

/-!
# Rounding to the nearest binary number

`codeOfRatio num den` is the code of the number nearest to `num / den`, and of two equally near
the one with the even significand. Everything is exact arithmetic on natural numbers. The
significand may round up to the next power of two: the carry then runs into the exponent field,
which is the right code.

* `codeOfDecimal`: the code nearest to `digits * 10 ^ exponent`.
-/

namespace DotLang.Binary64

/-- The whole number nearest to `num / den`; a tie goes to the even one. -/
def roundHalfEven (num den : Nat) : Nat :=
  let q := num / den
  let r := num % den
  if 2 * r < den then q else if den < 2 * r then q + 1 else q + q % 2

/-- The greatest `k` with `2 ^ k ≤ num / den`, for positive `num` and `den`. -/
def floorLog (num den : Nat) : Int :=
  let k : Int := (num.log2 : Int) - den.log2
  if den <<< k.toNat ≤ num <<< (-k).toNat then k else k - 1

/-- The code nearest to `num / den`. It is not bounded: codes from `infinityCode` on stand for
magnitudes that are too large. -/
def codeOfRatio (num den : Nat) : Nat :=
  if num = 0 then 0
  else
    let e := max (floorLog num den - 52) (-1074)
    (e + 1074).toNat * leadingBit + roundHalfEven (num <<< (-e).toNat) (den <<< e.toNat)

/-- A power of ten. -/
def tenTo (k : Nat) : Nat := Nat.pow 10 k

/-- The code nearest to `digits * 10 ^ exponent`. -/
def codeOfDecimal (digits : Nat) (exponent : Int) : Nat :=
  codeOfRatio (digits * tenTo exponent.toNat) (tenTo (-exponent).toNat)

/-! ## The rounding of a quotient -/

/-- The rounded quotient is within half a unit of the quotient. -/
theorem roundHalfEven_near (num : Nat) {den : Nat} (hden : 0 < den) :
    2 * (roundHalfEven num den * den) ≤ 2 * num + den ∧
      2 * num ≤ 2 * (roundHalfEven num den * den) + den := by
  have h := Nat.div_add_mod num den
  have hr := Nat.mod_lt num hden
  unfold roundHalfEven
  simp only []
  generalize num / den = q at *
  generalize num % den = r at *
  rw [Nat.mul_comm] at h
  have hq : q % 2 = 0 ∨ q % 2 = 1 := by omega
  split
  · omega
  · split
    · rw [Nat.add_mul]; omega
    · rcases hq with hq | hq <;> rw [hq, Nat.add_mul] <;> omega

end DotLang.Binary64
