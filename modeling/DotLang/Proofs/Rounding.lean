import DotLang.Decimal.Shortest
import Mathlib.Algebra.Order.Field.Power
import Mathlib.Data.Rat.Cast.Order
import Mathlib.Tactic.NormNum
import Mathlib.Tactic.Positivity
import Mathlib.Tactic.Ring

/-!
# Numbers that need no rounding

A quotient that is the magnitude of a code is rounded to this code. Quotients are compared with
powers of two in `Rat`; the shifts by the two parts of an exponent, of which one is zero, are
products with one power there.

* `floorLog_eq`: the logarithm of a quotient, from the two powers of two around it.
* `codeOfRatio_eq`: a quotient that is the magnitude of a code has this code.
* `Decimal.readsAs_ofCode`: the exact decimal value of a code reads as this code.
-/

namespace DotLang.Binary64

/-! ## Powers of two -/

theorem two_zpow_pos (e : Int) : (0 : ℚ) < 2 ^ e := by positivity

/-- The two parts of an exponent. -/
theorem two_pow_toNat (e : Int) : (2 : ℚ) ^ e.toNat = 2 ^ e * 2 ^ (-e).toNat := by
  rw [← zpow_natCast, ← zpow_natCast, ← zpow_add₀ (by norm_num)]
  congr 1
  omega

theorem two_pow_mul_zpow {k l : Nat} {e : Int} (h : (k : Int) = l + e) :
    (2 : ℚ) ^ k = 2 ^ l * 2 ^ e := by
  rw [← zpow_natCast, ← zpow_natCast, ← zpow_add₀ (by norm_num), h]

theorem shift_le_shift_iff (a b : Nat) (e : Int) :
    a <<< e.toNat ≤ b <<< (-e).toNat ↔ (a : ℚ) * 2 ^ e ≤ b := by
  have hpos : (0 : ℚ) < 2 ^ (-e).toNat := by positivity
  rw [Nat.shiftLeft_eq, Nat.shiftLeft_eq, ← Nat.cast_le (α := ℚ)]
  push_cast
  rw [two_pow_toNat, ← mul_assoc, mul_le_mul_iff_left₀ hpos]

theorem shift_eq_shift {a b : Nat} {e : Int} (h : (a : ℚ) * 2 ^ e = b) :
    a <<< e.toNat = b <<< (-e).toNat := by
  rw [Nat.shiftLeft_eq, Nat.shiftLeft_eq, ← Nat.cast_inj (R := ℚ)]
  push_cast
  rw [two_pow_toNat, ← mul_assoc, h]

/-! ## The logarithm of a quotient -/

theorem floorLog_spec {num den : Nat} (hnum : 0 < num) (hden : 0 < den) :
    (den : ℚ) * 2 ^ floorLog num den ≤ num ∧ (num : ℚ) < den * 2 ^ (floorLog num den + 1) := by
  have hnum_lo : (2 : ℚ) ^ num.log2 ≤ num := by exact_mod_cast Nat.log2_self_le hnum.ne'
  have hnum_hi : (num : ℚ) < 2 ^ (num.log2 + 1) := by exact_mod_cast Nat.lt_log2_self
  have hden_lo : (2 : ℚ) ^ den.log2 ≤ den := by exact_mod_cast Nat.log2_self_le hden.ne'
  have hden_hi : (den : ℚ) < 2 ^ (den.log2 + 1) := by exact_mod_cast Nat.lt_log2_self
  have hupper : (num : ℚ) < den * 2 ^ ((num.log2 : Int) - den.log2 + 1) := by
    have hpow : (2 : ℚ) ^ (num.log2 + 1) = 2 ^ den.log2 * 2 ^ ((num.log2 : Int) - den.log2 + 1) :=
      two_pow_mul_zpow (by push_cast; ring)
    have hmul := mul_le_mul_of_nonneg_right hden_lo
      (two_zpow_pos ((num.log2 : Int) - den.log2 + 1)).le
    rw [← hpow] at hmul
    exact lt_of_lt_of_le hnum_hi hmul
  have hlower : (den : ℚ) * 2 ^ ((num.log2 : Int) - den.log2 - 1) ≤ num := by
    have hpow : (2 : ℚ) ^ num.log2 = 2 ^ (den.log2 + 1) * 2 ^ ((num.log2 : Int) - den.log2 - 1) :=
      two_pow_mul_zpow (by push_cast; ring)
    have hmul := mul_le_mul_of_nonneg_right hden_hi.le
      (two_zpow_pos ((num.log2 : Int) - den.log2 - 1)).le
    rw [← hpow] at hmul
    exact le_trans hmul hnum_lo
  unfold floorLog
  simp only []
  split
  · rename_i h
    exact ⟨(shift_le_shift_iff _ _ _).1 h, hupper⟩
  · rename_i h
    rw [shift_le_shift_iff, not_le] at h
    rw [sub_add_cancel]
    exact ⟨hlower, h⟩

theorem floorLog_eq {num den : Nat} {k : Int} (hden : 0 < den)
    (hlow : (den : ℚ) * 2 ^ k ≤ num) (hhigh : (num : ℚ) < den * 2 ^ (k + 1)) :
    floorLog num den = k := by
  have hden' : (0 : ℚ) < den := by exact_mod_cast hden
  have hnum : 0 < num := by
    have hpos : (0 : ℚ) < num := lt_of_lt_of_le (mul_pos hden' (two_zpow_pos k)) hlow
    exact_mod_cast hpos
  obtain ⟨hlow', hhigh'⟩ := floorLog_spec hnum hden
  have hle : floorLog num den < k + 1 := by
    have := (mul_lt_mul_iff_right₀ hden').1 (lt_of_le_of_lt hlow' hhigh)
    exact (zpow_lt_zpow_iff_right₀ (by norm_num)).1 this
  have hge : k < floorLog num den + 1 := by
    have := (mul_lt_mul_iff_right₀ hden').1 (lt_of_le_of_lt hlow hhigh')
    exact (zpow_lt_zpow_iff_right₀ (by norm_num)).1 this
  omega

/-! ## Significands -/

theorem roundHalfEven_mul (m : Nat) {den : Nat} (hden : 0 < den) :
    roundHalfEven (m * den) den = m := by
  unfold roundHalfEven
  rw [Nat.mul_div_cancel m hden, Nat.mul_mod_left]
  simp [hden]

/-- The fields of a code, put together again. -/
theorem code_eq {code : Nat} (h : 0 < code) :
    (scale code + 1074).toNat * leadingBit + significand code = code := by
  unfold scale significand leadingBit
  split <;> omega

theorem scale_ge (code : Nat) : -1074 ≤ scale code := by
  unfold scale
  omega

theorem significand_lt (code : Nat) : significand code < 2 ^ 53 := by
  unfold significand leadingBit
  split <;> omega

/-- A code with a small significand has the least scale. -/
theorem scale_of_significand_lt {code : Nat} (h : significand code < 2 ^ 52) :
    scale code = -1074 := by
  unfold significand leadingBit at h
  unfold scale leadingBit
  split at h <;> omega

theorem significand_pos {code : Nat} (h : 0 < code) : 0 < significand code := by
  unfold significand leadingBit
  split <;> omega

/-! ## Rounding -/

/-- The scale of a code, from the logarithm of its magnitude. -/
theorem max_floorLog_eq {num den code : Nat} (hden : 0 < den) (hcode : 0 < code)
    (h : (num : ℚ) = significand code * 2 ^ scale code * den) :
    max (floorLog num den - 52) (-1074) = scale code := by
  have hden' : (0 : ℚ) < den := by exact_mod_cast hden
  have hunit : (0 : ℚ) < 2 ^ scale code * den := mul_pos (two_zpow_pos _) hden'
  rw [mul_assoc] at h
  have hbelow (k : Nat) (hk : significand code < 2 ^ k) :
      (num : ℚ) < den * 2 ^ (scale code + k) := by
    have hm : (significand code : ℚ) < 2 ^ k := by exact_mod_cast hk
    calc (num : ℚ) = significand code * (2 ^ scale code * den) := h
      _ < 2 ^ k * (2 ^ scale code * den) := mul_lt_mul_of_pos_right hm hunit
      _ = den * 2 ^ (scale code + k) := by rw [zpow_add₀ (by norm_num), zpow_natCast]; ring
  by_cases hm : significand code < 2 ^ 52
  · have hnum : 0 < num := by
      have hpos : (0 : ℚ) < significand code := by exact_mod_cast significand_pos hcode
      have hpos : (0 : ℚ) < num := h ▸ mul_pos hpos hunit
      exact_mod_cast hpos
    have hlow := (floorLog_spec hnum hden).1
    have hlt := (mul_lt_mul_iff_right₀ hden').1 (lt_of_le_of_lt hlow (hbelow 52 hm))
    have hlog := (zpow_lt_zpow_iff_right₀ (by norm_num)).1 hlt
    have hscale := scale_of_significand_lt hm
    omega
  · have hlow : (den : ℚ) * 2 ^ (scale code + 52) ≤ num := by
      have hm : (2 : ℚ) ^ 52 ≤ significand code := by exact_mod_cast Nat.le_of_not_lt hm
      calc (den : ℚ) * 2 ^ (scale code + 52) = 2 ^ 52 * (2 ^ scale code * den) := by
            rw [zpow_add₀ (by norm_num)]; norm_num; ring
        _ ≤ significand code * (2 ^ scale code * den) :=
            mul_le_mul_of_nonneg_right hm hunit.le
        _ = num := h.symm
    have hhigh : (num : ℚ) < den * 2 ^ (scale code + 52 + 1) := by
      have := hbelow 53 (significand_lt code)
      rwa [add_assoc]
    have hlog := floorLog_eq hden hlow hhigh
    have hscale := scale_ge code
    omega

/-- A quotient that is the magnitude of a code has this code. -/
theorem codeOfRatio_eq {num den code : Nat} (hden : 0 < den)
    (h : (num : ℚ) = significand code * 2 ^ scale code * den) : codeOfRatio num den = code := by
  by_cases hcode : code = 0
  · have hnum : num = 0 := by
      have hzero : significand code = 0 := by rw [hcode]; rfl
      rw [hzero, Nat.cast_zero, zero_mul, zero_mul] at h
      exact_mod_cast h
    rw [codeOfRatio, if_pos hnum, hcode]
  · have hpos : 0 < code := Nat.pos_of_ne_zero hcode
    have hden' : (0 : ℚ) < den := by exact_mod_cast hden
    have hnum : num ≠ 0 := by
      have hm : (0 : ℚ) < significand code := by exact_mod_cast significand_pos hpos
      have hnum : (0 : ℚ) < num := h ▸ mul_pos (mul_pos hm (two_zpow_pos _)) hden'
      exact_mod_cast hnum.ne'
    have hshift : num <<< (-scale code).toNat =
        significand code * den <<< (scale code).toNat := by
      rw [← shift_eq_shift (a := significand code * den), Nat.shiftLeft_eq, Nat.shiftLeft_eq,
        Nat.mul_assoc]
      push_cast
      rw [h]
      ring
    have hden_pos : 0 < den <<< (scale code).toNat := by
      rw [Nat.shiftLeft_eq]
      positivity
    rw [codeOfRatio, if_neg hnum]
    simp only []
    rw [max_floorLog_eq hden hpos h, hshift, roundHalfEven_mul _ hden_pos, code_eq hpos]

end DotLang.Binary64

namespace DotLang.Decimal

open Binary64

/-- The exact decimal value of a code reads as this code. -/
theorem readsAs_ofCode (code : Nat) : (ofCode code).ReadsAs code := by
  unfold ofCode
  simp only []
  split
  · rename_i hscale
    obtain ⟨k, hk⟩ := Int.eq_ofNat_of_zero_le hscale
    refine codeOfRatio_eq (Nat.pow_pos (by decide)) ?_
    rw [hk]
    simp [tenTo, Nat.shiftLeft_eq]
  · rename_i hscale
    obtain ⟨k, hk⟩ : ∃ k : Nat, scale code = -(k : Int) := ⟨(-scale code).toNat, by omega⟩
    have hpow : (significand code : ℚ) * 5 ^ k = significand code * (2 ^ k)⁻¹ * 10 ^ k := by
      have hten : (10 : ℚ) ^ k = 2 ^ k * 5 ^ k := by rw [← mul_pow]; norm_num
      have htwo : (2 : ℚ) ^ k ≠ 0 := by positivity
      rw [hten, mul_assoc, ← mul_assoc _ _ ((5 : ℚ) ^ k), inv_mul_cancel₀ htwo, one_mul]
    refine codeOfRatio_eq (Nat.pow_pos (by decide)) ?_
    rw [hk]
    simpa [tenTo] using hpow

end DotLang.Decimal
