import DotLang.Proofs.Rounding
import Mathlib.Tactic.Linarith

/-!
# The nearest number

The code of a quotient is the one whose magnitude is nearest to the quotient, and of two that are
equally near it is the even one. There is only one such code. All magnitudes that are not multiples
of the unit in which a quotient is rounded lie below the quotient, in front of another multiple, so
only multiples can be nearest.

* `magnitude_strictMono`: codes are ordered like their magnitudes.
* `nearest_codeOfRatio`, `Nearest.eq`: the code of a quotient is nearest to it, and no other code.
* `Nearest.lt_infinityCode_iff`: which quotients are not too large.
-/

namespace DotLang.Binary64

/-- The magnitude that a code stands for. Codes that are too large go on as if exponents had no
end. -/
def magnitude (code : Nat) : ℚ := significand code * 2 ^ scale code

/-- No code has a magnitude nearer to `q`, and of two codes that are equally near this is the even
one. -/
structure Nearest (q : ℚ) (code : Nat) : Prop where
  le : ∀ other, |q - magnitude code| ≤ |q - magnitude other|
  even : ∀ other, other ≠ code → |q - magnitude other| = |q - magnitude code| → code % 2 = 0

/-! ## Magnitudes -/

theorem fields_of_lt {field m : Nat} (hm : m < 2 ^ 53) (h : field = 0 ∨ 2 ^ 52 ≤ m) :
    significand (field * leadingBit + m) = m ∧
      scale (field * leadingBit + m) = (field : Int) - 1074 := by
  unfold significand scale leadingBit
  constructor
  · split <;> omega
  · omega

/-- A significand that is one too large is carried into the exponent, which does not change the
magnitude. -/
theorem magnitude_field {field m : Nat} (hm : m ≤ 2 ^ 53) (h : field = 0 ∨ 2 ^ 52 ≤ m) :
    magnitude (field * leadingBit + m) = m * 2 ^ ((field : Int) - 1074) := by
  rcases Nat.lt_or_eq_of_le hm with hm | rfl
  · obtain ⟨hsignificand, hscale⟩ := fields_of_lt hm h
    rw [magnitude, hsignificand, hscale]
  · have hcarry : field * leadingBit + 2 ^ 53 = (field + 1) * leadingBit + 2 ^ 52 := by
      unfold leadingBit
      omega
    obtain ⟨hsignificand, hscale⟩ :=
      @fields_of_lt (field + 1) (2 ^ 52) (by decide) (.inr (le_refl _))
    have hexponent : ((field + 1 : Nat) : Int) - 1074 = (field : Int) - 1074 + 1 := by omega
    rw [hcarry, magnitude, hsignificand, hscale, hexponent, zpow_add_one₀ (by norm_num)]
    push_cast
    ring

theorem exists_fields (code : Nat) :
    ∃ field m, code = field * leadingBit + m ∧ m < 2 ^ 53 ∧ (field = 0 ∨ 2 ^ 52 ≤ m) := by
  by_cases hcode : code < leadingBit
  · exact ⟨0, code, by omega, by unfold leadingBit at hcode; omega, .inl rfl⟩
  · refine ⟨code / leadingBit - 1, leadingBit + code % leadingBit, ?_, ?_, ?_⟩ <;>
      unfold leadingBit at * <;> omega

theorem magnitude_succ (code : Nat) :
    magnitude (code + 1) = magnitude code + 2 ^ scale code := by
  obtain ⟨field, m, rfl, hm, h⟩ := exists_fields code
  rw [(fields_of_lt hm h).2, Nat.add_assoc, magnitude_field hm.le h,
    magnitude_field (Nat.succ_le_of_lt hm) (h.imp id fun h => h.trans (Nat.le_succ m))]
  push_cast
  ring

/-- Codes are ordered like their magnitudes. -/
theorem magnitude_strictMono : StrictMono magnitude :=
  strictMono_nat_of_lt_succ fun code => by
    rw [magnitude_succ]
    exact lt_add_of_pos_right _ (two_zpow_pos _)

/-- A magnitude is a multiple of each unit that is not above its own. -/
theorem exists_multiple {code : Nat} {e : Int} (h : e ≤ scale code) :
    ∃ j : Nat, magnitude code = j * 2 ^ e := by
  refine ⟨significand code * 2 ^ (scale code - e).toNat, ?_⟩
  have hexponent : scale code = (scale code - e).toNat + e := by omega
  rw [magnitude]
  conv => lhs; rw [hexponent, zpow_add₀ (by norm_num), zpow_natCast]
  push_cast
  ring

/-- A magnitude with a smaller unit is below all that are rounded in the unit `2 ^ e`. -/
theorem magnitude_lt {code : Nat} {e : Int} (h : scale code < e) :
    magnitude code < 2 ^ 52 * 2 ^ e := by
  have hm : (significand code : ℚ) < 2 ^ 53 := by exact_mod_cast significand_lt code
  have hpow : (2 : ℚ) ^ scale code ≤ 2 ^ (e - 1) :=
    zpow_le_zpow_right₀ (by norm_num) (by omega)
  calc magnitude code < 2 ^ 53 * 2 ^ scale code := mul_lt_mul_of_pos_right hm (two_zpow_pos _)
    _ ≤ 2 ^ 53 * 2 ^ (e - 1) := mul_le_mul_of_nonneg_left hpow (by norm_num)
    _ = 2 ^ 52 * 2 ^ e := by rw [zpow_sub_one₀ (by norm_num)]; ring

/-! ## Multiples of a unit -/

section Multiples

variable {q u : ℚ} {m j : Nat}

/-- Only one multiple of a unit is nearer than half a unit. -/
theorem half_le_of_ne (hu : 0 < u) (hm : |q - m * u| ≤ u / 2) (hj : j ≠ m) :
    u / 2 ≤ |q - j * u| := by
  have hdist : u ≤ |(m : ℚ) * u - j * u| := by
    have hone : (1 : ℚ) ≤ |(m : ℚ) - j| := by
      have : (1 : Int) ≤ |(m : Int) - j| := Int.one_le_abs (by omega)
      exact_mod_cast this
    rw [← sub_mul, abs_mul, abs_of_pos hu]
    exact le_mul_of_one_le_left hu.le hone
  have htriangle := abs_sub_le ((m : ℚ) * u) q (j * u)
  rw [abs_sub_comm ((m : ℚ) * u) q] at htriangle
  linarith

/-- A code is nearest if its magnitude is the nearest multiple of a unit, and if the quotient is
not below the magnitudes that are no multiples. -/
theorem nearest_of_multiple {code : Nat} {e : Int} (hcode : magnitude code = m * 2 ^ e)
    (hm : |q - m * 2 ^ e| ≤ 2 ^ e / 2) (htie : |q - m * 2 ^ e| = 2 ^ e / 2 → code % 2 = 0)
    (hlow : -1074 < e → 2 ^ 52 * 2 ^ e ≤ q) : Nearest q code := by
  have hu := two_zpow_pos e
  have hmultiple (j : Nat) (hj : j ≠ m) : |q - m * 2 ^ e| ≤ |q - j * 2 ^ e| :=
    hm.trans (half_le_of_ne hu hm hj)
  have hbelow {other : Nat} (h : scale other < e) :
      |q - magnitude code| < |q - magnitude other| := by
    have hother := magnitude_lt h
    have hq := hlow (lt_of_le_of_lt (scale_ge other) h)
    have hnear : |q - m * 2 ^ e| ≤ |q - (2 ^ 52 : Nat) * 2 ^ e| := by
      by_cases hm : 2 ^ 52 = m
      · rw [hm]
      · exact hmultiple _ hm
    rw [Nat.cast_pow, Nat.cast_ofNat, abs_of_nonneg (sub_nonneg.2 hq)] at hnear
    rw [hcode, abs_of_nonneg (sub_nonneg.2 (hother.le.trans hq))]
    linarith
  refine ⟨fun other => ?_, fun other hne heq => ?_⟩
  · by_cases hscale : e ≤ scale other
    · obtain ⟨j, hj⟩ := exists_multiple hscale
      rw [hcode, hj]
      by_cases hjm : j = m
      · rw [hjm]
      · exact hmultiple j hjm
    · exact (hbelow (not_le.1 hscale)).le
  · by_cases hscale : e ≤ scale other
    · obtain ⟨j, hj⟩ := exists_multiple hscale
      have hjm : j ≠ m := by
        rintro rfl
        exact hne (magnitude_strictMono.injective (hj.trans hcode.symm))
      rw [hcode, hj] at heq
      exact htie (le_antisymm hm (heq ▸ half_le_of_ne hu hm hjm))
    · exact absurd heq (hbelow (not_le.1 hscale)).ne'

end Multiples

/-! ## The code of a quotient -/

/-- If the quotient is in the middle of two whole numbers the even one is taken. -/
theorem roundHalfEven_tie {num den : Nat} (hden : 0 < den)
    (h : 2 * num = 2 * (roundHalfEven num den * den) + den ∨
      2 * (roundHalfEven num den * den) = 2 * num + den) : roundHalfEven num den % 2 = 0 := by
  have hdiv := Nat.div_add_mod num den
  have hr := Nat.mod_lt num hden
  revert h
  unfold roundHalfEven
  simp only []
  generalize num / den = q at *
  generalize num % den = r at *
  rw [Nat.mul_comm] at hdiv
  split
  · omega
  · split
    · rw [Nat.add_mul]; omega
    · omega

/-- The nearest whole number is not further away than one half. -/
theorem roundHalfEven_spec (num : Nat) {den : Nat} (hden : 0 < den) :
    |(num : ℚ) / den - roundHalfEven num den| ≤ 1 / 2 ∧
      (|(num : ℚ) / den - roundHalfEven num den| = 1 / 2 → roundHalfEven num den % 2 = 0) := by
  obtain ⟨hlow, hhigh⟩ := roundHalfEven_near num hden
  have htie := @roundHalfEven_tie num den hden
  have hpos : (0 : ℚ) < den := by exact_mod_cast hden
  obtain ⟨t, hquotient⟩ : ∃ t : ℚ, (num : ℚ) / den = t := ⟨_, rfl⟩
  have hnum : (num : ℚ) = t * den := (div_eq_iff hpos.ne').1 hquotient
  rw [hquotient]
  generalize roundHalfEven num den = m at *
  rw [← Nat.cast_le (α := ℚ)] at hlow hhigh
  rw [← Nat.cast_inj (R := ℚ), ← Nat.cast_inj (R := ℚ)] at htie
  push_cast [hnum] at hlow hhigh htie
  constructor
  · rw [abs_le]
    constructor
    · refine le_of_mul_le_mul_right ?_ hpos
      linarith
    · refine le_of_mul_le_mul_right ?_ hpos
      linarith
  · intro h
    rcases (abs_eq (by norm_num)).1 h with h | h
    · obtain rfl : t = m + 1 / 2 := by linarith
      exact htie (.inl (by ring))
    · obtain rfl : t = m - 1 / 2 := by linarith
      exact htie (.inr (by ring))

/-- A quotient is rounded in the unit `2 ^ e` to the nearest multiple, in the middle of two to the
even one. -/
theorem round_near (num : Nat) {den : Nat} (hden : 0 < den) (e : Int) :
    let m := roundHalfEven (num <<< (-e).toNat) (den <<< e.toNat)
    |(num : ℚ) / den - m * 2 ^ e| ≤ 2 ^ e / 2 ∧
      (|(num : ℚ) / den - m * 2 ^ e| = 2 ^ e / 2 → m % 2 = 0) := by
  intro m
  have hu := two_zpow_pos e
  have hshift : 0 < den <<< e.toNat := by
    rw [Nat.shiftLeft_eq]
    positivity
  have hscaled : ((num <<< (-e).toNat : Nat) : ℚ) / (den <<< e.toNat : Nat) * 2 ^ e =
      num / den := by
    have hpos : (0 : ℚ) < den := by exact_mod_cast hden
    have hpow : (0 : ℚ) < 2 ^ (-e).toNat := by positivity
    rw [Nat.shiftLeft_eq, Nat.shiftLeft_eq]
    push_cast
    rw [two_pow_toNat e, div_mul_eq_mul_div, div_eq_div_iff (by positivity) hpos.ne']
    ring
  have hdist : |(num : ℚ) / den - m * 2 ^ e| =
      |((num <<< (-e).toNat : Nat) : ℚ) / (den <<< e.toNat : Nat) - m| * 2 ^ e := by
    rw [← hscaled, ← sub_mul, abs_mul, abs_of_pos hu]
  obtain ⟨hnear, htie⟩ := roundHalfEven_spec (num <<< (-e).toNat) hshift
  rw [hdist]
  constructor
  · have := mul_le_mul_of_nonneg_right hnear hu.le
    linarith
  · intro h
    refine htie (mul_right_cancel₀ hu.ne' ?_)
    linarith

/-- The code of a quotient is nearest to it. -/
theorem nearest_codeOfRatio (num : Nat) {den : Nat} (hden : 0 < den) :
    Nearest ((num : ℚ) / den) (codeOfRatio num den) := by
  by_cases hnum : num = 0
  · subst hnum
    have hzero : magnitude 0 = 0 := by
      rw [magnitude]
      exact zero_mul _
    rw [codeOfRatio, if_pos rfl, Nat.cast_zero, zero_div]
    refine ⟨fun other => ?_, fun _ _ _ => rfl⟩
    rw [hzero, sub_zero, abs_zero]
    exact abs_nonneg _
  · have hpos : (0 : ℚ) < den := by exact_mod_cast hden
    obtain ⟨hlow, hhigh⟩ := floorLog_spec (Nat.pos_of_ne_zero hnum) hden
    rw [mul_comm, ← le_div_iff₀ hpos] at hlow
    rw [mul_comm, ← div_lt_iff₀ hpos] at hhigh
    obtain ⟨e, he⟩ : ∃ e, max (floorLog num den - 52) (-1074) = e := ⟨_, rfl⟩
    obtain ⟨hnear, htie⟩ := round_near num hden e
    rw [codeOfRatio, if_neg hnum]
    simp only []
    rw [he]
    generalize roundHalfEven (num <<< (-e).toNat) (den <<< e.toNat) = m at *
    generalize (num : ℚ) / den = q at *
    have hu := two_zpow_pos e
    have hunit : ((e + 1074).toNat : Int) - 1074 = e := by omega
    have hq_low (h : -1074 < e) : 2 ^ 52 * 2 ^ e ≤ q := by
      have hlog : floorLog num den = (52 : Nat) + e := by omega
      rwa [hlog, zpow_add₀ (by norm_num), zpow_natCast] at hlow
    have hq_high : q < 2 ^ 53 * 2 ^ e := by
      have hlog : floorLog num den + 1 ≤ (53 : Nat) + e := by omega
      have hpow := lt_of_lt_of_le hhigh (zpow_le_zpow_right₀ (by norm_num) hlog)
      rwa [zpow_add₀ (by norm_num), zpow_natCast] at hpow
    obtain ⟨hnear_low, hnear_high⟩ := abs_le.1 hnear
    have hm_high : m ≤ 2 ^ 53 := by
      by_contra hm
      have hm : (2 ^ 53 + 1 : ℚ) ≤ m := by exact_mod_cast not_le.1 hm
      have := mul_le_mul_of_nonneg_right hm hu.le
      linarith
    have hm_low (h : -1074 < e) : 2 ^ 52 ≤ m := by
      by_contra hm
      have hm : (m : ℚ) + 1 ≤ 2 ^ 52 := by exact_mod_cast not_le.1 hm
      have := mul_le_mul_of_nonneg_right hm hu.le
      have := hq_low h
      linarith
    have hfield : (e + 1074).toNat = 0 ∨ 2 ^ 52 ≤ m := by
      rcases lt_or_ge (-1074) e with h | h
      · exact .inr (hm_low h)
      · exact .inl (by omega)
    refine nearest_of_multiple (m := m) ?_ hnear (fun h => ?_) hq_low
    · rw [magnitude_field hm_high hfield, hunit]
    · have := htie h
      unfold leadingBit
      omega

/-! ## The codes around a quotient -/

/-- What stands between two places equally far away is nearer. -/
theorem abs_sub_lt_of_between {q x y z : ℚ} (h : |q - x| = |q - z|) (hxy : x < y) (hyz : y < z) :
    |q - y| < |q - x| := by
  have hmiddle : q - x = z - q := by
    rcases abs_eq_abs.1 h with h | h <;> linarith
  rw [hmiddle, abs_of_pos (show 0 < z - q by linarith), abs_lt]
  constructor <;> linarith

variable {q : ℚ} {code a b : Nat}

/-- No other code is nearest. -/
theorem Nearest.eq (ha : Nearest q a) (hb : Nearest q b) : a = b := by
  have hdist : |q - magnitude a| = |q - magnitude b| := le_antisymm (ha.le b) (hb.le a)
  have hlt {a b : Nat} (ha : Nearest q a) (hb : Nearest q b)
      (hdist : |q - magnitude a| = |q - magnitude b|) : ¬ a < b := by
    intro hab
    -- both are even, so there is a code between them, and it would be nearer
    have heven_a := ha.even b hab.ne' hdist.symm
    have heven_b := hb.even a hab.ne hdist
    have hnearer := abs_sub_lt_of_between hdist
      (magnitude_strictMono (show a < a + 1 by omega))
      (magnitude_strictMono (show a + 1 < b by omega))
    exact absurd (ha.le (a + 1)) (not_le.2 hnearer)
  rcases Nat.lt_trichotomy a b with h | h | h
  · exact absurd h (hlt ha hb hdist)
  · exact h
  · exact absurd h (hlt hb ha hdist.symm)

/-- Up to an odd code is rounded what is below the middle between it and the next code. -/
theorem Nearest.le_iff (h : Nearest q code) {n : Nat} (hn : n % 2 = 1) :
    code ≤ n ↔ 2 * q < magnitude n + magnitude (n + 1) := by
  have hnext := magnitude_strictMono (Nat.lt_succ_self n)
  constructor
  · intro hcode
    have hmono := magnitude_strictMono.monotone hcode
    by_contra hq
    have hdist := h.le (n + 1)
    rw [abs_of_nonneg (show 0 ≤ q - magnitude code by linarith)] at hdist
    -- only the middle itself is left, and there the even code is taken
    rcases le_abs.1 hdist with hdist | hdist
    · linarith
    · obtain rfl : code = n := magnitude_strictMono.injective (by linarith)
      have hmiddle : |q - magnitude (code + 1)| = |q - magnitude code| := by
        rw [abs_of_nonneg (show 0 ≤ q - magnitude code by linarith), abs_sub_comm,
          abs_of_nonneg (show 0 ≤ magnitude (code + 1) - q by linarith)]
        linarith
      have heven := h.even (code + 1) (Nat.succ_ne_self code) hmiddle
      omega
  · intro hq
    by_contra hcode
    have hmono := magnitude_strictMono.monotone (Nat.succ_le_of_lt (not_le.1 hcode))
    have hdist := h.le n
    rw [abs_sub_comm, abs_of_nonneg (show 0 ≤ magnitude code - q by linarith)] at hdist
    rcases le_abs.1 hdist with hdist | hdist <;> linarith

/-- A quotient is too large from the middle between the largest finite magnitude and the next one
on. -/
theorem Nearest.lt_infinityCode_iff (h : Nearest q code) :
    code < infinityCode ↔ q < 2 ^ 1024 - 2 ^ 970 := by
  obtain ⟨largest, hlargest⟩ : ∃ code, code = 0x7fefffffffffffff := ⟨_, rfl⟩
  have hinfinity : infinityCode = largest + 1 := by rw [hlargest]; rfl
  have hodd : largest % 2 = 1 := by rw [hlargest]
  have hscale : scale largest = (970 : Nat) + 1 := by rw [hlargest]; decide
  have hsignificand : significand largest = 2 ^ 53 - 1 := by rw [hlargest]; decide
  have hpow : (2 : ℚ) ^ 1024 = 2 ^ 54 * 2 ^ 970 := pow_add 2 54 970
  rw [hinfinity, Nat.lt_succ_iff, h.le_iff hodd, magnitude_succ, magnitude, hsignificand, hscale,
    zpow_add_one₀ (by norm_num), zpow_natCast, hpow]
  generalize (2 : ℚ) ^ 970 = u
  constructor
  · intro h
    push_cast at h
    linarith
  · intro h
    push_cast
    linarith

end DotLang.Binary64
