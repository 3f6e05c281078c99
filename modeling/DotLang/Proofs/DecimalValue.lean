import DotLang.Proofs.Rounding

/-!
# What a decimal is read as

A decimal is rounded to a code by its value alone, in whatever way the value is split into digits
and an exponent. So the decimal that is chosen for a code, the shortest one without zeros behind,
reads as this code again.

* `codeOfRatio_congr`: equal quotients have the same code.
* `Decimal.ReadsAs.of_value_eq`: decimals of one value read as the same code.
* `Decimal.readsAs_shortest`: the shortest decimal of a code reads as it.
-/

namespace DotLang.Binary64

/-! ## Quotients -/

theorem roundHalfEven_mul_left {k : Nat} (num den : Nat) (hk : 0 < k) :
    roundHalfEven (k * num) (k * den) = roundHalfEven num den := by
  have hlt (a b : Nat) : k * a < k * b ↔ a < b := Nat.mul_lt_mul_left hk
  unfold roundHalfEven
  simp only [Nat.mul_div_mul_left _ _ hk, Nat.mul_mod_mul_left, Nat.mul_left_comm 2 k, hlt]

theorem roundHalfEven_congr {num den num' den' : Nat} (hden : 0 < den) (hden' : 0 < den')
    (h : num * den' = num' * den) : roundHalfEven num den = roundHalfEven num' den' := by
  calc roundHalfEven num den = roundHalfEven (den' * num) (den' * den) :=
        (roundHalfEven_mul_left num den hden').symm
    _ = roundHalfEven (den * num') (den * den') := by
        rw [Nat.mul_comm den' num, h, Nat.mul_comm num' den, Nat.mul_comm den' den]
    _ = roundHalfEven num' den' := roundHalfEven_mul_left num' den' hden

theorem floorLog_congr {num den num' den' : Nat} (hnum' : 0 < num') (hden : 0 < den)
    (hden' : 0 < den') (h : num * den' = num' * den) : floorLog num den = floorLog num' den' := by
  obtain ⟨hlow, hhigh⟩ := floorLog_spec hnum' hden'
  have hpos : (0 : ℚ) < den := by exact_mod_cast hden
  have hpos' : (0 : ℚ) < den' := by exact_mod_cast hden'
  have hratio : (num : ℚ) * den' = num' * den := by exact_mod_cast h
  refine floorLog_eq hden ?_ ?_
  · refine (mul_le_mul_iff_left₀ hpos').1 ?_
    calc (den : ℚ) * 2 ^ floorLog num' den' * den'
        = den * (den' * 2 ^ floorLog num' den') := by ring
      _ ≤ den * num' := mul_le_mul_of_nonneg_left hlow hpos.le
      _ = num * den' := by rw [hratio]; ring
  · refine (mul_lt_mul_iff_left₀ hpos').1 ?_
    calc (num : ℚ) * den' = den * num' := by rw [hratio]; ring
      _ < den * (den' * 2 ^ (floorLog num' den' + 1)) := mul_lt_mul_of_pos_left hhigh hpos
      _ = den * 2 ^ (floorLog num' den' + 1) * den' := by ring

/-- Equal quotients have the same code. -/
theorem codeOfRatio_congr {num den num' den' : Nat} (hden : 0 < den) (hden' : 0 < den')
    (h : num * den' = num' * den) : codeOfRatio num den = codeOfRatio num' den' := by
  by_cases hnum' : num' = 0
  · subst hnum'
    have hnum : num = 0 := by
      rw [Nat.zero_mul, Nat.mul_eq_zero] at h
      omega
    rw [hnum, codeOfRatio, codeOfRatio, if_pos rfl, if_pos rfl]
  · have hnum : num ≠ 0 := by
      rintro rfl
      rw [Nat.zero_mul, eq_comm, Nat.mul_eq_zero] at h
      omega
    rw [codeOfRatio, codeOfRatio, if_neg hnum, if_neg hnum',
      floorLog_congr (Nat.pos_of_ne_zero hnum') hden hden' h]
    simp only []
    congr 1
    refine roundHalfEven_congr ?_ ?_ ?_
    · rw [Nat.shiftLeft_eq]
      positivity
    · rw [Nat.shiftLeft_eq]
      positivity
    · simp only [Nat.shiftLeft_eq]
      calc _ = num * den' * (2 ^ (-max (floorLog num' den' - 52) (-1074)).toNat *
            2 ^ (max (floorLog num' den' - 52) (-1074)).toNat) := by ring
        _ = _ := by rw [h]; ring

end DotLang.Binary64

namespace DotLang.Decimal

open Binary64

/-! ## Decimals -/

/-- The number that a decimal stands for. -/
def value (d : Decimal) : ℚ := d.digits * 10 ^ d.exponent

/-- The two parts of an exponent. -/
theorem tenTo_toNat (e : Int) : (tenTo e.toNat : ℚ) = 10 ^ e * tenTo (-e).toNat := by
  simp only [tenTo, Nat.pow_eq, Nat.cast_pow, Nat.cast_ofNat]
  rw [← zpow_natCast, ← zpow_natCast, ← zpow_add₀ (by norm_num)]
  congr 1
  omega

theorem tenTo_pos (k : Nat) : 0 < tenTo k := Nat.pow_pos (by decide)

/-- Decimals of one value read as the same code. -/
theorem ReadsAs.of_value_eq {d d' : Decimal} {code : Nat} (h : d.ReadsAs code)
    (hvalue : d'.value = d.value) : d'.ReadsAs code := by
  refine Eq.trans (codeOfRatio_congr (tenTo_pos _) (tenTo_pos _) ?_) h
  rw [← Nat.cast_inj (R := ℚ)]
  push_cast
  rw [tenTo_toNat d.exponent, tenTo_toNat d'.exponent]
  unfold value at hvalue
  generalize (tenTo (-d.exponent).toNat : ℚ) = t
  generalize (tenTo (-d'.exponent).toNat : ℚ) = t'
  calc _ = d'.digits * 10 ^ d'.exponent * (t' * t) := by ring
    _ = _ := by rw [hvalue]; ring

theorem value_trim (d : Decimal) : d.trim.value = d.value := by
  fun_induction trim d with
  | case1 d h => simp [value, h]
  | case2 d hne h ih =>
    rw [ih, value, value]
    have hdigits : (d.digits : ℚ) = (d.digits / 10 : Nat) * 10 := by
      exact_mod_cast (Nat.div_mul_cancel (Nat.dvd_of_mod_eq_zero h)).symm
    rw [hdigits, zpow_add₀ (by norm_num)]
    ring
  | case3 d hne h => rfl

theorem readsAs_of_neighbour? {d e : Decimal} {code drop : Nat} {tie : Tie}
    (h : d.neighbour? code drop tie = some e) : e.ReadsAs code := by
  unfold neighbour? at h
  simp only [] at h
  split at h
  · rename_i hlo
    split at h
    · rename_i hhi
      obtain rfl := Option.some.inj h
      split
      · exact hlo
      · exact hhi
    · obtain rfl := Option.some.inj h
      exact hlo
  · split at h
    · rename_i hhi
      obtain rfl := Option.some.inj h
      exact hhi
    · exact nomatch h

/-- The shortest decimal of a code reads as it. -/
theorem readsAs_shortest (tie : Tie) (code : Nat) : (shortest tie code).ReadsAs code := by
  unfold shortest
  simp only []
  refine ReadsAs.of_value_eq ?_ (value_trim _)
  generalize hfound : List.findSome? _ (List.range 17) = found
  cases found with
  | none => exact readsAs_ofCode code
  | some d =>
    obtain ⟨k, -, hk⟩ := List.exists_of_findSome?_eq_some hfound
    split at hk
    · exact readsAs_of_neighbour? hk
    · obtain rfl := Option.some.inj hk
      exact readsAs_ofCode code

end DotLang.Decimal
