import DotLang.Decimal.Layout
import DotLang.Proofs.DecimalValue
import DotLang.Proofs.Spelling

/-!
# Reading the text of a number

The JSON text of a finite number is read as this number: `Decimal.ofText` takes the digits, the
point and the exponent of a text without a sign as a decimal. So two finite numbers with the same
text are the same number.

* `Decimal.ofText`: what a text without a sign stands for.
* `Binary64.json_eq`: the text of a finite number is a sign and a text that reads as its code.
* `Binary64.same_of_json_eq`: numbers with the same text are the same.
-/

namespace DotLang

/-! ## Reading a text -/

namespace Decimal

/-- The number behind the letter of an exponent part. -/
def exponentOfText : List Char → Int
  | 'e' :: '-' :: digits => -(Numeral.ofDigits digits : Int)
  | 'e' :: _ :: digits => Numeral.ofDigits digits
  | _ => 0

/-- The decimal that a text without a sign stands for: digits, a point with more digits, and an
exponent part, the last two of which may be left out. -/
def ofText (text : List Char) : Decimal :=
  let mantissa := text.takeWhile (· ≠ 'e')
  let fraction := (mantissa.dropWhile (· ≠ '.')).drop 1
  ⟨Numeral.ofDigits (mantissa.takeWhile (· ≠ '.') ++ fraction),
    exponentOfText (text.dropWhile (· ≠ 'e')) - fraction.length⟩

example : ofText ['1', '.', '2', '5', 'e', '-', '7'] = ⟨125, -9⟩ := by decide

/-- Only digits. -/
def Digits (text : List Char) : Prop := ∀ c ∈ text, c.isDigit = true

theorem digits_digitChars (d : Decimal) : Digits d.digitChars :=
  fun _ hc => Nat.isDigit_of_mem_toDigits (by decide) (by decide) hc

theorem digits_replicate (n : Nat) : Digits (List.replicate n '0') := by
  intro c hc
  rw [List.eq_of_mem_replicate hc]
  rfl

theorem Digits.append {text more : List Char} (h : Digits text) (hmore : Digits more) :
    Digits (text ++ more) := List.forall_mem_append.2 ⟨h, hmore⟩

theorem Digits.ne {text : List Char} (h : Digits text) {c : Char} (hc : c.isDigit = false) :
    ∀ d ∈ text, d ≠ c := by
  rintro d hd rfl
  rw [h d hd] at hc
  exact nomatch hc

variable {whole fraction ending : List Char}

/-- A text with a point. -/
theorem ofText_point (hwhole : Digits whole) (hfraction : Digits fraction)
    (hending : ∀ c ∈ ending.head?, c = 'e') :
    ofText (whole ++ '.' :: fraction ++ ending) =
      ⟨Numeral.ofDigits (whole ++ fraction), exponentOfText ending - fraction.length⟩ := by
  have hmantissa : ∀ c ∈ whole ++ '.' :: fraction, decide (c ≠ 'e') = true := by
    intro c hc
    rcases List.mem_append.1 hc with hc | hc
    · exact decide_eq_true (hwhole.ne rfl c hc)
    · rcases List.mem_cons.1 hc with rfl | hc
      · rfl
      · exact decide_eq_true (hfraction.ne rfl c hc)
  have hstop : ∀ c ∈ ending.head?, decide (c ≠ 'e') = false := by
    intro c hc
    simp [hending c hc]
  have hpoint : ∀ c ∈ whole, decide (c ≠ '.') = true :=
    fun c hc => decide_eq_true (hwhole.ne rfl c hc)
  unfold ofText
  simp only []
  rw [takeWhile_append_of_head hmantissa hstop, dropWhile_append_of_head hmantissa hstop,
    takeWhile_append_of_head hpoint (by simp), dropWhile_append_of_head hpoint (by simp),
    List.drop_one, List.tail_cons]

/-- A text without a point. -/
theorem ofText_whole (hwhole : Digits whole) (hending : ∀ c ∈ ending.head?, c = 'e') :
    ofText (whole ++ ending) = ⟨Numeral.ofDigits whole, exponentOfText ending⟩ := by
  have hmantissa : ∀ c ∈ whole, decide (c ≠ 'e') = true :=
    fun c hc => decide_eq_true (hwhole.ne rfl c hc)
  have hstop : ∀ c ∈ ending.head?, decide (c ≠ 'e') = false := by
    intro c hc
    simp [hending c hc]
  have hpoint : ∀ c ∈ whole, decide (c ≠ '.') = true :=
    fun c hc => decide_eq_true (hwhole.ne rfl c hc)
  have htake := @takeWhile_append_of_head _ _ [] hpoint nofun
  have hdrop := @dropWhile_append_of_head _ _ [] hpoint nofun
  rw [List.append_nil] at htake hdrop
  unfold ofText
  simp only []
  rw [takeWhile_append_of_head hmantissa hstop, dropWhile_append_of_head hmantissa hstop,
    htake, hdrop]
  simp

/-! ## Writing a text -/

theorem ofDigits_zeros_append (n : Nat) (d : Decimal) :
    Numeral.ofDigits (List.replicate n '0' ++ d.digitChars) = d.digits := by
  have hzeros : Nat.ofDigitChars 10 (List.replicate n '0' ++ d.digitChars) 0 = d.digits := by
    rw [Nat.ofDigitChars_append, Nat.ofDigitChars_replicate_zero, Nat.mul_zero]
    exact Nat.ofDigitChars_ten_toDigits
  exact hzeros

theorem ofDigits_append_zeros (n : Nat) (d : Decimal) :
    Numeral.ofDigits (d.digitChars ++ List.replicate n '0') = 10 ^ n * d.digits := by
  have hzeros : Nat.ofDigitChars 10 (d.digitChars ++ List.replicate n '0') 0 =
      10 ^ n * d.digits := by
    rw [Nat.ofDigitChars_append, Nat.ofDigitChars_replicate_zero]
    exact congrArg _ Nat.ofDigitChars_ten_toDigits
  exact hzeros

theorem ofDigits_digitChars (d : Decimal) : Numeral.ofDigits d.digitChars = d.digits :=
  ofDigits_zeros_append 0 d

theorem digitChars_ne_nil (d : Decimal) : d.digitChars ≠ [] := Nat.toDigits_ne_nil

theorem length_digitChars_pos (d : Decimal) : 0 < d.digitChars.length :=
  List.length_pos_iff.2 d.digitChars_ne_nil

/-- What can stand behind the digits of a mantissa: an exponent part, or nothing. -/
structure ExponentPart (ending : List Char) : Prop where
  head : ∀ c ∈ ending.head?, c = 'e'
  chars : ∀ c ∈ ending, c.isDigit = true ∨ c ∈ ['.', 'e', '+', '-']

theorem ExponentPart.nil : ExponentPart [] := ⟨nofun, nofun⟩

/-- A text that begins with a digit and is read back in full as the value of a decimal. -/
structure WrittenAs (d : Decimal) (text : List Char) : Prop where
  value_eq : (ofText text).value = d.value
  head : ∃ c rest, text = c :: rest ∧ c.isDigit = true
  chars : ∀ c ∈ text, c.isDigit = true ∨ c ∈ ['.', 'e', '+', '-']

theorem Digits.exists_head {more : List Char} (h : Digits whole) (hne : whole ≠ []) :
    ∃ c rest, whole ++ more = c :: rest ∧ c.isDigit = true := by
  obtain ⟨c, rest, rfl⟩ := List.exists_cons_of_ne_nil hne
  exact ⟨c, rest ++ more, rfl, h c List.mem_cons_self⟩

theorem WrittenAs.point {d : Decimal} (hwhole : Digits whole) (hne : whole ≠ [])
    (hfraction : Digits fraction) (hending : ExponentPart ending)
    (hvalue : value ⟨Numeral.ofDigits (whole ++ fraction),
      exponentOfText ending - fraction.length⟩ = d.value) :
    d.WrittenAs (whole ++ '.' :: fraction ++ ending) := by
  refine ⟨?_, ?_, ?_⟩
  · rw [ofText_point hwhole hfraction hending.head, hvalue]
  · rw [List.append_assoc]
    exact hwhole.exists_head hne
  · intro c hc
    rw [List.append_assoc, List.cons_append, List.mem_append, List.mem_cons, List.mem_append] at hc
    rcases hc with hc | rfl | hc | hc
    · exact .inl (hwhole c hc)
    · exact .inr (by decide)
    · exact .inl (hfraction c hc)
    · exact hending.chars c hc

theorem WrittenAs.noPoint {d : Decimal} (hwhole : Digits whole) (hne : whole ≠ [])
    (hending : ExponentPart ending)
    (hvalue : value ⟨Numeral.ofDigits whole, exponentOfText ending⟩ = d.value) :
    d.WrittenAs (whole ++ ending) := by
  refine ⟨?_, hwhole.exists_head hne, ?_⟩
  · rw [ofText_whole hwhole hending.head, hvalue]
  · intro c hc
    rcases List.mem_append.1 hc with hc | hc
    · exact .inl (hwhole c hc)
    · exact hending.chars c hc

theorem exponentOfText_nil : exponentOfText [] = 0 := rfl

theorem value_mk {d : Decimal} {e : Int} (h : e = d.exponent) :
    value ⟨d.digits, e⟩ = d.value := by
  rw [h]

theorem writtenAs_positional (d : Decimal) : d.WrittenAs (d.positional ".0").toList := by
  have hdigits := d.digits_digitChars
  have hpos := d.length_digitChars_pos
  unfold positional
  simp only []
  split
  · rename_i hexponent
    obtain ⟨k, hk⟩ := Int.eq_ofNat_of_zero_le hexponent
    have hvalue : value ⟨Numeral.ofDigits (d.digitChars ++ List.replicate k '0' ++ ['0']),
        exponentOfText [] - (['0'] : List Char).length⟩ = d.value := by
      rw [List.append_assoc, ← List.replicate_succ', ofDigits_append_zeros, value, value, hk]
      simp [exponentOfText]
      ring
    have hwritten := WrittenAs.point (hdigits.append (digits_replicate k))
      (by simp [d.digitChars_ne_nil]) (digits_replicate 1) .nil hvalue
    simpa [hk] using hwritten
  · rename_i hexponent
    obtain ⟨places, hplaces⟩ : ∃ k : Nat, d.exponent = -(k : Int) :=
      ⟨(-d.exponent).toNat, by omega⟩
    have hnat : (-d.exponent).toNat = places := by omega
    rw [hnat]
    split
    · rename_i hlt
      generalize hcut : d.digitChars.length - places = cut
      have hvalue : value ⟨Numeral.ofDigits (d.digitChars.take cut ++ d.digitChars.drop cut),
          exponentOfText [] - (d.digitChars.drop cut).length⟩ = d.value := by
        rw [List.take_append_drop, ofDigits_digitChars, List.length_drop]
        refine value_mk ?_
        rw [exponentOfText_nil]
        omega
      have hwritten := WrittenAs.point (fun c hc => hdigits c (List.mem_of_mem_take hc))
        (by simp [d.digitChars_ne_nil]; omega) (fun c hc => hdigits c (List.mem_of_mem_drop hc))
        .nil hvalue
      simpa using hwritten
    · rename_i hle
      generalize hzeros : places - d.digitChars.length = zeros
      have hvalue : value ⟨Numeral.ofDigits (['0'] ++ (List.replicate zeros '0' ++ d.digitChars)),
          exponentOfText [] - (List.replicate zeros '0' ++ d.digitChars).length⟩ = d.value := by
        have hall : ['0'] ++ (List.replicate zeros '0' ++ d.digitChars) =
            List.replicate (zeros + 1) '0' ++ d.digitChars := rfl
        rw [hall, ofDigits_zeros_append, List.length_append, List.length_replicate]
        refine value_mk ?_
        rw [exponentOfText_nil]
        omega
      have hwritten := WrittenAs.point (digits_replicate 1) (List.cons_ne_nil _ _)
        ((digits_replicate zeros).append hdigits) .nil hvalue
      simpa using hwritten

theorem ExponentPart.signed {sign : Char} {digits : List Char} (hsign : sign ∈ ['+', '-'])
    (hdigits : Digits digits) : ExponentPart ('e' :: sign :: digits) := by
  refine ⟨by simp, fun c hc => ?_⟩
  rw [List.mem_cons, List.mem_cons] at hc
  rcases hc with rfl | rfl | hc
  · exact .inr (by decide)
  · exact .inr (List.mem_cons_of_mem _ (List.mem_cons_of_mem _ hsign))
  · exact .inl (hdigits c hc)

/-- The exponent part of a text in scientific form. -/
theorem exponentPart_scientific (e : Int) :
    ExponentPart ('e' :: (if e < 0 then '-' else '+') :: Nat.toDigits 10 e.natAbs) ∧
      exponentOfText ('e' :: (if e < 0 then '-' else '+') :: Nat.toDigits 10 e.natAbs) = e := by
  have hread : Numeral.ofDigits (Nat.toDigits 10 e.natAbs) = e.natAbs :=
    Nat.ofDigitChars_ten_toDigits
  have hdigits : Digits (Nat.toDigits 10 e.natAbs) :=
    fun _ hc => Nat.isDigit_of_mem_toDigits (by decide) (by decide) hc
  refine ⟨.signed (by split <;> decide) hdigits, ?_⟩
  split
  · rw [exponentOfText, hread]
    omega
  · rw [exponentOfText, hread]
    · omega
    · exact nofun

theorem writtenAs_scientific (d : Decimal) : d.WrittenAs d.scientific.toList := by
  obtain ⟨hpart, hexponent⟩ := exponentPart_scientific d.leadingExponent
  have hdigits := d.digits_digitChars
  have hpos := d.length_digitChars_pos
  have htext : d.scientific.toList =
      (if d.digitChars.length ≤ 1 then d.digitChars
        else d.digitChars.take 1 ++ '.' :: d.digitChars.drop 1) ++
      'e' :: (if d.leadingExponent < 0 then '-' else '+') ::
        Nat.toDigits 10 d.leadingExponent.natAbs := by
    unfold scientific
    simp only []
    split <;> split <;> simp
  rw [htext]
  split
  · rename_i hlength
    refine .noPoint hdigits d.digitChars_ne_nil hpart ?_
    rw [hexponent, ofDigits_digitChars]
    refine value_mk ?_
    rw [leadingExponent]
    omega
  · rename_i hlength
    refine .point (fun c hc => hdigits c (List.mem_of_mem_take hc)) ?_
      (fun c hc => hdigits c (List.mem_of_mem_drop hc)) hpart ?_
    · simp [d.digitChars_ne_nil]
    · rw [hexponent, List.take_append_drop, ofDigits_digitChars, List.length_drop]
      refine value_mk ?_
      rw [leadingExponent]
      omega

/-- The text of a code is read back as the code. -/
theorem readsAs_write (code : Nat) :
    ∃ d : Decimal, d.WrittenAs (Layout.json.write code).toList ∧ d.ReadsAs code := by
  refine ⟨shortest Layout.json.tie code, ?_, readsAs_shortest _ code⟩
  unfold Layout.write
  simp only []
  split
  · exact writtenAs_positional _
  · exact writtenAs_scientific _

end Decimal

/-! ## The text of a number -/

namespace Binary64

open Decimal

/-- A whole number is the magnitude of its code. -/
theorem cast_whole? {code n : Nat} (h : whole? code = some n) :
    (n : ℚ) = significand code * 2 ^ scale code := by
  unfold whole? at h
  simp only [] at h
  split at h
  · rename_i hscale
    obtain ⟨k, hk⟩ := Int.eq_ofNat_of_zero_le hscale
    obtain rfl := Option.some.inj h
    rw [hk, Nat.shiftLeft_eq]
    simp
  · rename_i hscale
    split at h
    · rename_i hmod
      obtain rfl := Option.some.inj h
      obtain ⟨k, hk⟩ : ∃ k : Nat, scale code = -(k : Int) := ⟨(-scale code).toNat, by omega⟩
      have hnat : (-scale code).toNat = k := by omega
      rw [hnat, Nat.shiftLeft_eq, Nat.one_mul] at hmod
      have hdiv : (significand code : ℚ) = (significand code / 2 ^ k : Nat) * 2 ^ k := by
        exact_mod_cast (Nat.div_mul_cancel (Nat.dvd_of_mod_eq_zero hmod)).symm
      have hpow : (2 : ℚ) ^ k ≠ 0 := by positivity
      rw [hnat, Nat.shiftRight_eq_div_pow, hk, zpow_neg, zpow_natCast, hdiv, mul_assoc,
        mul_inv_cancel₀ hpow, mul_one]
    · exact nomatch h

theorem readsAs_whole? {code n : Nat} (h : whole? code = some n) :
    Decimal.ReadsAs ⟨n, 0⟩ code := by
  refine codeOfRatio_eq (Decimal.tenTo_pos _) ?_
  rw [← cast_whole? h]
  simp [tenTo]

theorem writtenAs_toString (n : Nat) : Decimal.WrittenAs ⟨n, 0⟩ (toString n).toList := by
  have hdigits : Digits (Nat.toDigits 10 n) := digits_digitChars ⟨n, 0⟩
  have hvalue : value ⟨Numeral.ofDigits (Nat.toDigits 10 n), exponentOfText []⟩ =
      value ⟨n, 0⟩ := congrArg (fun k => value ⟨k, 0⟩) (ofDigits_digitChars ⟨n, 0⟩)
  have hwritten := WrittenAs.noPoint hdigits Nat.toDigits_ne_nil .nil hvalue
  simpa using hwritten

/-- The text of a finite number: a sign, unless it is a zero, and a text that reads as its code. -/
theorem json_eq {x : Binary64} (hx : x.isFinite = true) :
    ∃ (d : Decimal) (text : List Char),
      x.json.toList = (if x.negative && !x.isZero then ['-'] else []) ++ text ∧
      d.WrittenAs text ∧ d.ReadsAs x.code := by
  have hsign : (if x.negative && !x.isZero then "-" else "").toList =
      if x.negative && !x.isZero then ['-'] else [] := by split <;> rfl
  obtain ⟨d, hwritten, hreads⟩ := Decimal.readsAs_write x.code
  unfold json
  simp only [hx, Bool.not_true, Bool.false_eq_true, if_false]
  split
  · rename_i n hwhole
    split
    · refine ⟨_, _, ?_, writtenAs_toString n, readsAs_whole? hwhole⟩
      rw [String.toList_append, hsign]
    · refine ⟨d, _, ?_, hwritten, hreads⟩
      rw [String.toList_append, hsign]
  · refine ⟨d, _, ?_, hwritten, hreads⟩
    rw [String.toList_append, hsign]

/-- Texts that are read as codes and are one text are read as one code. -/
theorem code_eq_of_text {d d' : Decimal} {text : List Char} {code code' : Nat}
    (hd : d.WrittenAs text) (hcode : d.ReadsAs code) (hd' : d'.WrittenAs text)
    (hcode' : d'.ReadsAs code') : code = code' := by
  have hread : d'.ReadsAs code := hcode.of_value_eq (hd'.value_eq.symm.trans hd.value_eq)
  exact Eq.trans (Eq.symm hread) hcode'

theorem not_isNaN_of_isFinite {x : Binary64} (hx : x.isFinite = true) : x.isNaN = false := by
  have hlt : x.code < infinityCode := of_decide_eq_true hx
  exact decide_eq_false (Nat.lt_asymm hlt)

/-- A sign in front of a text that begins with a digit is told apart from none. -/
theorem sign_append_inj {b b' : Bool} {d d' : Decimal} {text text' : List Char}
    (htext : d.WrittenAs text) (htext' : d'.WrittenAs text')
    (h : (if b then ['-'] else []) ++ text = (if b' then ['-'] else []) ++ text') :
    b = b' ∧ text = text' := by
  obtain ⟨c, rest, rfl, hc⟩ := htext.head
  obtain ⟨c', rest', rfl, hc'⟩ := htext'.head
  have hne : c ≠ '-' := by
    rintro rfl
    exact nomatch hc
  have hne' : c' ≠ '-' := by
    rintro rfl
    exact nomatch hc'
  cases b <;> cases b'
  · exact ⟨rfl, h⟩
  · exact absurd (List.cons.inj h).1 hne
  · exact absurd (List.cons.inj h).1.symm hne'
  · exact ⟨rfl, (List.cons.inj h).2⟩

/-- Finite numbers with the same text are the same number. -/
theorem same_of_json_eq {x y : Binary64} (hx : x.isFinite = true) (hy : y.isFinite = true)
    (h : x.json = y.json) : x.same y = true := by
  obtain ⟨d, text, hxtext, hwritten, hreads⟩ := json_eq hx
  obtain ⟨d', text', hytext, hwritten', hreads'⟩ := json_eq hy
  rw [h, hytext] at hxtext
  obtain ⟨hsign, rfl⟩ := sign_append_inj hwritten' hwritten hxtext
  have hcode : x.code = y.code := code_eq_of_text hwritten hreads hwritten' hreads'
  rw [same, not_isNaN_of_isFinite hx, not_isNaN_of_isFinite hy]
  obtain ⟨sx, c, hc⟩ := x
  obtain ⟨sy, c', hc'⟩ := y
  obtain rfl : c = c' := hcode
  by_cases hzero : c = 0
  · simp [isZero, hzero]
  · have hsigns : sx = sy := by simpa [isZero, hzero] using hsign.symm
    simp [hsigns]

/-- A character of a number in a text. -/
def isTextChar (c : Char) : Bool := c.isDigit || c ∈ ['.', 'e', '+', '-']

/-- The text of a finite number begins with a sign or a digit, and has no other character than
those of numbers. -/
theorem json_chars {x : Binary64} (hx : x.isFinite = true) :
    (∃ c rest, x.json.toList = c :: rest ∧ (c = '-' ∨ c.isDigit = true)) ∧
      ∀ c ∈ x.json.toList, isTextChar c = true := by
  obtain ⟨d, text, htext, hwritten, -⟩ := json_eq hx
  have hchars : ∀ c ∈ text, isTextChar c = true := by
    intro c hc
    simpa [isTextChar] using hwritten.chars c hc
  obtain ⟨c, rest, hhead, hc⟩ := hwritten.head
  rw [htext]
  split
  · exact ⟨⟨'-', text, rfl, .inl rfl⟩, List.forall_mem_cons.2 ⟨by decide, hchars⟩⟩
  · exact ⟨⟨c, rest, hhead, .inr hc⟩, hchars⟩

end Binary64

end DotLang
