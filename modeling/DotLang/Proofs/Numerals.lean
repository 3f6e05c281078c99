import DotLang.Proofs.DecimalValue
import DotLang.Proofs.LexerCalls
import DotLang.Proofs.Nearest
import Mathlib.Computability.Language

/-!
# Where a numeral ends

In front of a digit, a point, or a minus sign with one of these behind it, a lexer cuts off the
longest numeral, whatever stands behind it, and only then judges it: it needs a digit, and its
value must be finite. Any other minus sign begins an arrow or nothing at all.

* `Numeral.form`, `Numeral.longest_scan`: what is cut off is the longest beginning of this form.
* `Numeral.isValue_iff`: the value of a numeral is the nearest number, and it has no other.
* `Cursor.next_of_opens`, `Cursor.next_arrow`, `Cursor.next_of_alone`: what is read at a numeral,
  at an arrow, and at a minus sign that begins neither.
* `numerals_cut`: all of this for any lexer.
-/

namespace DotLang

open scoped Computability

/-- Of the beginnings of the input that are in `L` the longest is `text`. -/
structure Longest (L : Language Char) (input text : List Char) : Prop where
  mem : text ∈ L
  begins : text <+: input
  length_le : ∀ w ∈ L, w <+: input → w.length ≤ text.length

namespace Numeral

/-! ## The form of a numeral -/

/-- A single digit. -/
def digit : Language Char := {w | ∃ c : Char, c.isDigit = true ∧ w = [c]}

/-- An optional minus sign, digits, and an optional point with more digits. There may be no digit
at all. -/
def form : Language Char := (1 + {['-']}) * digit∗ * (1 + {['.']} * digit∗)

theorem mem_kstar_digit {w : List Char} : w ∈ digit∗ ↔ ∀ c ∈ w, c.isDigit = true := by
  rw [Language.mem_kstar]
  constructor
  · rintro ⟨parts, rfl, hparts⟩ c hc
    obtain ⟨part, hpart, hc⟩ := List.mem_flatten.1 hc
    obtain ⟨d, hd, rfl⟩ := hparts part hpart
    rwa [List.mem_singleton.1 hc]
  · intro hw
    refine ⟨w.map fun c => [c], ?_, fun part hpart => ?_⟩
    · rw [← List.flatMap_def, List.flatMap_singleton']
    · obtain ⟨c, hc, rfl⟩ := List.mem_map.1 hpart
      exact ⟨c, hw c hc, rfl⟩

/-- A text has this form if it is the text of a numeral. -/
theorem mem_form_iff {w : List Char} : w ∈ form ↔ ∃ n : Numeral, n.Digital ∧ n.text = w := by
  constructor
  · rintro ⟨_, ⟨sign, hsign, whole, hwhole, rfl⟩, ending, hending, rfl⟩
    have hwhole := mem_kstar_digit.1 hwhole
    have hsign : ∃ negative : Bool, (if negative then ['-'] else []) = sign := by
      rcases hsign with rfl | rfl
      · exact ⟨false, rfl⟩
      · exact ⟨true, rfl⟩
    obtain ⟨negative, rfl⟩ := hsign
    rcases hending with rfl | ⟨_, rfl, digits, hdigits, rfl⟩
    · exact ⟨⟨negative, whole, none⟩, ⟨hwhole, by simp⟩, rfl⟩
    · have hdigits := mem_kstar_digit.1 hdigits
      exact ⟨⟨negative, whole, some digits⟩, ⟨hwhole, by simpa using hdigits⟩, rfl⟩
  · rintro ⟨⟨negative, whole, fraction⟩, ⟨hwhole, hfraction⟩, rfl⟩
    refine Language.append_mem_mul (Language.append_mem_mul ?_ (mem_kstar_digit.2 hwhole)) ?_
    · cases negative with
      | false => exact .inl rfl
      | true => exact .inr rfl
    · cases fraction with
      | none => exact .inl rfl
      | some digits =>
        have hdigits := mem_kstar_digit.2 (hfraction digits rfl)
        exact .inr (Language.append_mem_mul (a := ['.']) rfl hdigits)

/-! ## The longest numeral -/

theorem length_le_takeWhile {p : Char → Bool} {w rest : List Char} (hw : ∀ c ∈ w, p c = true) :
    w.length ≤ ((w ++ rest).takeWhile p).length := by
  rw [List.takeWhile_append_of_pos hw, List.length_append]
  exact Nat.le_add_right _ _

theorem length_unsigned_le {n : Numeral} (hn : n.Digital) (negative : Bool) (rest : List Char) :
    n.unsigned.length ≤ (scanUnsigned negative (n.unsigned ++ rest)).1.unsigned.length := by
  obtain ⟨_, whole, fraction⟩ := n
  have hwhole : ∀ c ∈ whole, c.isDigit = true := hn.whole
  cases fraction with
  | none =>
    have hle := @length_le_takeWhile _ _ rest hwhole
    simp only [unsigned, List.append_nil]
    refine hle.trans ?_
    unfold scanUnsigned
    simp only []
    split <;> simp
  | some digits =>
    have hdigits : ∀ c ∈ digits, c.isDigit = true := hn.fraction digits rfl
    have hpoint : ∀ c ∈ ('.' :: (digits ++ rest)).head?, c.isDigit = false := by
      rintro c ⟨rfl⟩
      rfl
    have hle := @length_le_takeWhile _ _ rest hdigits
    simp only [unsigned, List.append_assoc, List.cons_append]
    unfold scanUnsigned
    simp only [takeWhile_append_of_head hwhole hpoint, dropWhile_append_of_head hwhole hpoint,
      List.length_append, List.length_cons]
    omega

/-- What stands behind the sign does not begin with a sign. -/
theorem dash_notMem_unsigned {n : Numeral} (hn : n.Digital) : '-' ∉ n.unsigned := by
  have hdigit {w : List Char} (hw : ∀ c ∈ w, c.isDigit = true) : '-' ∉ w :=
    fun h => absurd (hw _ h) (by decide)
  obtain ⟨_, whole, fraction⟩ := n
  have hwhole := hdigit hn.whole
  cases fraction with
  | none => simpa [unsigned] using hwhole
  | some digits =>
    have hdigits := hdigit (hn.fraction digits rfl)
    simp [unsigned, hwhole, hdigits]

/-- Only the first character of a numeral can be a minus sign. -/
theorem dash_notMem_tail {n : Numeral} (hn : n.Digital) : '-' ∉ n.text.tail := by
  have hunsigned := dash_notMem_unsigned hn
  rw [text_eq]
  cases n.negative with
  | true => exact hunsigned
  | false => exact fun h => hunsigned (List.mem_of_mem_tail h)

/-- A numeral is cut off as long as its form allows. -/
theorem longest_scan (input : List Char) : Longest form input (scan input).1.text := by
  have hform := mem_form_iff.2 ⟨_, digital_scan input, rfl⟩
  refine ⟨hform, ⟨_, append_scan input⟩, fun w hw hbegins => ?_⟩
  obtain ⟨n, hn, rfl⟩ := mem_form_iff.1 hw
  obtain ⟨rest, rfl⟩ := hbegins
  have hle := length_unsigned_le hn n.negative rest
  rw [text_eq, text_eq, List.append_assoc]
  cases hneg : n.negative with
  | true =>
    rw [hneg] at hle
    simpa [scan, negative_scanUnsigned] using hle
  | false =>
    rw [hneg] at hle
    cases hunsigned : n.unsigned with
    | nil => exact Nat.zero_le _
    | cons c tail =>
      have hdash : c ≠ '-' := by
        rintro rfl
        exact dash_notMem_unsigned hn (hunsigned ▸ List.mem_cons_self)
      rw [hunsigned] at hle
      simp only [Bool.false_eq_true, if_false, List.nil_append, List.cons_append] at hle ⊢
      rw [scan_of_ne hdash, negative_scanUnsigned]
      simpa using hle

example : (scan ['-', '1', '.', '2', '.', '3', '-', '>']).1.text = ['-', '1', '.', '2'] := by decide

/-! ## The value of a numeral -/

/-- The number that the digits and the point stand for. -/
def magnitude (n : Numeral) : ℚ := ofDigits n.digits / 10 ^ (n.fraction.getD []).length

/-- The value of a numeral has its sign and is nearest to its magnitude. From the middle between
the largest finite number and the next power of two on it is infinite. -/
structure IsValue (n : Numeral) (x : Binary64) : Prop where
  negative : x.negative = n.negative
  nearest : n.magnitude < 2 ^ 1024 - 2 ^ 970 → Binary64.Nearest n.magnitude x.code
  infinite : 2 ^ 1024 - 2 ^ 970 ≤ n.magnitude → x.code = Binary64.infinityCode

theorem IsValue.unique {n : Numeral} {x y : Binary64} (hx : n.IsValue x) (hy : n.IsValue y) :
    x = y := by
  have hcode : x.code = y.code := by
    rcases lt_or_ge n.magnitude (2 ^ 1024 - 2 ^ 970) with h | h
    · exact (hx.nearest h).eq (hy.nearest h)
    · rw [hx.infinite h, hy.infinite h]
  have hnegative := hx.negative.trans hy.negative.symm
  obtain ⟨_, _, _⟩ := x
  obtain ⟨_, _, _⟩ := y
  obtain rfl := hcode
  obtain rfl := hnegative
  rfl

theorem isValue_nearest (n : Numeral) : n.IsValue n.nearest := by
  obtain ⟨k, hk⟩ : ∃ k, (n.fraction.getD []).length = k := ⟨_, rfl⟩
  obtain ⟨code, hcode⟩ :
      ∃ code, Binary64.codeOfRatio (ofDigits n.digits) (Binary64.tenTo k) = code := ⟨_, rfl⟩
  have hcut : n.nearest.code = min code Binary64.infinityCode := by
    rw [← hcode]
    simp [nearest, Binary64.ofCode, Binary64.codeOfDecimal, Binary64.tenTo, hk]
  have hnearest : Binary64.Nearest n.magnitude code := by
    have := Binary64.nearest_codeOfRatio (ofDigits n.digits) (Decimal.tenTo_pos k)
    rw [hcode] at this
    simpa [magnitude, Binary64.tenTo, hk] using this
  refine ⟨rfl, fun h => ?_, fun h => ?_⟩
  · have hlt := hnearest.lt_infinityCode_iff.2 h
    rwa [hcut, Nat.min_eq_left hlt.le]
  · have hle := not_lt.1 (mt hnearest.lt_infinityCode_iff.1 (not_lt.2 h))
    rw [hcut, Nat.min_eq_right hle]

/-- A numeral has one value. -/
theorem isValue_iff {n : Numeral} {x : Binary64} : n.IsValue x ↔ x = n.nearest :=
  ⟨fun h => h.unique n.isValue_nearest, fun h => h ▸ n.isValue_nearest⟩

theorem value?_eq (n : Numeral) : n.value? =
    if n.digits ≠ [] ∧ n.nearest.isFinite = true then some n.nearest else none := by
  rw [value?]
  by_cases hdigits : n.digits = []
  · simp [hdigits]
  · simp [hdigits]

theorem mem_text_iff {n : Numeral} {c : Char} : c ∈ n.text ↔
    c = '-' ∧ n.negative = true ∨ c = '.' ∧ n.fraction.isSome = true ∨ c ∈ n.digits := by
  obtain ⟨negative, whole, fraction⟩ := n
  cases negative <;> cases fraction <;> simp [text, digits, or_left_comm]

theorem isDigit_of_mem_digits {n : Numeral} (hn : n.Digital) {c : Char} (hc : c ∈ n.digits) :
    c.isDigit = true := by
  obtain ⟨_, whole, fraction⟩ := n
  rcases List.mem_append.1 hc with hc | hc
  · exact hn.whole c hc
  · cases fraction with
    | none => cases hc
    | some digits => exact hn.fraction digits rfl c hc

/-- A numeral has digits if there is a digit in its text. -/
theorem any_isDigit_iff {n : Numeral} (hn : n.Digital) :
    n.text.any Char.isDigit = true ↔ n.digits ≠ [] := by
  rw [List.any_eq_true]
  constructor
  · rintro ⟨c, hc, hdigit⟩
    rcases mem_text_iff.1 hc with ⟨rfl, -⟩ | ⟨rfl, -⟩ | hc
    · exact absurd hdigit (by decide)
    · exact absurd hdigit (by decide)
    · exact List.ne_nil_of_mem hc
  · intro h
    obtain ⟨c, tail, hdigits⟩ := List.exists_cons_of_ne_nil h
    have hc : c ∈ n.digits := hdigits ▸ List.mem_cons_self
    exact ⟨c, mem_text_iff.2 (.inr (.inr hc)), isDigit_of_mem_digits hn hc⟩

/-! ## Where a numeral is read -/

/-- A numeral is read in front of a digit, a point, or a minus sign with one of them behind it. -/
inductive Opens : List Char → Prop where
  | unsigned {c : Char} {rest : List Char} : c.isDigit = true ∨ c = '.' → Opens (c :: rest)
  | signed {c : Char} {rest : List Char} : c.isDigit = true ∨ c = '.' → Opens ('-' :: c :: rest)

theorem Opens.exists_cons {input : List Char} (h : Opens input) :
    ∃ c tail, input = c :: tail ∧ (c = '-' ∨ c.isDigit = true ∨ c = '.') := by
  cases h with
  | unsigned hc => exact ⟨_, _, rfl, .inr hc⟩
  | signed => exact ⟨_, _, rfl, .inl rfl⟩

/-- What begins neither an arrow nor a numeral behind a minus sign. -/
def Alone (input : List Char) : Prop :=
  ∀ c ∈ input.head?, c ≠ '>' ∧ c ≠ '-' ∧ c ≠ '.' ∧ c.isDigit = false

theorem Opens.not_alone {input : List Char} (h : Opens ('-' :: input)) : ¬ Alone input := by
  intro halone
  cases h with
  | unsigned hc => exact absurd hc (by decide)
  | signed hc =>
    obtain ⟨-, -, hpoint, hdigit⟩ := halone _ rfl
    rcases hc with hc | hc
    · exact Bool.false_ne_true (hdigit.symm.trans hc)
    · exact hpoint hc

theorem not_alone_of_arrow {input tail : List Char} {op : EdgeOp}
    (h : '-' :: input = op.text.toList ++ tail) : ¬ Alone input := by
  intro halone
  cases op with
  | directed =>
    obtain rfl : input = '>' :: tail := (List.cons.inj h).2
    exact (halone '>' rfl).1 rfl
  | undirected =>
    obtain rfl : input = '-' :: tail := (List.cons.inj h).2
    exact (halone '-' rfl).2.1 rfl

theorem not_opens_arrow (op : EdgeOp) (tail : List Char) : ¬ Opens (op.text.toList ++ tail) := by
  intro h
  cases op with
  | directed =>
    cases h with
    | unsigned hc => exact absurd hc (by decide)
    | signed hc => exact absurd hc (by decide)
  | undirected =>
    cases h with
    | unsigned hc => exact absurd hc (by decide)
    | signed hc => exact absurd hc (by decide)

/-! ## A numeral in front of an arrow -/

/-- The longest numeral does not reach behind a minus sign inside the input. -/
theorem eq_of_longest {w text tail : List Char} (h : Longest form (w ++ '-' :: tail) text)
    (hw : w ∈ form) (hne : w ≠ []) : text = w := by
  obtain ⟨n, hn, rfl⟩ := mem_form_iff.1 h.mem
  have hbegins : w <+: w ++ '-' :: tail := ⟨_, rfl⟩
  have hle := h.length_le w hw hbegins
  obtain ⟨more, hmore⟩ := List.prefix_of_prefix_length_le hbegins h.begins hle
  cases more with
  | nil => rw [← hmore, List.append_nil]
  | cons c more =>
    obtain ⟨rest, hrest⟩ := h.begins
    rw [← hmore, List.append_assoc, List.append_cancel_left_eq] at hrest
    obtain ⟨rfl, -⟩ := List.cons.inj hrest
    -- the sign would stand behind the first character of the numeral
    have hdash := dash_notMem_tail hn
    rw [← hmore, List.tail_append_of_ne_nil hne] at hdash
    exact absurd (List.mem_append_right _ List.mem_cons_self) hdash

/-- A numeral ends in front of an arrow. -/
theorem scan_append_arrow {w tail : List Char} {op : EdgeOp}
    (hopens : Opens (w ++ (op.text.toList ++ tail))) (hw : w ∈ form) :
    ∃ n, scan (w ++ (op.text.toList ++ tail)) = (n, op.text.toList ++ tail) ∧ n.text = w := by
  have hne : w ≠ [] := by
    rintro rfl
    exact not_opens_arrow op tail hopens
  have hlongest := longest_scan (w ++ (op.text.toList ++ tail))
  have happend := append_scan (w ++ (op.text.toList ++ tail))
  have htext : (scan (w ++ (op.text.toList ++ tail))).1.text = w := by
    cases op with
    | directed => exact eq_of_longest hlongest hw hne
    | undirected => exact eq_of_longest hlongest hw hne
  rw [htext, List.append_cancel_left_eq] at happend
  exact ⟨_, Prod.ext rfl happend, htext⟩

end Numeral

namespace Lexeme

open Numeral

/-- What stands behind a minus sign. -/
theorem dash_cases (input : List Char) : Opens ('-' :: input) ∨
    (∃ (op : EdgeOp) (tail : List Char), '-' :: input = op.text.toList ++ tail) ∨ Alone input := by
  cases input with
  | nil => exact .inr (.inr (by simp [Alone]))
  | cons c input =>
    by_cases hnumeral : c.isDigit = true ∨ c = '.'
    · exact .inl (.signed hnumeral)
    · by_cases hdirected : c = '>'
      · subst hdirected
        exact .inr (.inl ⟨.directed, input, rfl⟩)
      · by_cases hundirected : c = '-'
        · subst hundirected
          exact .inr (.inl ⟨.undirected, input, rfl⟩)
        · right; right
          rintro _ ⟨rfl⟩
          obtain ⟨hdigit, hpoint⟩ := not_or.1 hnumeral
          exact ⟨hdirected, hundirected, hpoint, Bool.eq_false_iff.2 hdigit⟩

theorem scan_alone {input : List Char} (h : Alone input) :
    scan '-' input = .fault (.unexpectedChar '-') [] ('-' :: input) := by
  have hscan : scan '-' input = scanDash input := rfl
  rw [hscan]
  cases input with
  | nil => rfl
  | cons c input =>
    obtain ⟨hdirected, hundirected, hpoint, hdigit⟩ := h c rfl
    rw [scanDash]
    · simp [hpoint, hdigit]
    · exact hdirected
    · exact hundirected

theorem scan_opens {c : Char} {input : List Char} (h : Opens (c :: input)) :
    scan c input = scanNumeral (c :: input) := by
  cases h with
  | unsigned hc => exact scan_numeral hc
  | signed hc => exact scan_dash hc

/-- A numeral is judged when it has been cut off: it needs a digit, and its value must be finite. -/
theorem scanNumeral_of_scan {input rest : List Char} {n : Numeral}
    (h : Numeral.scan input = (n, rest)) : scanNumeral input =
      if n.text.any Char.isDigit = true ∧ n.nearest.isFinite = true then
        .token (.number n.nearest) n.text rest
      else .fault (.invalidNumber (String.ofList n.text)) n.text rest := by
  have hn : n.Digital := by
    have := digital_scan input
    rwa [h] at this
  rw [scanNumeral, h]
  simp only [value?_eq, any_isDigit_iff hn]
  by_cases hvalue : n.digits ≠ [] ∧ n.nearest.isFinite = true
  · rw [if_pos hvalue, if_pos hvalue]
  · rw [if_neg hvalue, if_neg hvalue]

end Lexeme

/-! ## Readings -/

namespace Cursor

open Lexeme Numeral Trivia

/-- Where a numeral or a minus sign stands there is neither blank nor comment. -/
theorem head_numeral {c : Char} {input : List Char} (hc : c = '-' ∨ c.isDigit = true ∨ c = '.')
    (lineStart : Bool) : head lineStart (c :: input) = .absent := by
  refine head_of_ne ?_ ?_ ?_ _ _
  · rw [Bool.eq_false_iff]
    intro hblank
    simp only [isBlank, Bool.or_eq_true, decide_eq_true_eq] at hblank
    rcases hblank with (((rfl | rfl) | rfl) | rfl) | rfl <;> exact absurd hc (by decide)
  · rintro rfl
    exact absurd hc (by decide)
  · rintro rfl
    exact absurd hc (by decide)

theorem next_of_opens {input rest : List Char} {n : Numeral} (h : Opens input)
    (hscan : Numeral.scan input = (n, rest)) (pos : Position) :
    next ⟨input, pos⟩ =
      (if n.text.any Char.isDigit = true ∧ n.nearest.isFinite = true then
        .ok ⟨.number n.nearest, String.ofList n.text, pos⟩
      else .error ⟨.invalidNumber (String.ofList n.text), pos⟩, ⟨rest, pos.after n.text⟩) := by
  obtain ⟨c, tail, rfl, hc⟩ := h.exists_cons
  have hlexeme := scan_opens h
  rw [scanNumeral_of_scan hscan] at hlexeme
  by_cases hvalue : n.text.any Char.isDigit = true ∧ n.nearest.isFinite = true
  · rw [if_pos hvalue] at hlexeme ⊢
    exact next_of_absent (head_numeral hc _) hlexeme
  · rw [if_neg hvalue] at hlexeme ⊢
    exact next_of_fault (head_numeral hc _) hlexeme

theorem next_arrow (op : EdgeOp) (tail : List Char) (pos : Position) :
    next ⟨op.text.toList ++ tail, pos⟩ =
      (.ok ⟨.edgeOp op, op.text, pos⟩, ⟨tail, pos.after op.text.toList⟩) := by
  cases op with
  | directed => exact next_of_absent (head_numeral (.inl rfl) _) rfl
  | undirected => exact next_of_absent (head_numeral (.inl rfl) _) rfl

theorem next_of_alone {input : List Char} (h : Alone input) (pos : Position) :
    next ⟨'-' :: input, pos⟩ = (.error ⟨.unexpectedChar '-', pos⟩, ⟨'-' :: input, pos⟩) :=
  next_of_fault (head_numeral (.inl rfl) _) (scan_alone h)

theorem next_dash_eq_unexpected_iff {input : List Char} {pos p : Position} :
    (next ⟨'-' :: input, pos⟩).1 = .error ⟨.unexpectedChar '-', p⟩ ↔ p = pos ∧ Alone input := by
  rcases dash_cases input with hopens | ⟨op, tail, harrow⟩ | halone
  · refine ⟨fun h => ?_, fun h => absurd h.2 hopens.not_alone⟩
    obtain ⟨n, rest, hscan⟩ : ∃ n rest, Numeral.scan ('-' :: input) = (n, rest) := ⟨_, _, rfl⟩
    rw [next_of_opens hopens hscan] at h
    dsimp only at h
    split at h <;> cases h
  · refine ⟨fun h => ?_, fun h => absurd h.2 (not_alone_of_arrow harrow)⟩
    rw [harrow, next_arrow] at h
    cases h
  · rw [next_of_alone halone]
    exact ⟨fun h => ⟨(LexError.mk.inj (Except.error.inj h)).2.symm, halone⟩, fun h => by rw [h.1]⟩

/-- What is read behind a stretch of blanks and comments is read in front of it. -/
theorem next_of_stretch {p : Position} {gap rest : List Char} (h : Stretch p gap rest) :
    next ⟨gap ++ rest, p⟩ = next ⟨rest, p.after gap⟩ := by
  induction h with
  | nil => rfl
  | cons hpiece _ ih =>
    rw [List.append_assoc, next_of_passed (head_eq_passed_iff.2 ⟨hpiece, rfl⟩),
      Position.after_append]
    exact ih

/-- A minus sign at the place `p` is unexpected if it stands alone there. -/
theorem next_eq_unexpected_iff {c : Cursor} {p : Position} :
    c.next.1 = .error ⟨.unexpectedChar '-', p⟩ ↔
      ∃ gap input, c.rest = gap ++ '-' :: input ∧ Stretch c.pos gap ('-' :: input) ∧
        p = c.pos.after gap ∧ Alone input := by
  obtain ⟨rest, pos⟩ := c
  constructor
  · intro h
    have hreads := next_reads ⟨rest, pos⟩
    rw [h] at hreads
    obtain ⟨gap, _, rfl, hgap, -, ⟨⟩⟩ := hreads.of_error
    rw [next_of_stretch hgap] at h
    exact ⟨gap, _, rfl, hgap, next_dash_eq_unexpected_iff.1 h⟩
  · rintro ⟨gap, input, rfl, hgap, hp⟩
    rw [next_of_stretch hgap]
    exact next_dash_eq_unexpected_iff.2 hp

end Cursor

/-- What a cursor reads is what the lexer with this cursor reads. -/
theorem Lexer.next_eq {l : Lexer} {result : Except LexError Token} {c : Cursor}
    (h : l.cursor.next = (result, c)) : l.next = (result, { l with cursor := c }) := by
  rw [next, h]

/-- In front of a digit, a point, or a minus sign with one of these behind it, a lexer passes the
longest numeral and nothing else. If there is a digit in it and its value is finite it is a number
with this text, else a malformed numeral with this text at its own start. So the minus sign of an
arrow is never taken for a part of the numeral in front of it. Any other minus sign begins an arrow
or is unexpected, and it is unexpected exactly if what follows begins neither an arrow nor a
numeral. -/
theorem numerals_cut (l : Lexer) :
    (Numeral.Opens l.cursor.rest →
      ∃ (n : Numeral) (x : Binary64) (rest : List Char), n.Digital ∧ (∀ y, n.IsValue y ↔ y = x) ∧
        Longest Numeral.form l.cursor.rest n.text ∧ l.cursor.rest = n.text ++ rest ∧
        l.next =
          (if n.text.any Char.isDigit = true ∧ x.isFinite = true then
            .ok ⟨.number x, String.ofList n.text, l.cursor.pos⟩
          else .error ⟨.invalidNumber (String.ofList n.text), l.cursor.pos⟩,
          { l with cursor := ⟨rest, l.cursor.pos.after n.text⟩ })) ∧
    (∀ (w tail : List Char) (op : EdgeOp), Numeral.Opens l.cursor.rest → w ∈ Numeral.form →
      l.cursor.rest = w ++ (op.text.toList ++ tail) →
      l.next.2.next =
        (.ok ⟨.edgeOp op, op.text, l.cursor.pos.after w⟩,
          { l with cursor := ⟨tail, (l.cursor.pos.after w).after op.text.toList⟩ })) ∧
    (∀ input, l.cursor.rest = '-' :: input → ¬ Numeral.Opens l.cursor.rest →
      (∃ (op : EdgeOp) (tail : List Char), l.cursor.rest = op.text.toList ++ tail ∧
        l.next = (.ok ⟨.edgeOp op, op.text, l.cursor.pos⟩,
          { l with cursor := ⟨tail, l.cursor.pos.after op.text.toList⟩ })) ∨
      Numeral.Alone input ∧ l.next = (.error ⟨.unexpectedChar '-', l.cursor.pos⟩, l)) ∧
    ∀ p, l.next.1 = .error ⟨.unexpectedChar '-', p⟩ ↔
      ∃ gap input, l.cursor.rest = gap ++ '-' :: input ∧
        Trivia.Stretch l.cursor.pos gap ('-' :: input) ∧ p = l.cursor.pos.after gap ∧
        Numeral.Alone input := by
  refine ⟨fun hopens => ?_, fun w tail op hopens hw hrest => ?_, fun input hrest hopens => ?_,
    fun p => Cursor.next_eq_unexpected_iff⟩
  · obtain ⟨n, rest, hscan⟩ : ∃ n rest, Numeral.scan l.cursor.rest = (n, rest) := ⟨_, _, rfl⟩
    have hn := Numeral.digital_scan l.cursor.rest
    have hlongest := Numeral.longest_scan l.cursor.rest
    have happend := Numeral.append_scan l.cursor.rest
    rw [hscan] at hn hlongest happend
    exact ⟨n, n.nearest, rest, hn, fun y => Numeral.isValue_iff, hlongest, happend.symm,
      Lexer.next_eq (Cursor.next_of_opens hopens hscan l.cursor.pos)⟩
  · rw [hrest] at hopens
    obtain ⟨n, hscan, rfl⟩ := Numeral.scan_append_arrow hopens hw
    have hnumeral := Cursor.next_of_opens hopens hscan l.cursor.pos
    rw [← hrest] at hnumeral
    rw [Lexer.next_eq hnumeral]
    exact Lexer.next_eq (Cursor.next_arrow op tail _)
  · rcases Lexeme.dash_cases input with hnumeral | ⟨op, tail, harrow⟩ | halone
    · exact absurd (hrest ▸ hnumeral) hopens
    · refine .inl ⟨op, tail, hrest.trans harrow, Lexer.next_eq ?_⟩
      have := Cursor.next_arrow op tail l.cursor.pos
      rwa [← harrow, ← hrest] at this
    · refine .inr ⟨halone, ?_⟩
      have := Cursor.next_of_alone halone l.cursor.pos
      rw [← hrest] at this
      exact Lexer.next_eq this

end DotLang
