import DotLang.Lexeme
import DotLang.Trivia

/-!
# Spellings of tokens

A text spells a token if it is cut off the input as this token whatever stands behind it, as long
as that begins with a blank or a slash or there is nothing. Every token that is cut off an input
is spelled by its text, so a token does not depend on what stands behind it.

* `Quoted.split?_eq_some_iff`, `Html.split?_eq_some_iff`, `Numeral.scan_append`: where strings and
  numerals end, told from their texts alone.
* `spells_quoted`, `spells_html`, `spells_numeral`, `spells_keyword`, `spells_identifier`,
  `spells_symbol`, `spells_arrow`: the spellings of each kind of token.
* `spells_iff_spelling`: there are no others, and the text of a token is one of them.
-/

namespace DotLang

namespace Lexeme

/-- Where a token ends: in front of a blank, a slash or the end of the text. -/
def EndsToken (rest : List Char) : Prop :=
  ∀ c ∈ rest.head?, Trivia.isBlank c = true ∨ c = '/'

/-- Such a text is read as such a token wherever a token may end behind it. -/
def Spells (kind : TokenKind) (text : List Char) : Prop :=
  ∃ first tail, text = first :: tail ∧
    ∀ rest, EndsToken rest → scan first (tail ++ rest) = .token kind text rest

end Lexeme

/-! ## Strings -/

namespace Lexeme.Quoted

/-- What may stand between two quotes: a backslash always stands in front of another character,
and no quote stands elsewhere. -/
inductive Body : List Char → Prop where
  | nil : Body []
  | pair {c : Char} {body : List Char} : Body body → Body ('\\' :: c :: body)
  | plain {c : Char} {body : List Char} : c ≠ '"' → c ≠ '\\' → Body body → Body (c :: body)

theorem split?_pair (c : Char) (input : List Char) :
    split? ('\\' :: c :: input) =
      (split? input).map fun (body, r) => ('\\' :: c :: body, r) := rfl

theorem split?_plain {c : Char} {input : List Char} (hquote : c ≠ '"') (hback : c ≠ '\\') :
    split? (c :: input) = (split? input).map fun (body, r) => (c :: body, r) := by
  rw [split?]
  · exact hquote
  · exact fun h _ => hback h
  · exact fun _ _ h _ => hback h

/-- A quoted string ends at the first quote that no backslash hides. -/
theorem split?_eq_some_iff {input body rest : List Char} :
    split? input = some (body, rest) ↔ Body body ∧ input = body ++ '"' :: rest := by
  constructor
  · intro h
    refine ⟨?_, (append_of_split? h).symm⟩
    fun_induction split? input generalizing body rest with
    | case1 => cases h
    | case2 r =>
      obtain ⟨rfl, rfl⟩ := Prod.mk.inj (Option.some.inj h)
      exact .nil
    | case3 => cases h
    | case4 c r ih =>
      obtain ⟨⟨b, r'⟩, hs, he⟩ := Option.map_eq_some_iff.1 h
      obtain ⟨rfl, rfl⟩ := Prod.mk.inj he
      exact .pair (ih hs)
    | case5 c r hquote hlast hpair ih =>
      obtain ⟨⟨b, r'⟩, hs, he⟩ := Option.map_eq_some_iff.1 h
      obtain ⟨rfl, rfl⟩ := Prod.mk.inj he
      have hback : c ≠ '\\' := by
        rintro rfl
        cases r with
        | nil => exact hlast rfl rfl
        | cons d r => exact hpair d r rfl rfl
      exact .plain hquote hback (ih hs)
  · rintro ⟨hbody, rfl⟩
    induction hbody with
    | nil => rfl
    | pair _ ih => rw [List.cons_append, List.cons_append, split?_pair, ih]; rfl
    | plain hquote hback _ ih => rw [List.cons_append, split?_plain hquote hback, ih]; rfl

end Lexeme.Quoted

/-! ## Html strings -/

namespace Lexeme.Html

/-- What may stand inside `depth + 1` open brackets in front of the bracket that closes the
outermost one. -/
inductive Nested : Nat → List Char → Prop where
  | nil : Nested 0 []
  | open {depth : Nat} {body : List Char} : Nested (depth + 1) body → Nested depth ('<' :: body)
  | close {depth : Nat} {body : List Char} : Nested depth body → Nested (depth + 1) ('>' :: body)
  | plain {depth : Nat} {c : Char} {body : List Char} :
      c ≠ '<' → c ≠ '>' → Nested depth body → Nested depth (c :: body)

/-- An html string ends at the bracket that closes the outermost one. -/
theorem split?_eq_some_iff {depth : Nat} {input body rest : List Char} :
    split? depth input = some (body, rest) ↔
      Nested depth body ∧ input = body ++ '>' :: rest := by
  constructor
  · intro h
    refine ⟨?_, (append_of_split? h).symm⟩
    induction input generalizing depth body with
    | nil => cases h
    | cons c input ih =>
      unfold split? at h
      split at h
      · rename_i hc
        subst hc
        split at h
        · obtain ⟨rfl, rfl⟩ := Prod.mk.inj (Option.some.inj h)
          exact .nil
        · obtain ⟨⟨b, r⟩, hs, he⟩ := Option.map_eq_some_iff.1 h
          obtain ⟨rfl, rfl⟩ := Prod.mk.inj he
          exact .close (ih hs)
      · rename_i hclose
        split at h
        all_goals
          obtain ⟨⟨b, r⟩, hs, he⟩ := Option.map_eq_some_iff.1 h
          obtain ⟨rfl, rfl⟩ := Prod.mk.inj he
        · rename_i hopen
          rw [hopen]
          exact .open (ih hs)
        · rename_i hopen
          exact .plain hopen hclose (ih hs)
  · rintro ⟨hbody, rfl⟩
    induction hbody with
    | nil => simp [split?]
    | «open» _ ih => simp [split?, ih]
    | close _ ih => simp [split?, ih]
    | plain hopen hclose _ ih => simp [split?, hopen, hclose, ih]

end Lexeme.Html

/-! ## Numerals -/

theorem takeWhile_append_of_head {p : Char → Bool} {w rest : List Char} (hw : ∀ c ∈ w, p c)
    (hrest : ∀ c ∈ rest.head?, p c = false) : (w ++ rest).takeWhile p = w := by
  rw [List.takeWhile_append_of_pos hw]
  cases rest with
  | nil => exact List.append_nil w
  | cons c rest => rw [List.takeWhile_cons_of_neg (by simp [hrest c rfl]), List.append_nil]

theorem dropWhile_append_of_head {p : Char → Bool} {w rest : List Char} (hw : ∀ c ∈ w, p c)
    (hrest : ∀ c ∈ rest.head?, p c = false) : (w ++ rest).dropWhile p = rest := by
  rw [List.dropWhile_append_of_pos hw]
  cases rest with
  | nil => rfl
  | cons c rest => rw [List.dropWhile_cons_of_neg (by simp [hrest c rfl])]

namespace Numeral

/-- Both parts of the numeral are digits. -/
structure Digital (n : Numeral) : Prop where
  whole : ∀ c ∈ n.whole, c.isDigit = true
  fraction : ∀ digits ∈ n.fraction, ∀ c ∈ digits, c.isDigit = true

/-- The numeral without its sign. -/
def unsigned (n : Numeral) : List Char :=
  n.whole ++
    match n.fraction with
    | none => []
    | some digits => '.' :: digits

theorem text_eq (n : Numeral) : n.text = (if n.negative then ['-'] else []) ++ n.unsigned :=
  List.append_assoc _ _ _

theorem isDigit_of_mem_takeWhile {input : List Char} {c : Char}
    (h : c ∈ input.takeWhile Char.isDigit) : c.isDigit = true :=
  List.all_eq_true.1 List.all_takeWhile c h

theorem digital_scanUnsigned (negative : Bool) (input : List Char) :
    (scanUnsigned negative input).1.Digital := by
  unfold scanUnsigned
  simp only []
  split
  · refine ⟨fun c => isDigit_of_mem_takeWhile, ?_⟩
    rintro digits ⟨rfl⟩ c hc
    exact isDigit_of_mem_takeWhile hc
  · exact ⟨fun c => isDigit_of_mem_takeWhile, nofun⟩

/-- A numeral ends in front of anything but a digit or a point. -/
theorem scanUnsigned_append {n : Numeral} {rest : List Char} (hn : n.Digital)
    (hrest : ∀ c ∈ rest.head?, c.isDigit = false ∧ c ≠ '.') :
    scanUnsigned n.negative (n.unsigned ++ rest) = (n, rest) := by
  obtain ⟨negative, whole, fraction⟩ := n
  have hwhole : ∀ c ∈ whole, c.isDigit = true := hn.whole
  have hdigit : ∀ c ∈ rest.head?, c.isDigit = false := fun c hc => (hrest c hc).1
  cases fraction with
  | none =>
    have htext : unsigned ⟨negative, whole, none⟩ ++ rest = whole ++ rest := by
      rw [unsigned, List.append_nil]
    rw [htext, scanUnsigned, takeWhile_append_of_head hwhole hdigit,
      dropWhile_append_of_head hwhole hdigit]
    split
    · exact absurd rfl (hrest '.' rfl).2
    · rfl
  | some digits =>
    have hdigits : ∀ c ∈ digits, c.isDigit = true := hn.fraction digits rfl
    have htext : unsigned ⟨negative, whole, some digits⟩ ++ rest =
        whole ++ '.' :: (digits ++ rest) := by
      rw [unsigned, List.append_assoc, List.cons_append]
    have hpoint : ∀ c ∈ ('.' :: (digits ++ rest)).head?, c.isDigit = false := by
      rintro c ⟨rfl⟩
      rfl
    rw [htext, scanUnsigned, takeWhile_append_of_head hwhole hpoint,
      dropWhile_append_of_head hwhole hpoint]
    simp only [takeWhile_append_of_head hdigits hdigit, dropWhile_append_of_head hdigits hdigit]

/-- What is left of a numeral with a digit begins with a digit or a point. -/
theorem unsigned_eq_cons {n : Numeral} (hn : n.Digital) (h : n.digits ≠ []) :
    ∃ c tail, n.unsigned = c :: tail ∧ (c.isDigit = true ∨ c = '.') := by
  obtain ⟨negative, whole, fraction⟩ := n
  cases whole with
  | cons c whole => exact ⟨c, _, rfl, .inl (hn.whole c List.mem_cons_self)⟩
  | nil =>
    cases fraction with
    | none => exact absurd rfl h
    | some digits => exact ⟨'.', digits, rfl, .inr rfl⟩

theorem digits_ne_nil {n : Numeral} {value : Binary64} (h : n.value? = some value) :
    n.digits ≠ [] := by
  intro hnil
  rw [value?, if_pos hnil] at h
  cases h

theorem scan_of_ne {c : Char} {input : List Char} (h : c ≠ '-') :
    scan (c :: input) = scanUnsigned false (c :: input) := by
  rw [scan]
  exact fun _ heq => h (List.cons.inj heq).1

theorem scan_append {n : Numeral} {rest : List Char} (hn : n.Digital) (hdigits : n.digits ≠ [])
    (hrest : ∀ c ∈ rest.head?, c.isDigit = false ∧ c ≠ '.') :
    scan (n.text ++ rest) = (n, rest) := by
  obtain ⟨c, tail, htail, hc⟩ := unsigned_eq_cons hn hdigits
  have hscan := scanUnsigned_append hn hrest
  rw [text_eq]
  cases hneg : n.negative with
  | true =>
    rw [hneg] at hscan
    exact hscan
  | false =>
    rw [hneg] at hscan
    rw [htail] at hscan ⊢
    have hdash : c ≠ '-' := by
      rintro rfl
      rcases hc with hc | hc <;> exact absurd hc (by decide)
    rw [if_neg Bool.false_ne_true, List.nil_append, List.cons_append, scan_of_ne hdash]
    exact hscan

theorem digital_scan (input : List Char) : (scan input).1.Digital := by
  unfold scan
  split <;> exact digital_scanUnsigned _ _

end Numeral

namespace Lexeme

variable {rest : List Char}

/-- The characters in front of which a token ends are neither digits, points nor parts of names. -/
theorem EndsToken.not_token (h : EndsToken rest) :
    ∀ c ∈ rest.head?, c.isDigit = false ∧ c ≠ '.' ∧ isNameChar c = false := by
  intro c hc
  have hc := h c hc
  simp only [Trivia.isBlank, Bool.or_eq_true, decide_eq_true_eq] at hc
  rcases hc with ((((rfl | rfl) | rfl) | rfl) | rfl) | rfl <;> exact ⟨rfl, by decide, rfl⟩

theorem EndsToken.not_digit (h : EndsToken rest) :
    ∀ c ∈ rest.head?, c.isDigit = false ∧ c ≠ '.' :=
  fun c hc => ⟨(h.not_token c hc).1, (h.not_token c hc).2.1⟩

theorem EndsToken.not_isNameChar (h : EndsToken rest) :
    ∀ c ∈ rest.head?, isNameChar c = false :=
  fun c hc => (h.not_token c hc).2.2

/-! ## First characters -/

theorem ofChar?_eq_none {c : Char} (h : ∀ s : Symbol, s.char ≠ c) : Symbol.ofChar? c = none := by
  cases hc : Symbol.ofChar? c with
  | none => rfl
  | some s => exact absurd (Symbol.ofChar?_eq_some_iff.1 hc) (h s)

theorem scan_numeral {c : Char} {input : List Char} (hc : c.isDigit = true ∨ c = '.') :
    scan c input = scanNumeral (c :: input) := by
  have hsymbol : Symbol.ofChar? c = none := by
    refine ofChar?_eq_none ?_
    rintro s rfl
    cases s <;> exact absurd hc (by decide)
  have hne : c ≠ '"' ∧ c ≠ '<' ∧ c ≠ '-' := by
    refine ⟨?_, ?_, ?_⟩ <;> rintro rfl <;> exact absurd hc (by decide)
  rw [scan, hsymbol]
  simp [hne, hc]

theorem scan_dash {c : Char} {input : List Char} (hc : c.isDigit = true ∨ c = '.') :
    scan '-' (c :: input) = scanNumeral ('-' :: c :: input) := by
  have hne : c ≠ '>' ∧ c ≠ '-' := by
    refine ⟨?_, ?_⟩ <;> rintro rfl <;> exact absurd hc (by decide)
  have hscan : scan '-' (c :: input) = scanDash (c :: input) := rfl
  rw [hscan, scanDash]
  · simp [hc]
  · exact fun h => hne.1 h
  · exact fun h => hne.2 h

theorem isDigit_of_isNameStart {c : Char} (h : isNameStart c = true) : c.isDigit = false := by
  rw [Bool.eq_false_iff]
  intro hdigit
  have halpha : c.isAlpha =
      (decide (c.val ≥ 'A'.val ∧ c.val ≤ 'Z'.val) || (c.val ≥ 'a'.val && c.val ≤ 'z'.val)) := rfl
  simp only [isNameStart, halpha, Char.isDigit, Bool.or_eq_true, Bool.and_eq_true,
    decide_eq_true_eq, Char.toNat, UInt32.le_iff_toNat_le, ge_iff_le, Char.reduceVal,
    UInt32.reduceToNat] at h hdigit
  rcases h with (h | rfl) | h
  · omega
  · exact absurd hdigit (by decide)
  · omega

theorem scan_name {c : Char} {input : List Char} (hc : isNameStart c = true) :
    scan c input = scanName (c :: input) := by
  have hsymbol : Symbol.ofChar? c = none := by
    refine ofChar?_eq_none ?_
    rintro s rfl
    cases s <;> exact absurd hc (by decide)
  have hne : c ≠ '"' ∧ c ≠ '<' ∧ c ≠ '-' ∧ c ≠ '.' := by
    refine ⟨?_, ?_, ?_, ?_⟩ <;> rintro rfl <;> exact absurd hc (by decide)
  rw [scan, hsymbol]
  simp [hne, hc, isDigit_of_isNameStart hc]

/-! ## The spellings of each kind of token -/

theorem spells_symbol (s : Symbol) : Spells (.symbol s) [s.char] := by
  refine ⟨s.char, [], rfl, fun rest _ => ?_⟩
  rw [scan, Symbol.ofChar?_eq_some_iff.2 rfl]
  rfl

theorem spells_arrow (op : EdgeOp) : Spells (.edgeOp op) op.text.toList := by
  cases op with
  | directed => exact ⟨'-', ['>'], rfl, fun rest _ => rfl⟩
  | undirected => exact ⟨'-', ['-'], rfl, fun rest _ => rfl⟩

theorem spells_quoted {body : List Char} (h : Quoted.Body body) :
    Spells (.string (String.ofList (Quoted.decode body))) ('"' :: (body ++ ['"'])) := by
  refine ⟨'"', body ++ ['"'], rfl, fun rest _ => ?_⟩
  have hsplit : Quoted.split? (body ++ ['"'] ++ rest) = some (body, rest) :=
    Quoted.split?_eq_some_iff.2 ⟨h, by rw [List.append_assoc, List.singleton_append]⟩
  have hscan : scan '"' (body ++ ['"'] ++ rest) = scanQuoted (body ++ ['"'] ++ rest) := rfl
  rw [hscan, scanQuoted, hsplit]

theorem spells_html {body : List Char} (h : Html.Nested 0 body) :
    Spells (.html (String.ofList body)) ('<' :: (body ++ ['>'])) := by
  refine ⟨'<', body ++ ['>'], rfl, fun rest _ => ?_⟩
  have hsplit : Html.split? 0 (body ++ ['>'] ++ rest) = some (body, rest) :=
    Html.split?_eq_some_iff.2 ⟨h, by rw [List.append_assoc, List.singleton_append]⟩
  have hscan : scan '<' (body ++ ['>'] ++ rest) = scanHtml (body ++ ['>'] ++ rest) := rfl
  rw [hscan, scanHtml, hsplit]

theorem spells_numeral {n : Numeral} {value : Binary64} (hn : n.Digital)
    (hvalue : n.value? = some value) : Spells (.number value) n.text := by
  have hscan (rest : List Char) (hrest : EndsToken rest) :
      scanNumeral (n.text ++ rest) = .token (.number value) n.text rest := by
    rw [scanNumeral, Numeral.scan_append hn (Numeral.digits_ne_nil hvalue) hrest.not_digit]
    simp only [hvalue]
  obtain ⟨c, tail, htail, hc⟩ := Numeral.unsigned_eq_cons hn (Numeral.digits_ne_nil hvalue)
  rw [Numeral.text_eq, htail] at hscan ⊢
  cases hneg : n.negative with
  | true =>
    rw [hneg] at hscan
    refine ⟨'-', c :: tail, rfl, fun rest hrest => ?_⟩
    rw [List.cons_append, scan_dash hc]
    exact hscan rest hrest
  | false =>
    rw [hneg] at hscan
    refine ⟨c, tail, rfl, fun rest hrest => ?_⟩
    rw [scan_numeral hc]
    exact hscan rest hrest

theorem isNameChar_of_isNameStart {c : Char} (hc : isNameStart c = true) :
    isNameChar c = true := by
  rw [isNameChar, hc, Bool.true_or]

theorem forall_isNameChar_cons {c : Char} {tail : List Char} (hc : isNameStart c = true)
    (htail : ∀ d ∈ tail, isNameChar d = true) : ∀ d ∈ c :: tail, isNameChar d = true :=
  List.forall_mem_cons.2 ⟨isNameChar_of_isNameStart hc, htail⟩

theorem spells_keyword {c : Char} {tail : List Char} {word : Keyword}
    (hc : isNameStart c = true) (htail : ∀ d ∈ tail, isNameChar d = true)
    (hword : Keyword.ofName? (c :: tail) = some word) : Spells (.keyword word) (c :: tail) := by
  have hname := forall_isNameChar_cons hc htail
  refine ⟨c, tail, rfl, fun rest hrest => ?_⟩
  rw [scan_name hc, scanName, ← List.cons_append,
    takeWhile_append_of_head hname hrest.not_isNameChar,
    dropWhile_append_of_head hname hrest.not_isNameChar]
  simp only [hword]

theorem spells_identifier {c : Char} {tail : List Char} (hc : isNameStart c = true)
    (htail : ∀ d ∈ tail, isNameChar d = true) (hword : Keyword.ofName? (c :: tail) = none) :
    Spells (.identifier (String.ofList (c :: tail))) (c :: tail) := by
  have hname := forall_isNameChar_cons hc htail
  refine ⟨c, tail, rfl, fun rest hrest => ?_⟩
  rw [scan_name hc, scanName, ← List.cons_append,
    takeWhile_append_of_head hname hrest.not_isNameChar,
    dropWhile_append_of_head hname hrest.not_isNameChar]
  simp only [hword]

/-! ## All spellings -/

/-- The texts of tokens, with a rule for each kind of text. -/
inductive Spelling : TokenKind → List Char → Prop where
  | symbol (s : Symbol) : Spelling (.symbol s) [s.char]
  | arrow (op : EdgeOp) : Spelling (.edgeOp op) op.text.toList
  | quoted {body : List Char} :
      Quoted.Body body →
      Spelling (.string (String.ofList (Quoted.decode body))) ('"' :: (body ++ ['"']))
  | html {body : List Char} :
      Html.Nested 0 body → Spelling (.html (String.ofList body)) ('<' :: (body ++ ['>']))
  | numeral {n : Numeral} {value : Binary64} :
      n.Digital → n.value? = some value → Spelling (.number value) n.text
  | keyword {c : Char} {tail : List Char} {word : Keyword} :
      isNameStart c = true → (∀ d ∈ tail, isNameChar d = true) →
      Keyword.ofName? (c :: tail) = some word → Spelling (.keyword word) (c :: tail)
  | identifier {c : Char} {tail : List Char} :
      isNameStart c = true → (∀ d ∈ tail, isNameChar d = true) →
      Keyword.ofName? (c :: tail) = none →
      Spelling (.identifier (String.ofList (c :: tail))) (c :: tail)

variable {input text : List Char} {kind : TokenKind}

theorem Spelling.spells (h : Spelling kind text) : Spells kind text := by
  cases h with
  | symbol s => exact spells_symbol s
  | arrow op => exact spells_arrow op
  | quoted hbody => exact spells_quoted hbody
  | html hbody => exact spells_html hbody
  | numeral hn hvalue => exact spells_numeral hn hvalue
  | keyword hc htail hword => exact spells_keyword hc htail hword
  | identifier hc htail hword => exact spells_identifier hc htail hword

theorem spelling_of_scanQuoted (h : scanQuoted input = .token kind text rest) :
    Spelling kind text := by
  unfold scanQuoted at h
  split at h
  · rename_i body r hsplit
    obtain ⟨rfl, rfl, rfl⟩ := Lexeme.token.inj h
    exact .quoted (Quoted.split?_eq_some_iff.1 hsplit).1
  · exact nomatch h

theorem spelling_of_scanHtml (h : scanHtml input = .token kind text rest) :
    Spelling kind text := by
  unfold scanHtml at h
  split at h
  · rename_i body r hsplit
    obtain ⟨rfl, rfl, rfl⟩ := Lexeme.token.inj h
    exact .html (Html.split?_eq_some_iff.1 hsplit).1
  · exact nomatch h

theorem spelling_of_scanNumeral (h : scanNumeral input = .token kind text rest) :
    Spelling kind text := by
  have hdigital := Numeral.digital_scan input
  unfold scanNumeral at h
  split at h
  rename_i n rest' hscan
  rw [hscan] at hdigital
  split at h
  · rename_i value hvalue
    obtain ⟨rfl, rfl, rfl⟩ := Lexeme.token.inj h
    exact .numeral hdigital hvalue
  · exact nomatch h

theorem spelling_of_scanDash (h : scanDash input = .token kind text rest) :
    Spelling kind text := by
  revert h
  fun_cases scanDash input with
  | case1 =>
    intro h
    obtain ⟨rfl, rfl, rfl⟩ := Lexeme.token.inj h
    exact .arrow .directed
  | case2 =>
    intro h
    obtain ⟨rfl, rfl, rfl⟩ := Lexeme.token.inj h
    exact .arrow .undirected
  | case3 => exact spelling_of_scanNumeral
  | case4 => rintro ⟨⟩
  | case5 => rintro ⟨⟩

theorem spelling_of_scanName {c : Char} (hc : isNameStart c = true)
    (h : scanName (c :: input) = .token kind text rest) : Spelling kind text := by
  have htail : ∀ d ∈ input.takeWhile isNameChar, isNameChar d = true :=
    List.all_eq_true.1 List.all_takeWhile
  unfold scanName at h
  obtain ⟨rfl, rfl, rfl⟩ := Lexeme.token.inj h
  rw [List.takeWhile_cons_of_pos (isNameChar_of_isNameStart hc)]
  split
  · rename_i word hword
    exact .keyword hc htail hword
  · rename_i hword
    exact .identifier hc htail hword

theorem spelling_of_scan {c : Char} (h : scan c input = .token kind text rest) :
    Spelling kind text := by
  revert h
  fun_cases scan c input with
  | case1 s hs =>
    intro h
    obtain ⟨rfl, rfl, rfl⟩ := Lexeme.token.inj h
    rw [← Symbol.ofChar?_eq_some_iff.1 hs]
    exact .symbol s
  | case2 => exact spelling_of_scanQuoted
  | case3 => exact spelling_of_scanHtml
  | case4 => exact spelling_of_scanDash
  | case5 => exact spelling_of_scanNumeral
  | case6 _ _ _ _ _ hc => exact spelling_of_scanName hc
  | case7 => rintro ⟨⟩

/-- The rules give all texts that spell a token. -/
theorem spells_iff_spelling : Spells kind text ↔ Spelling kind text := by
  constructor
  · rintro ⟨first, tail, _, hscan⟩
    exact spelling_of_scan (hscan [] nofun)
  · exact Spelling.spells

theorem Spelling.ne_eof (h : Spelling kind text) : kind ≠ .eof := by
  cases h <;> exact nofun

theorem Spells.ne_eof (h : Spells kind text) : kind ≠ .eof :=
  (spells_iff_spelling.1 h).ne_eof

end Lexeme

end DotLang
