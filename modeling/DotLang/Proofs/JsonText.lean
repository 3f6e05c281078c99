import DotLang.Json
import DotLang.Proofs.NumberText

/-!
# Compact JSON determines the value

The compact text of a value can be read back: the first character tells the kind of the value, an
escaped character ends by itself, a number ends in front of a comma or a bracket, and the parts of
arrays and objects stand between commas. So two values whose numbers are finite and that have the
same text are the same, even with more text behind them.

* `Json.same`: equality of values, where numbers are compared as numbers.
* `Json.quote_append_inj`: a string between quotes ends by itself.
* `Json.compact_append_inj`: so does a value in front of what cannot go on with a number.
-/

namespace DotLang.Json

/-! ## Equality -/

mutual

/-- The same shape, strings and truth values, and numbers that are the same. -/
def same : Json → Json → Bool
  | null, null => true
  | bool a, bool b => a = b
  | number x, number y => x.same y
  | string s, string t => s = t
  | array vs, array ws => sameItems vs ws
  | object vs, object ws => sameFields vs ws
  | _, _ => false

def sameItems : List Json → List Json → Bool
  | [], [] => true
  | v :: vs, w :: ws => v.same w && sameItems vs ws
  | _, _ => false

def sameFields : List (String × Json) → List (String × Json) → Bool
  | [], [] => true
  | (name, v) :: vs, (name', w) :: ws => name = name' && v.same w && sameFields vs ws
  | _, _ => false

end

mutual

/-- The numbers in a value. -/
def numbers : Json → List Binary64
  | number x => [x]
  | array vs => itemNumbers vs
  | object vs => fieldNumbers vs
  | _ => []

def itemNumbers : List Json → List Binary64
  | [] => []
  | v :: vs => v.numbers ++ itemNumbers vs

def fieldNumbers : List (String × Json) → List Binary64
  | [] => []
  | (_, v) :: vs => v.numbers ++ fieldNumbers vs

end

/-! ## Strings -/

/-- The value of a digit of base sixteen. -/
def hexValue (c : Char) : Nat := if c.isDigit then c.toNat - 48 else c.toNat - 87

/-- The character in front of a text inside quotes, and the rest of the text. -/
def readEscaped : List Char → Option (Char × List Char)
  | '\\' :: 'b' :: rest => some ('\x08', rest)
  | '\\' :: 'f' :: rest => some ('\x0c', rest)
  | '\\' :: 'n' :: rest => some ('\n', rest)
  | '\\' :: 'r' :: rest => some ('\r', rest)
  | '\\' :: 't' :: rest => some ('\t', rest)
  | '\\' :: 'u' :: '0' :: '0' :: c :: d :: rest =>
    some (Char.ofNat (16 * hexValue c + hexValue d), rest)
  | '\\' :: c :: rest => some (c, rest)
  | c :: rest => some (c, rest)
  | [] => none

theorem hexValue_digitChar : ∀ n < 32,
    16 * hexValue (Nat.digitChar (n / 16)) + hexValue (Nat.digitChar (n % 16)) = n := by decide

/-- An escaped character is read back. -/
theorem readEscaped_escape (c : Char) (rest : List Char) :
    readEscaped (escape c ++ rest) = some (c, rest) := by
  unfold escape
  split
  case h_8 =>
    split
    · rename_i hcontrol
      show some (Char.ofNat _, rest) = _
      rw [hexValue_digitChar c.toNat hcontrol, Char.ofNat_toNat]
    · rename_i hbackslash _ _ _ _ _ _
      show readEscaped (c :: rest) = _
      unfold readEscaped
      split <;> simp_all
  all_goals rfl

theorem escape_append_inj {c d : Char} {rest rest' : List Char}
    (h : escape c ++ rest = escape d ++ rest') : c = d ∧ rest = rest' := by
  have hread := congrArg readEscaped h
  rw [readEscaped_escape, readEscaped_escape] at hread
  exact Prod.mk.inj (Option.some.inj hread)

/-- No escaped character begins with a quote. -/
theorem quote_ne_escape (c : Char) (rest rest' : List Char) :
    '"' :: rest ≠ escape c ++ rest' := by
  intro h
  have hread := congrArg readEscaped h
  rw [readEscaped_escape] at hread
  obtain ⟨rfl, -⟩ := Prod.mk.inj (Option.some.inj hread)
  exact nomatch h

theorem escaped_append_inj {s t rest rest' : List Char}
    (h : s.flatMap escape ++ '"' :: rest = t.flatMap escape ++ '"' :: rest') :
    s = t ∧ rest = rest' := by
  induction s generalizing t with
  | nil =>
    cases t with
    | nil => exact ⟨rfl, (List.cons.inj h).2⟩
    | cons d t =>
      rw [List.flatMap_cons, List.append_assoc] at h
      exact absurd h (quote_ne_escape d _ _)
  | cons c s ih =>
    rw [List.flatMap_cons, List.append_assoc] at h
    cases t with
    | nil => exact absurd h.symm (quote_ne_escape c _ _)
    | cons d t =>
      rw [List.flatMap_cons, List.append_assoc] at h
      obtain ⟨rfl, hrest⟩ := escape_append_inj h
      obtain ⟨rfl, hends⟩ := ih hrest
      exact ⟨rfl, hends⟩

theorem toList_quote (s : String) :
    (quote s).toList = '"' :: (s.toList.flatMap escape ++ ['"']) := by
  simp [quote]

/-- A string between quotes ends by itself. -/
theorem quote_append_inj {s t : String} {rest rest' : List Char}
    (h : (quote s).toList ++ rest = (quote t).toList ++ rest') : s = t ∧ rest = rest' := by
  simp only [toList_quote, List.cons_append, List.append_assoc, List.nil_append] at h
  obtain ⟨hchars, hrest⟩ := escaped_append_inj (List.cons.inj h).2
  exact ⟨String.toList_inj.1 hchars, hrest⟩

/-! ## Parts between commas -/

/-- What follows the first part of an array or object. -/
def furtherParts (closing : Char) : List String → List Char
  | [] => [closing]
  | part :: rest => ',' :: (part.toList ++ furtherParts closing rest)

theorem furtherParts_cons_append (closing : Char) (part : String) (parts : List String)
    (rest : List Char) :
    furtherParts closing (part :: parts) ++ rest =
      ',' :: (part.toList ++ (furtherParts closing parts ++ rest)) := by
  simp [furtherParts]

theorem toList_intercalate_cons (part : String) (parts : List String) (closing : Char) :
    (",".intercalate (part :: parts)).toList ++ [closing] =
      part.toList ++ furtherParts closing parts := by
  induction parts generalizing part with
  | nil => simp [furtherParts]
  | cons next parts ih =>
    rw [furtherParts, ← ih next]
    simp

/-- What cannot go on with a number. -/
def Delimited (rest : List Char) : Prop := ∀ c ∈ rest.head?, Binary64.isTextChar c = false

theorem delimited_furtherParts {closing : Char} (h : Binary64.isTextChar closing = false)
    (parts : List String) (rest : List Char) :
    Delimited (furtherParts closing parts ++ rest) := by
  cases parts with
  | nil => simpa [Delimited, furtherParts] using h
  | cons part parts =>
    intro c hc
    obtain rfl : ',' = c := by simpa [furtherParts] using hc
    decide

/-! ## The first character -/

/-- The number of the kind of a value. -/
def kind : Json → Nat
  | null => 0
  | bool _ => 1
  | number _ => 2
  | string _ => 3
  | array _ => 4
  | object _ => 5

/-- The kind of the values whose text begins with a character. -/
def kindOfChar? (c : Char) : Option Nat :=
  if c = 'n' then some 0
  else if c = 't' || c = 'f' then some 1
  else if c = '-' || c.isDigit then some 2
  else if c = '"' then some 3
  else if c = '[' then some 4
  else if c = '\x7b' then some 5
  else none

theorem kindOfChar?_number {c : Char} (h : c = '-' ∨ c.isDigit = true) :
    kindOfChar? c = some 2 := by
  have hne (d : Char) (hd : d ≠ '-' ∧ d.isDigit = false) : c ≠ d := by
    rintro rfl
    rcases h with h | h
    · exact hd.1 h
    · exact nomatch hd.2.symm.trans h
  simp [kindOfChar?, h, hne 'n' (by decide), hne 't' (by decide), hne 'f' (by decide)]

/-- The first character tells the kind. -/
theorem exists_head {v : Json} (hv : ∀ x ∈ v.numbers, x.isFinite = true) :
    ∃ c rest, v.compact.toList = c :: rest ∧ kindOfChar? c = some v.kind := by
  cases v with
  | null => exact ⟨'n', _, rfl, rfl⟩
  | bool value => cases value <;> exact ⟨_, _, rfl, rfl⟩
  | number x =>
    obtain ⟨⟨c, rest, hhead, hc⟩, -⟩ := Binary64.json_chars (hv x (by simp [numbers]))
    exact ⟨c, rest, hhead, kindOfChar?_number hc⟩
  | string s => exact ⟨'"', _, toList_quote s, rfl⟩
  | array vs => exact ⟨'[', _, by simp [compact]; rfl, rfl⟩
  | object vs => exact ⟨'\x7b', _, by simp [compact]; rfl, rfl⟩

theorem kind_eq_of_compact {v w : Json} {rest rest' : List Char}
    (hv : ∀ x ∈ v.numbers, x.isFinite = true) (hw : ∀ x ∈ w.numbers, x.isFinite = true)
    (h : v.compact.toList ++ rest = w.compact.toList ++ rest') : v.kind = w.kind := by
  obtain ⟨c, more, hhead, hc⟩ := exists_head hv
  obtain ⟨d, more', hhead', hd⟩ := exists_head hw
  rw [hhead, hhead'] at h
  rw [(List.cons.inj h).1, hd] at hc
  exact (Option.some.inj hc).symm

/-! ## Parts -/

theorem bracketed_append {opening closing : String} {c d : Char} (hopening : opening.toList = [c])
    (hclosing : closing.toList = [d]) (part : String) (parts : List String) (rest : List Char) :
    (opening ++ ",".intercalate (part :: parts) ++ closing).toList ++ rest =
      c :: (part.toList ++ (furtherParts d parts ++ rest)) := by
  rw [String.toList_append, String.toList_append, hopening, hclosing, List.append_assoc [c],
    toList_intercalate_cons, List.singleton_append, List.cons_append, List.append_assoc]

theorem array_nil_append (rest : List Char) :
    (array []).compact.toList ++ rest = '[' :: ']' :: rest := rfl

theorem array_cons_append (v : Json) (vs : List Json) (rest : List Char) :
    (array (v :: vs)).compact.toList ++ rest =
      '[' :: (v.compact.toList ++ (furtherParts ']' (compactItems vs) ++ rest)) := by
  rw [compact, compactItems]
  exact bracketed_append rfl rfl _ _ _

theorem object_nil_append (rest : List Char) :
    (object []).compact.toList ++ rest = '\x7b' :: '\x7d' :: rest := rfl

theorem object_cons_append (name : String) (v : Json) (vs : List (String × Json))
    (rest : List Char) :
    (object ((name, v) :: vs)).compact.toList ++ rest =
      '\x7b' :: ((quote name ++ ":" ++ v.compact).toList ++
        (furtherParts '\x7d' (compactFields vs) ++ rest)) := by
  rw [compact, compactFields]
  exact bracketed_append rfl rfl _ _ _

/-- No value begins like the end of an array. -/
theorem bracket_ne_compact {v : Json} (hv : ∀ x ∈ v.numbers, x.isFinite = true)
    (rest rest' : List Char) : ']' :: rest ≠ v.compact.toList ++ rest' := by
  obtain ⟨c, more, hhead, hc⟩ := exists_head hv
  intro h
  rw [hhead] at h
  rw [← (List.cons.inj h).1] at hc
  exact nomatch hc

/-- No field begins like the end of an object. -/
theorem brace_ne_field (name : String) (v : Json) (rest rest' : List Char) :
    '\x7d' :: rest ≠ (quote name ++ ":" ++ v.compact).toList ++ rest' := by
  intro h
  rw [String.toList_append, String.toList_append, toList_quote] at h
  exact nomatch (List.cons.inj h).1

/-- Arrays with the same text are compared from a comma on. -/
theorem items_of_array {vs ws : List Json} {rest rest' : List Char}
    (hv : ∀ x ∈ itemNumbers vs, x.isFinite = true) (hw : ∀ x ∈ itemNumbers ws, x.isFinite = true)
    (h : (array vs).compact.toList ++ rest = (array ws).compact.toList ++ rest') :
    furtherParts ']' (compactItems vs) ++ rest = furtherParts ']' (compactItems ws) ++ rest' := by
  cases vs with
  | nil =>
    cases ws with
    | nil => exact (List.cons.inj h).2
    | cons w ws =>
      rw [array_nil_append, array_cons_append] at h
      exact absurd (List.cons.inj h).2 (bracket_ne_compact (List.forall_mem_append.1 hw).1 _ _)
  | cons v vs =>
    cases ws with
    | nil =>
      rw [array_nil_append, array_cons_append] at h
      exact absurd (List.cons.inj h).2.symm
        (bracket_ne_compact (List.forall_mem_append.1 hv).1 _ _)
    | cons w ws =>
      rw [array_cons_append, array_cons_append] at h
      rw [compactItems, compactItems, furtherParts_cons_append, furtherParts_cons_append,
        (List.cons.inj h).2]

/-- Objects with the same text are compared from a comma on. -/
theorem fields_of_object {vs ws : List (String × Json)} {rest rest' : List Char}
    (h : (object vs).compact.toList ++ rest = (object ws).compact.toList ++ rest') :
    furtherParts '\x7d' (compactFields vs) ++ rest =
      furtherParts '\x7d' (compactFields ws) ++ rest' := by
  cases vs with
  | nil =>
    cases ws with
    | nil => exact (List.cons.inj h).2
    | cons w ws =>
      rw [object_nil_append, object_cons_append] at h
      exact absurd (List.cons.inj h).2 (brace_ne_field _ _ _ _)
  | cons v vs =>
    cases ws with
    | nil =>
      rw [object_nil_append, object_cons_append] at h
      exact absurd (List.cons.inj h).2.symm (brace_ne_field _ _ _ _)
    | cons w ws =>
      rw [object_cons_append, object_cons_append] at h
      rw [compactFields, compactFields, furtherParts_cons_append, furtherParts_cons_append,
        (List.cons.inj h).2]

/-! ## Values -/

theorem number_append_inj {x y : Binary64} {rest rest' : List Char} (hx : x.isFinite = true)
    (hy : y.isFinite = true) (hrest : Delimited rest) (hrest' : Delimited rest')
    (h : x.json.toList ++ rest = y.json.toList ++ rest') : x.same y = true ∧ rest = rest' := by
  have hchars := (Binary64.json_chars hx).2
  have hchars' := (Binary64.json_chars hy).2
  have htext := congrArg (List.takeWhile Binary64.isTextChar) h
  rw [takeWhile_append_of_head hchars hrest, takeWhile_append_of_head hchars' hrest'] at htext
  rw [htext] at h
  exact ⟨Binary64.same_of_json_eq hx hy (String.toList_inj.1 htext), List.append_cancel_left h⟩

theorem boolText_append_inj {a b : Bool} {rest rest' : List Char}
    (h : (boolText a).toList ++ rest = (boolText b).toList ++ rest') : a = b ∧ rest = rest' := by
  cases a <;> cases b <;> simp [boolText] at h ⊢ <;> exact h

mutual

/-- A value ends by itself in front of what cannot go on with a number. -/
theorem compact_append_inj (v w : Json) {rest rest' : List Char}
    (hv : ∀ x ∈ v.numbers, x.isFinite = true) (hw : ∀ x ∈ w.numbers, x.isFinite = true)
    (hrest : Delimited rest) (hrest' : Delimited rest')
    (h : v.compact.toList ++ rest = w.compact.toList ++ rest') :
    v.same w = true ∧ rest = rest' := by
  have hkind := kind_eq_of_compact hv hw h
  cases v with
  | null =>
    cases w with
    | null => exact ⟨rfl, List.append_cancel_left h⟩
    | _ => exact nomatch hkind
  | bool a =>
    cases w with
    | bool b =>
      obtain ⟨rfl, hends⟩ := boolText_append_inj h
      exact ⟨by simp [same], hends⟩
    | _ => exact nomatch hkind
  | number x =>
    cases w with
    | number y =>
      have hx := hv x (by simp [numbers])
      have hy := hw y (by simp [numbers])
      exact number_append_inj hx hy hrest hrest' h
    | _ => exact nomatch hkind
  | string s =>
    cases w with
    | string t =>
      obtain ⟨rfl, hends⟩ := quote_append_inj h
      exact ⟨by simp [same], hends⟩
    | _ => exact nomatch hkind
  | array vs =>
    cases w with
    | array ws => exact items_append_inj vs ws hv hw (items_of_array hv hw h)
    | _ => exact nomatch hkind
  | object vs =>
    cases w with
    | object ws => exact fields_append_inj vs ws hv hw (fields_of_object h)
    | _ => exact nomatch hkind

/-- So do the items of an array with a comma in front of each. -/
theorem items_append_inj (vs ws : List Json) {rest rest' : List Char}
    (hv : ∀ x ∈ itemNumbers vs, x.isFinite = true) (hw : ∀ x ∈ itemNumbers ws, x.isFinite = true)
    (h : furtherParts ']' (compactItems vs) ++ rest =
      furtherParts ']' (compactItems ws) ++ rest') :
    sameItems vs ws = true ∧ rest = rest' := by
  match vs, ws with
  | [], [] => exact ⟨rfl, (List.cons.inj h).2⟩
  | [], w :: ws => exact nomatch (List.cons.inj h).1
  | v :: vs, [] => exact nomatch (List.cons.inj h).1
  | v :: vs, w :: ws =>
    obtain ⟨hfirst, hmore⟩ := List.forall_mem_append.1 hv
    obtain ⟨hfirst', hmore'⟩ := List.forall_mem_append.1 hw
    rw [compactItems, compactItems, furtherParts_cons_append, furtherParts_cons_append] at h
    obtain ⟨hsame, hbehind⟩ := compact_append_inj v w hfirst hfirst'
      (delimited_furtherParts rfl _ _) (delimited_furtherParts rfl _ _) (List.cons.inj h).2
    obtain ⟨hrest, hends⟩ := items_append_inj vs ws hmore hmore' hbehind
    exact ⟨by rw [sameItems, hsame, hrest]; rfl, hends⟩

/-- So do the fields of an object with a comma in front of each. -/
theorem fields_append_inj (vs ws : List (String × Json)) {rest rest' : List Char}
    (hv : ∀ x ∈ fieldNumbers vs, x.isFinite = true)
    (hw : ∀ x ∈ fieldNumbers ws, x.isFinite = true)
    (h : furtherParts '\x7d' (compactFields vs) ++ rest =
      furtherParts '\x7d' (compactFields ws) ++ rest') :
    sameFields vs ws = true ∧ rest = rest' := by
  match vs, ws with
  | [], [] => exact ⟨rfl, (List.cons.inj h).2⟩
  | [], (name, w) :: ws => exact nomatch (List.cons.inj h).1
  | (name, v) :: vs, [] => exact nomatch (List.cons.inj h).1
  | (name, v) :: vs, (name', w) :: ws =>
    obtain ⟨hfirst, hmore⟩ := List.forall_mem_append.1 hv
    obtain ⟨hfirst', hmore'⟩ := List.forall_mem_append.1 hw
    rw [compactFields, compactFields, furtherParts_cons_append, furtherParts_cons_append] at h
    have hfield := (List.cons.inj h).2
    simp only [String.toList_append, List.append_assoc] at hfield
    obtain ⟨rfl, hcolon⟩ := quote_append_inj hfield
    obtain ⟨hsame, hbehind⟩ := compact_append_inj v w hfirst hfirst'
      (delimited_furtherParts rfl _ _) (delimited_furtherParts rfl _ _) (List.append_cancel_left hcolon)
    obtain ⟨hrest, hends⟩ := fields_append_inj vs ws hmore hmore' hbehind
    exact ⟨by rw [sameFields, hsame, hrest]; simp, hends⟩

end

/-- Values without other numbers than finite ones and with the same text are the same. -/
theorem same_of_compact_eq {v w : Json} (hv : ∀ x ∈ v.numbers, x.isFinite = true)
    (hw : ∀ x ∈ w.numbers, x.isFinite = true) (h : v.compact = w.compact) : v.same w = true :=
  (@compact_append_inj v w [] [] hv hw nofun nofun (by rw [h])).1

end DotLang.Json
