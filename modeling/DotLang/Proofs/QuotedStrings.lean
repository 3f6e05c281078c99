import DotLang.Proofs.ParserCalls
import DotLang.Proofs.Soundness
import DotLang.Proofs.Writing

/-!
# What quoted strings stand for

The text between two quotes falls into pieces: characters that are neither a quote nor a backslash,
and backslashes with the character behind them. The value of a string is told piece by piece, and a
text that does not end with a quote behind some pieces is not a string. Which values there are is
told without pieces; a string that is put together from others has such a value too.

* `Quoted.textOf`, `Quoted.valueOf`: the text and the value of some pieces.
* `Quoted.decode_textOf`: the decoder gives this value.
* `Parser.wellFormed_afterCalls`: a parser only ever looks at tokens that some text spells.
* `quoted_strings_decode`: the strings that a lexer reads, and the ids that a parser makes of them.
-/

namespace DotLang

open Lexeme

/-! ## Pieces -/

namespace Lexeme.Quoted

/-- A piece of the text between two quotes. -/
inductive Piece where
  | plain (c : Char) (hquote : c ≠ '"') (hback : c ≠ '\\')
  /-- A backslash, and any character behind it. -/
  | pair (c : Char)

def Piece.text : Piece → List Char
  | plain c _ _ => [c]
  | pair c => ['\\', c]

/-- The text of some pieces. -/
def textOf (pieces : List Piece) : List Char := pieces.flatMap Piece.text

/-- The value of some pieces. A backslash hides a quote and takes away the line break behind it, be
it a line feed or a carriage return with a line feed. All else stands for itself. -/
def valueOf : List Piece → List Char
  | .pair '"' :: pieces => '"' :: valueOf pieces
  | .pair '\n' :: pieces => valueOf pieces
  | .pair '\r' :: .plain '\n' _ _ :: pieces => valueOf pieces
  | piece :: pieces => piece.text ++ valueOf pieces
  | [] => []

theorem textOf_cons (piece : Piece) (pieces : List Piece) :
    textOf (piece :: pieces) = piece.text ++ textOf pieces := rfl

/-- What may stand between two quotes falls into pieces. -/
theorem body_iff {body : List Char} : Body body ↔ ∃ pieces, body = textOf pieces := by
  constructor
  · intro h
    induction h with
    | nil => exact ⟨[], rfl⟩
    | @pair c body _ ih =>
      obtain ⟨pieces, rfl⟩ := ih
      exact ⟨.pair c :: pieces, rfl⟩
    | @plain c body hquote hback _ ih =>
      obtain ⟨pieces, rfl⟩ := ih
      exact ⟨.plain c hquote hback :: pieces, rfl⟩
  · rintro ⟨pieces, rfl⟩
    induction pieces with
    | nil => exact .nil
    | cons piece pieces ih =>
      cases piece with
      | plain c hquote hback => exact .plain hquote hback ih
      | pair c => exact .pair ih

/-- A line feed at the start of the text is a piece of its own. -/
theorem exists_plain_feed {pieces : List Piece} {tail : List Char}
    (h : textOf pieces = '\n' :: tail) :
    ∃ hquote hback pieces', pieces = .plain '\n' hquote hback :: pieces' := by
  cases pieces with
  | nil => cases h
  | cons piece pieces =>
    cases piece with
    | plain c hquote hback =>
      obtain ⟨rfl, -⟩ := List.cons.inj h
      exact ⟨hquote, hback, pieces, rfl⟩
    | pair c =>
      obtain ⟨hc, -⟩ := List.cons.inj h
      exact absurd hc (by decide)

/-- The decoder gives the value of the pieces. -/
theorem decode_textOf (pieces : List Piece) : decode (textOf pieces) = valueOf pieces := by
  fun_induction valueOf pieces with
  | case1 pieces ih => exact congrArg ('"' :: ·) ih
  | case2 pieces ih => exact ih
  | case3 pieces hquote hback ih => exact ih
  | case4 piece pieces hquote hfeed hreturn ih =>
    cases piece with
    | plain c hc hback =>
      rw [textOf_cons, Piece.text, List.singleton_append, decode_plain hback, ih]
      rfl
    | pair c =>
      have hbreak (tail : List Char) : c = '\r' → textOf pieces ≠ '\n' :: tail := by
        rintro rfl htail
        obtain ⟨hc, hback, pieces', rfl⟩ := exists_plain_feed htail
        exact hreturn hc hback pieces' rfl rfl
      rw [textOf_cons, Piece.text, List.cons_append, List.singleton_append,
        decode_pair (fun h => hquote (h ▸ rfl)) (fun h => hfeed (h ▸ rfl)) hbreak, ih]
      rfl
  | case5 => rfl

end Lexeme.Quoted

/-! ## Reading a string -/

namespace Cursor

open Quoted

variable {c : Cursor} {input : List Char}

theorem scan_quote (input : List Char) : scan '"' input = scanQuoted input := rfl

/-- In front of a quote there is neither a blank nor a comment. -/
theorem head_quote (lineStart : Bool) (input : List Char) :
    Trivia.head lineStart ('"' :: input) = .absent :=
  Trivia.head_of_ne rfl (by decide) (by decide) _ _

/-- A string is read up to the quote behind the pieces. -/
theorem next_of_pieces {pieces : List Piece} {rest : List Char}
    (h : c.rest = '"' :: (textOf pieces ++ '"' :: rest)) :
    c.next = (.ok ⟨.string (String.ofList (valueOf pieces)),
      String.ofList ('"' :: (textOf pieces ++ ['"'])), c.pos⟩,
      c.skip ('"' :: (textOf pieces ++ ['"'])) rest) := by
  obtain ⟨_, pos⟩ := c
  obtain rfl := h
  refine next_of_absent (head_quote _ _) ?_
  have hsplit : split? (textOf pieces ++ '"' :: rest) = some (textOf pieces, rest) :=
    split?_eq_some_iff.2 ⟨body_iff.2 ⟨pieces, rfl⟩, rfl⟩
  rw [scan_quote, scanQuoted, hsplit]
  simp only [decode_textOf]

/-- A text that does not go on with some pieces and a quote is no string. All of it is passed. -/
theorem next_of_no_pieces (h : c.rest = '"' :: input)
    (hinput : ∀ pieces rest, input ≠ textOf pieces ++ '"' :: rest) :
    c.next = (.error ⟨.unterminatedString, c.pos⟩, c.toEnd) := by
  obtain ⟨_, pos⟩ := c
  obtain rfl := h
  refine next_of_fault (head_quote _ _) ?_
  have hsplit : split? input = none := by
    rw [Option.eq_none_iff_forall_ne_some]
    rintro ⟨body, rest⟩ hsome
    obtain ⟨hbody, rfl⟩ := split?_eq_some_iff.1 hsome
    obtain ⟨pieces, rfl⟩ := body_iff.1 hbody
    exact hinput pieces rest rfl
  rw [scan_quote, scanQuoted, hsplit]

/-- The tokens that are read have well-formed values. -/
theorem wellFormed_of_next {c c' : Cursor} {token : Token} (h : c.next = (.ok token, c')) :
    token.kind.WellFormed := by
  rcases next_cases h with ⟨heof, -⟩ | hspells
  · rw [heof]
    trivial
  · exact wellFormed_of_spells hspells

/-- The values of the strings that are read. -/
theorem exists_next_string_iff {v : String} :
    (∃ (c : Cursor) (text : String) (pos : Position), c.next.1 = .ok ⟨.string v, text, pos⟩) ↔
      Value v.toList := by
  constructor
  · rintro ⟨c, text, pos, h⟩
    exact wellFormed_of_next (Prod.ext h rfl : c.next = (_, c.next.2))
  · intro h
    obtain ⟨pieces, hpieces⟩ := body_iff.1 (body_encode h)
    have hvalue : valueOf pieces = v.toList := by
      rw [← decode_textOf, ← hpieces, decode_encode h]
    have hnext := @next_of_pieces ⟨'"' :: (textOf pieces ++ ['"']), .start⟩ pieces [] rfl
    rw [hvalue, String.ofList_toList] at hnext
    exact ⟨_, _, _, congrArg Prod.fst hnext⟩

theorem wellFormed_of_mem_items {token : Token} (h : token ∈ c.readAll.items) :
    token.kind.WellFormed := by
  unfold Run.items at h
  cases hending : c.readAll.ending with
  | error e =>
    rw [hending] at h
    exact wellFormed_of_spells (spells_of_mem_tokens h)
  | ok last =>
    rw [hending] at h
    rcases List.mem_append.1 h with h | h
    · exact wellFormed_of_spells (spells_of_mem_tokens h)
    · obtain rfl := List.mem_singleton.1 h
      rw [kind_of_ending hending]
      trivial

end Cursor

/-! ## The tokens that a parser looks at -/

namespace Parser

open Grammar

variable {p : Parser}

theorem wellFormed_lex (p : Parser) (h : p.current.kind.WellFormed) :
    p.lex.2.current.kind.WellFormed := by
  unfold lex
  split
  · rename_i token lexer hnext
    simp only [Lexer.next, Prod.mk.injEq] at hnext
    exact Cursor.wellFormed_of_next (Prod.ext hnext.1 rfl : p.lexer.cursor.next = (_, _))
  · exact h

/-- Whatever a parser is asked for, the token that it looks at has a well-formed value. -/
theorem wellFormed_afterCalls (source : String) (options : ParseOptions) (calls : List Call) :
    ((ofString source options).afterCalls calls).current.kind.WellFormed := by
  have hkept : Kept fun p => p.current.kind.WellFormed := ⟨wellFormed_lex, fun _ h => h⟩
  have hstart : (ofString source options).current.kind.WellFormed := trivial
  exact hkept.afterCalls hstart calls

/-- The tokens that a parser will look at have well-formed values. -/
theorem wellFormed_of_mem_upcoming (h : p.current.kind.WellFormed) {kind : TokenKind}
    (hkind : kind ∈ p.upcoming.kinds) : kind.WellFormed := by
  obtain ⟨token, htoken, rfl⟩ := List.mem_map.1 hkind
  unfold upcoming at htoken
  split at htoken
  · obtain rfl := List.mem_singleton.1 htoken
    exact h
  · rw [Cursor.Run.items_cons] at htoken
    rcases List.mem_cons.1 htoken with rfl | htoken
    · exact h
    · exact Cursor.wellFormed_of_mem_items htoken

/-- Behind a string an id ends in front of the first token if that is no plus sign. -/
theorem ne_plus_of_feed_string {slot : Slot .id .id} {w : String} {i : Id} {d : Nat}
    {left : List TokenKind} (h : (State.string w slot).feed d left = .finished i left) :
    ∃ kind rest, left = kind :: rest ∧ kind ≠ .symbol .plus := by
  cases left with
  | nil => cases State.feed_nil.symm.trans h
  | cons kind rest =>
    refine ⟨kind, rest, rfl, ?_⟩
    rintro rfl
    -- behind a plus sign no more is left than stands there
    have := @State.length_left_le _ d (.plus w slot) rest
    rw [State.Shifts.plus.feed_cons] at h
    rw [h, Outcome.left, List.length_cons] at this
    omega

/-- An id that begins with a string is put together from strings, up to the first token behind a
string that is no plus sign. -/
theorem readId_eq_ok_iff {v : String} (hv : p.current.kind = .string v) {i : Id} :
    p.readId.1 = .ok i ↔ ∃ kinds kind rest w, i = .name w ∧
      p.upcoming.kinds = kinds ++ kind :: rest ∧ DerivesString kinds w ∧
        kind ≠ .symbol .plus := by
  have hexplains := p.run_explains (.id .top)
  constructor
  · intro h
    rw [show (p.run (.id .top)).1 = .ok i from h] at hexplains
    obtain ⟨left, hfeed⟩ := hexplains.eq_finished
    have hnil : [] ∈ (State.id .top : State .id).before p.options.maxDepth :=
      (Language.mem_one []).2 rfl
    obtain ⟨kinds, hkinds, hderives⟩ := State.mem_language_of_feed hfeed hnil
    obtain ⟨more, hmore⟩ := p.items_upcoming
    have hhead : p.upcoming.kinds = .string v :: more.map Token.kind := by
      rw [Cursor.Run.kinds, hmore, List.map_cons, hv]
    rw [hkinds] at hhead
    rw [List.nil_append] at hderives
    cases mem_tokens.1 hderives with
    | identifier => cases hhead
    | number => cases hhead
    | html => cases hhead
    | @string kinds w hstring =>
      rw [hkinds, State.feed_string hstring] at hfeed
      obtain ⟨kind, rest, rfl, hkind⟩ := ne_plus_of_feed_string hfeed
      exact ⟨kinds, kind, rest, w, rfl, hkinds, hstring, hkind⟩
  · rintro ⟨kinds, kind, rest, w, rfl, hkinds, hstring, hkind⟩
    have hfeed : (State.id .top : State .id).feed p.options.maxDepth p.upcoming.kinds =
        .finished (.name w) (kind :: rest) := by
      rw [hkinds, State.feed_id (.string hstring) (.cons hkind)]
      exact State.feed_of_finish rfl
    rw [hfeed] at hexplains
    exact hexplains.eq_ok

end Parser

open Quoted

/-- Behind a quote a lexer looks for some pieces and another quote. If they are there it gives a
string, with the value of the pieces, and stops behind the second quote; if not, the string has no
end, and all of the text is passed. The values of strings are the texts without a backslash that
stands last or in front of a quote or of a line feed. Put together, two of them are such a value
again; so is an id that a parser makes of strings with plus signs between them. -/
theorem quoted_strings_decode :
    (∀ (l : Lexer) (pieces : List Piece) (rest : List Char),
      l.cursor.rest = '"' :: (textOf pieces ++ '"' :: rest) →
        let text := '"' :: (textOf pieces ++ ['"'])
        l.next = (.ok ⟨.string (String.ofList (valueOf pieces)), String.ofList text, l.cursor.pos⟩,
          { l with cursor := ⟨rest, l.cursor.pos.after text⟩ })) ∧
    (∀ (l : Lexer) (input : List Char), l.cursor.rest = '"' :: input →
      (∀ pieces rest, input ≠ textOf pieces ++ '"' :: rest) →
        l.next = (.error ⟨.unterminatedString, l.cursor.pos⟩,
          { l with cursor := ⟨[], l.cursor.pos.after ('"' :: input)⟩ })) ∧
    (∀ v : String,
      (∃ (l : Lexer) (text : String) (pos : Position), l.next.1 = .ok ⟨.string v, text, pos⟩) ↔
        Value v.toList) ∧
    (∀ v w : String, Value v.toList → Value w.toList → Value (v ++ w).toList) ∧
    ∀ (source : String) (options : ParseOptions) (calls : List Parser.Call) (v : String) (i : Id),
      let p := (Parser.ofString source options).afterCalls calls
      p.current.kind = .string v →
        (p.readId.1 = .ok i ↔ ∃ kinds kind rest w, i = .name w ∧ Value w.toList ∧
          p.upcoming.kinds = kinds ++ kind :: rest ∧ Grammar.DerivesString kinds w ∧
            kind ≠ .symbol .plus) := by
  refine ⟨fun l pieces rest h => ?_, fun l input h hinput => ?_, fun v => ?_, fun v w hv hw => ?_,
    fun source options calls v i => ?_⟩
  · rw [Lexer.next, Cursor.next_of_pieces h]
    rfl
  · rw [Lexer.next, Cursor.next_of_no_pieces h hinput, Cursor.toEnd, h]
    rfl
  · rw [← Cursor.exists_next_string_iff]
    constructor
    · rintro ⟨l, text, pos, h⟩
      exact ⟨l.cursor, text, pos, h⟩
    · rintro ⟨c, text, pos, h⟩
      exact ⟨⟨c.rest, c, false⟩, text, pos, h⟩
  · rw [String.toList_append]
    exact hv.append hw
  · intro p hv
    rw [Parser.readId_eq_ok_iff hv]
    constructor
    · rintro ⟨kinds, kind, rest, w, hw, hkinds, hstring, hkind⟩
      refine ⟨kinds, kind, rest, w, hw, hstring.wellFormed fun k hk => ?_, hkinds, hstring, hkind⟩
      apply Parser.wellFormed_of_mem_upcoming (Parser.wellFormed_afterCalls source options calls)
      rw [hkinds]
      exact List.mem_append_left _ hk
    · rintro ⟨kinds, kind, rest, w, hw, -, hkinds, hstring, hkind⟩
      exact ⟨kinds, kind, rest, w, hw, hkinds, hstring, hkind⟩

end DotLang
