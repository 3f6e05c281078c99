import DotLang.Proofs.Places
import DotLang.Proofs.Reading
import DotLang.Proofs.TokenSequence

/-!
# A text in front of further lines

The tokens of a text stay as they are if further lines stand behind it: a line feed ends every
token, and a line comment that the end of the text ended. And the lines behind it are read as if
nothing stood in front of them, only further down.

* `Cursor.readAll_followedBy`: the tokens of a text, and behind them those of the further lines.
* `Cursor.readAll_down`: reading further down is the same but for the places.
-/

namespace DotLang

variable {more : List Char}

/-! ## Lexemes in front of a line feed -/

section Beginnings

variable {p : Char → Bool} {input : List Char}

theorem takeWhile_append_feed (hp : p '\n' = false) :
    (input ++ '\n' :: more).takeWhile p = input.takeWhile p := by
  induction input with
  | nil => simp [hp]
  | cons c input ih => by_cases hc : p c = true <;> simp [hc, ih]

theorem dropWhile_append_feed (hp : p '\n' = false) :
    (input ++ '\n' :: more).dropWhile p = input.dropWhile p ++ '\n' :: more := by
  induction input with
  | nil => simp [hp]
  | cons c input ih => by_cases hc : p c = true <;> simp [hc, ih]

end Beginnings

namespace Numeral

variable {input rest : List Char} {n : Numeral}

theorem scanUnsigned_append_feed {negative : Bool} (h : scanUnsigned negative input = (n, rest)) :
    scanUnsigned negative (input ++ '\n' :: more) = (n, rest ++ '\n' :: more) := by
  unfold scanUnsigned at h ⊢
  rw [takeWhile_append_feed rfl, dropWhile_append_feed rfl]
  split at h
  · rename_i tail htail
    obtain ⟨rfl, rfl⟩ := Prod.mk.inj h
    rw [htail]
    simp only [List.cons_append, takeWhile_append_feed (p := Char.isDigit) rfl,
      dropWhile_append_feed (p := Char.isDigit) rfl]
  · rename_i hpoint
    obtain ⟨rfl, rfl⟩ := Prod.mk.inj h
    split
    · -- a point would have to stand in front of the line feed
      rename_i tail htail
      cases hdrop : input.dropWhile Char.isDigit with
      | nil =>
        rw [hdrop] at htail
        exact nomatch htail
      | cons c rest =>
        rw [hdrop] at htail
        obtain ⟨rfl, -⟩ := List.cons.inj htail
        exact absurd hdrop (hpoint rest)
    · rfl

theorem scan_append_feed (h : scan input = (n, rest)) :
    scan (input ++ '\n' :: more) = (n, rest ++ '\n' :: more) := by
  revert h
  fun_cases scan input with
  | case1 tail => exact scanUnsigned_append_feed
  | case2 =>
    rename_i hsign
    intro h
    rw [scan]
    · exact scanUnsigned_append_feed h
    · intro tail htail
      cases input with
      | nil => cases htail
      | cons c rest =>
        obtain ⟨rfl, -⟩ := List.cons.inj htail
        exact hsign rest rfl

end Numeral

namespace Lexeme

variable {input text rest : List Char} {kind : TokenKind}

theorem scanQuoted_append_feed (h : scanQuoted input = .token kind text rest) :
    scanQuoted (input ++ '\n' :: more) = .token kind text (rest ++ '\n' :: more) := by
  unfold scanQuoted at h
  split at h
  · rename_i body tail hsplit
    obtain ⟨rfl, rfl, rfl⟩ := Lexeme.token.inj h
    obtain ⟨hbody, rfl⟩ := Quoted.split?_eq_some_iff.1 hsplit
    have hmore : Quoted.split? (body ++ '"' :: tail ++ '\n' :: more) =
        some (body, tail ++ '\n' :: more) :=
      Quoted.split?_eq_some_iff.2 ⟨hbody, by rw [List.append_assoc, List.cons_append]⟩
    rw [scanQuoted, hmore]
  · cases h

theorem scanHtml_append_feed (h : scanHtml input = .token kind text rest) :
    scanHtml (input ++ '\n' :: more) = .token kind text (rest ++ '\n' :: more) := by
  unfold scanHtml at h
  split at h
  · rename_i body tail hsplit
    obtain ⟨rfl, rfl, rfl⟩ := Lexeme.token.inj h
    obtain ⟨hbody, rfl⟩ := Html.split?_eq_some_iff.1 hsplit
    have hmore : Html.split? 0 (body ++ '>' :: tail ++ '\n' :: more) =
        some (body, tail ++ '\n' :: more) :=
      Html.split?_eq_some_iff.2 ⟨hbody, by rw [List.append_assoc, List.cons_append]⟩
    rw [scanHtml, hmore]
  · cases h

theorem scanNumeral_append_feed (h : scanNumeral input = .token kind text rest) :
    scanNumeral (input ++ '\n' :: more) = .token kind text (rest ++ '\n' :: more) := by
  unfold scanNumeral at h ⊢
  cases hscan : Numeral.scan input with
  | mk n tail =>
    rw [hscan] at h
    rw [Numeral.scan_append_feed hscan]
    simp only [] at h ⊢
    split at h
    · rename_i value hvalue
      obtain ⟨rfl, rfl, rfl⟩ := Lexeme.token.inj h
      rfl
    · exact nomatch h

theorem scanDash_append_feed (h : scanDash input = .token kind text rest) :
    scanDash (input ++ '\n' :: more) = .token kind text (rest ++ '\n' :: more) := by
  revert h
  fun_cases scanDash input with
  | case1 =>
    intro h
    obtain ⟨rfl, rfl, rfl⟩ := Lexeme.token.inj h
    rfl
  | case2 =>
    intro h
    obtain ⟨rfl, rfl, rfl⟩ := Lexeme.token.inj h
    rfl
  | case3 c tail harrow hdash hc =>
    intro h
    rw [List.cons_append, scanDash, if_pos hc]
    · exact scanNumeral_append_feed h
    · exact harrow
    · exact hdash
  | case4 => rintro ⟨⟩
  | case5 => rintro ⟨⟩

theorem scanName_append_feed (h : scanName input = .token kind text rest) :
    scanName (input ++ '\n' :: more) = .token kind text (rest ++ '\n' :: more) := by
  unfold scanName at h ⊢
  obtain ⟨rfl, rfl, rfl⟩ := Lexeme.token.inj h
  rw [takeWhile_append_feed rfl, dropWhile_append_feed rfl]

/-- A token in front of a line feed stays as it is. -/
theorem scan_append_feed {c : Char} (h : scan c input = .token kind text rest) :
    scan c (input ++ '\n' :: more) = .token kind text (rest ++ '\n' :: more) := by
  revert h
  unfold scan
  split
  · intro h
    obtain ⟨rfl, rfl, rfl⟩ := Lexeme.token.inj h
    rfl
  · split_ifs
    · exact scanQuoted_append_feed
    · exact scanHtml_append_feed
    · exact scanDash_append_feed
    · exact scanNumeral_append_feed
    · exact scanName_append_feed
    · rintro ⟨⟩

end Lexeme

/-! ## Blanks and comments in front of a line feed -/

namespace Trivia

theorem EndsLine.append_feed {rest : List Char} (h : EndsLine rest) :
    EndsLine (rest ++ '\n' :: more) := by
  cases rest with
  | nil =>
    rintro c ⟨rfl⟩
    rfl
  | cons d rest => exact h

theorem Piece.append_feed {p : Position} {text rest : List Char} (h : Piece p text rest) :
    Piece p text (rest ++ '\n' :: more) := by
  cases h with
  | blank hc => exact .blank hc
  | line htext hrest => exact .line htext hrest.append_feed
  | block htext => exact .block htext
  | hash hstart htext hrest => exact .hash hstart htext hrest.append_feed

theorem head_passed_append_feed {p : Position} {input text rest : List Char}
    (h : head p.IsLineStart input = .passed text rest) :
    head p.IsLineStart (input ++ '\n' :: more) = .passed text (rest ++ '\n' :: more) := by
  obtain ⟨hpiece, rfl⟩ := head_eq_passed_iff.1 h
  exact head_eq_passed_iff.2 ⟨hpiece.append_feed, List.append_assoc _ _ _⟩

theorem head_absent_append_feed {lineStart : Bool} {input : List Char} (hinput : input ≠ [])
    (h : head lineStart input = .absent) : head lineStart (input ++ '\n' :: more) = .absent := by
  revert h
  fun_cases head lineStart input with
  | case1 => exact absurd rfl hinput
  | case7 c rest hline hblock hblank hhash =>
    -- what stands behind the first character is the same, or the line feed
    have hsecond (d : Char) (tail : List Char) (hd : d ≠ '\n')
        (hrest : rest ++ '\n' :: more = d :: tail) : ∃ tail', rest = d :: tail' := by
      cases rest with
      | nil => exact absurd (List.cons.inj hrest).1.symm hd
      | cons e rest =>
        obtain ⟨rfl, -⟩ := List.cons.inj hrest
        exact ⟨rest, rfl⟩
    intro _
    rw [List.cons_append, head, if_neg hblank, if_neg hhash]
    · intro tail hc hrest
      obtain ⟨tail', htail⟩ := hsecond _ _ (by decide) hrest
      exact hline tail' hc htail
    · intro tail hc hrest
      obtain ⟨tail', htail⟩ := hsecond _ _ (by decide) hrest
      exact hblock tail' hc htail
  | _ => rintro ⟨⟩

end Trivia

/-! ## Reading in front of further lines -/

namespace Cursor

open Lexeme Trivia

variable {c c' : Cursor} {token : Token}

/-- The same place, with a line feed and further text behind the text. -/
def followedBy (more : List Char) (c : Cursor) : Cursor := ⟨c.rest ++ '\n' :: more, c.pos⟩

theorem next_followedBy_token (h : c.next = (.ok token, c')) (hkind : token.kind ≠ .eof) :
    (c.followedBy more).next = (.ok token, c'.followedBy more) := by
  fun_induction next c with
  | case1 c text rest hhead ih =>
    have hmore : head (c.followedBy more).pos.IsLineStart (c.followedBy more).rest =
        .passed text (rest ++ '\n' :: more) := head_passed_append_feed hhead
    rw [next_of_passed hmore]
    exact ih h
  | case2 => cases h
  | case3 =>
    obtain rfl := Except.ok.inj (Prod.mk.inj h).1
    exact absurd rfl hkind
  | case4 c hhead first input hrest kind text rest hscan =>
    obtain ⟨hok, rfl⟩ := Prod.mk.inj h
    obtain rfl := Except.ok.inj hok
    obtain ⟨_, pos⟩ := c
    obtain rfl := hrest
    exact next_of_absent (head_absent_append_feed (List.cons_ne_nil _ _) hhead)
      (scan_append_feed hscan)
  | case5 => cases h

theorem next_followedBy_eof (h : c.next = (.ok token, c')) (hkind : token.kind = .eof) :
    (c.followedBy more).next = next ⟨more, token.pos.next '\n'⟩ := by
  fun_induction next c with
  | case1 c text rest hhead ih =>
    have hmore : head (c.followedBy more).pos.IsLineStart (c.followedBy more).rest =
        .passed text (rest ++ '\n' :: more) := head_passed_append_feed hhead
    rw [next_of_passed hmore]
    exact ih h
  | case2 => cases h
  | case3 c hhead hrest =>
    obtain rfl := Except.ok.inj (Prod.mk.inj h).1
    rw [followedBy, hrest]
    exact next_blank rfl
  | case4 c hhead first input hrest kind text rest hscan =>
    obtain rfl := Except.ok.inj (Prod.mk.inj h).1
    exact absurd hkind (spelling_of_scan hscan).ne_eof
  | case5 => cases h

theorem readAll_eq_of_next {d : Cursor} (h : c.next = d.next) : c.readAll = d.readAll := by
  cases hd : d.next with
  | mk result d' =>
    rw [hd] at h
    cases result with
    | error e => rw [readAll_of_error h, readAll_of_error hd]
    | ok token =>
      by_cases hkind : token.kind = .eof
      · rw [readAll_of_eof h hkind, readAll_of_eof hd hkind]
      · rw [readAll_of_token h hkind, readAll_of_token hd hkind]

/-- A text with further lines behind it has its own tokens, and those of the further lines. -/
theorem readAll_followedBy {last : Token} (h : c.readAll.ending = .ok last) :
    (c.followedBy more).readAll =
      ⟨c.readAll.tokens ++ (readAll ⟨more, last.pos.next '\n'⟩).tokens,
        (readAll ⟨more, last.pos.next '\n'⟩).ending,
        (readAll ⟨more, last.pos.next '\n'⟩).cursor⟩ := by
  fun_induction readAll c with
  | case1 c e c' hnext => cases h
  | case2 c token c' hnext hkind =>
    obtain rfl := Except.ok.inj h
    exact readAll_eq_of_next (next_followedBy_eof hnext hkind)
  | case3 c first c' hnext hkind run ih =>
    rw [readAll_of_token (next_followedBy_token hnext hkind) hkind, ih h]
    rfl

/-- The end of input is reported behind the text. -/
theorem pos_of_ending {last : Token} (h : c.readAll.ending = .ok last) :
    last.pos = c.pos.after c.rest := by
  fun_induction readAll c with
  | case1 c e c' hnext => cases h
  | case2 c token c' hnext hkind =>
    obtain rfl := Except.ok.inj h
    have hreads := c.next_reads
    rw [hnext] at hreads
    cases hreads with
    | eof => rfl
    | token _ _ hspell => exact absurd hkind hspell.ne_eof
  | case3 c first c' hnext hkind run ih =>
    have hreads := c.next_reads
    rw [hnext] at hreads
    obtain ⟨passed, hrest, hpos⟩ := hreads.exists_passed
    rw [ih h, hpos, hrest, Position.after_append]

end Cursor

/-! ## Further down -/

def Token.down (lines : Nat) (token : Token) : Token := { token with pos := token.pos.down lines }

def LexError.down (lines : Nat) (e : LexError) : LexError := { e with pos := e.pos.down lines }

/-- The same error, `lines` lines further down. -/
def Error.down (lines : Nat) : Error → Error
  | lexical e => lexical (e.down lines)
  | grammatical e => grammatical { e with pos := e.pos.down lines }

namespace Cursor

variable {lines : Nat}

def down (lines : Nat) (c : Cursor) : Cursor := { c with pos := c.pos.down lines }

/-- What is read `lines` lines further down. -/
def downResult (lines : Nat) : Except LexError Token → Except LexError Token
  | .ok token => .ok (token.down lines)
  | .error e => .error (e.down lines)

theorem skip_down (c : Cursor) (text rest : List Char) :
    (c.down lines).skip text rest = (c.skip text rest).down lines := by
  rw [skip, down, Position.after_down]
  rfl

theorem next_down (c : Cursor) :
    (c.down lines).next = (downResult lines c.next.1, c.next.2.down lines) := by
  fun_induction next c with
  | case1 c text rest hhead ih =>
    have hdown : Trivia.head (c.down lines).pos.IsLineStart (c.down lines).rest =
        .passed text rest := hhead
    rw [next_of_passed hdown, skip_down, ih]
  | case2 c hhead =>
    have hdown : Trivia.head (c.down lines).pos.IsLineStart (c.down lines).rest =
        .unclosed := hhead
    rw [next_of_unclosed hdown, toEnd, skip_down]
    rfl
  | case3 c hhead hrest =>
    obtain ⟨_, pos⟩ := c
    obtain rfl := hrest
    exact next_nil _
  | case4 c hhead first input hrest kind text rest hscan =>
    obtain ⟨_, pos⟩ := c
    obtain rfl := hrest
    have hnext := @next_of_absent (pos.down lines) _ _ _ _ _ hhead hscan
    rw [Position.after_down] at hnext
    exact hnext
  | case5 c hhead first input hrest fault text rest hscan =>
    obtain ⟨_, pos⟩ := c
    obtain rfl := hrest
    have hnext := @next_of_fault (pos.down lines) _ _ _ _ _ hhead hscan
    rw [Position.after_down] at hnext
    exact hnext

/-- Further down the same is read, but for the places. -/
theorem readAll_down (c : Cursor) :
    (c.down lines).readAll =
      ⟨c.readAll.tokens.map (Token.down lines), downResult lines c.readAll.ending,
        c.readAll.cursor.down lines⟩ := by
  fun_induction readAll c with
  | case1 c e c' hnext =>
    have hdown : (c.down lines).next = (.error (e.down lines), c'.down lines) := by
      rw [next_down, hnext]
      rfl
    exact readAll_of_error hdown
  | case2 c last c' hnext hkind =>
    have hdown : (c.down lines).next = (.ok (last.down lines), c'.down lines) := by
      rw [next_down, hnext]
      rfl
    exact readAll_of_eof hdown hkind
  | case3 c first c' hnext hkind run ih =>
    have hdown : (c.down lines).next = (.ok (first.down lines), c'.down lines) := by
      rw [next_down, hnext]
      rfl
    rw [readAll_of_token hdown hkind, ih]
    rfl

end Cursor

/-! ## Texts -/

namespace Lexer

theorem dropMark_append_feed (s t : List Char) :
    dropMark (s ++ '\n' :: t) = dropMark s ++ '\n' :: t := by
  cases s with
  | nil => rfl
  | cons c s =>
    by_cases hc : c = '\ufeff'
    · rw [hc]
      rfl
    · rw [List.cons_append, dropMark, dropMark, List.cons_append]
      all_goals
        intro rest h
        exact hc (List.cons.inj h).1

theorem dropMark_of_head {s : List Char} (h : s.head? ≠ some '\ufeff') : dropMark s = s := by
  unfold dropMark
  split
  · exact absurd rfl h
  · rfl

theorem count_feed_dropMark (s : List Char) : (dropMark s).count '\n' = s.count '\n' := by
  unfold dropMark
  split
  · rfl
  · rfl

/-- The tokens of two texts with a line feed between them. -/
theorem run_append_feed {a b : String} {last : Token} (ha : (run a).ending = .ok last)
    (hb : b.toList.head? ≠ some '\ufeff') :
    (run (a ++ "\n" ++ b)).ending =
        Cursor.downResult (a.toList.count '\n' + 1) (run b).ending ∧
      (run (a ++ "\n" ++ b)).items =
        (run a).tokens ++ (run b).items.map (Token.down (a.toList.count '\n' + 1)) := by
  have hcursor : (ofString (a ++ "\n" ++ b)).cursor = (ofString a).cursor.followedBy b.toList := by
    have htext : (a ++ "\n" ++ b).toList = a.toList ++ '\n' :: b.toList := by simp
    rw [ofString, fresh, htext, dropMark_append_feed]
    rfl
  have hpos : last.pos.next '\n' = Position.start.down (a.toList.count '\n' + 1) := by
    rw [Cursor.pos_of_ending ha, ← count_feed_dropMark]
    exact Position.next_feed_after _
  have hrest : (⟨b.toList, last.pos.next '\n'⟩ : Cursor) =
      (ofString b).cursor.down (a.toList.count '\n' + 1) := by
    rw [hpos, ofString, fresh, dropMark_of_head hb]
    rfl
  have hrun : run (a ++ "\n" ++ b) = ((ofString a).cursor.followedBy b.toList).readAll :=
    congrArg Cursor.readAll hcursor
  rw [Cursor.readAll_followedBy ha, hrest, Cursor.readAll_down] at hrun
  rw [hrun]
  refine ⟨rfl, ?_⟩
  simp only [Cursor.Run.items, run]
  cases (ofString b).cursor.readAll.ending with
  | ok eof => simp [Cursor.downResult]
  | error e => rfl

end Lexer

end DotLang
