import DotLang.Proofs.ByteOrderMark
import DotLang.Proofs.CountedRuns
import DotLang.Proofs.Reformatting

/-!
# A lexer moves on or stands still

A reading takes characters from the input, or it changes nothing: then the cursor is at the end of
the text, or in front of a character that begins no token, and all later readings give the same.
So the sequence of tokens is finite, and behind its last item there is nothing more.

* `Cursor.next_moves_or_stays`: what one reading does.
* `Lexer.next_afterCalls`: a reading that changes nothing is repeated until the lexer starts over.
* `Lexer.answers_pull`: the items of the sequence, asked for one by one.
* `Lexer.reset_afterCalls`: starting over gives the lexer of the text.
* `lexer_moves_or_stays`: all of this for a lexer that has been asked for anything before.
-/

namespace DotLang

/-- A malformed token that is not passed over is a character that begins no token. -/
theorem Lexeme.eq_unexpectedChar_of_scan {c : Char} {input rest : List Char} {fault : LexFault}
    (h : scan c input = .fault fault [] rest) : fault = .unexpectedChar c := by
  have hnumeral {first : Char} {tail : List Char}
      (hfirst : first = '-' ∨ first.isDigit = true ∨ first = '.')
      (hscan : scanNumeral (first :: tail) = .fault fault [] rest) : False := by
    refine @Numeral.text_scan_ne_nil first tail hfirst ?_
    unfold scanNumeral at hscan
    split at hscan
    rename_i n r heq
    rw [heq]
    split at hscan
    · cases hscan
    · exact (Lexeme.fault.inj hscan).2.1
  revert h
  fun_cases scan c input with
  | case1 => rintro ⟨⟩
  | case2 =>
    intro h
    unfold scanQuoted at h
    split at h <;> cases h
  | case3 =>
    intro h
    unfold scanHtml at h
    split at h <;> cases h
  | case4 _ _ _ hc =>
    subst hc
    fun_cases scanDash input with
    | case3 => exact fun h => (hnumeral (.inl rfl) h).elim
    | case4 => exact fun h => (Lexeme.fault.inj h).1.symm
    | case5 => exact fun h => (Lexeme.fault.inj h).1.symm
    | _ => rintro ⟨⟩
  | case5 _ _ _ _ hc => exact fun h => (hnumeral (.inr (by simpa using hc)) h).elim
  | case6 => rintro ⟨⟩
  | case7 => exact fun h => (Lexeme.fault.inj h).1.symm

/-! ## One reading -/

namespace Cursor

/-- A reading shortens the input, or it changes nothing and finds the end of the text or a
character that begins no token. -/
theorem next_moves_or_stays (c : Cursor) :
    c.next.2.rest.length < c.rest.length ∨
      c.next.2 = c ∧ (c.next.1 = .ok ⟨.eof, "", c.pos⟩ ∨
        ∃ first, c.next.1 = .error ⟨.unexpectedChar first, c.pos⟩) := by
  fun_induction next c with
  | case1 c text rest hhead ih =>
    -- the blank or comment in front is gone, whatever stands behind it
    refine .inl (Nat.lt_of_le_of_lt ?_ (Trivia.length_of_head hhead))
    exact (c.skip text rest).length_of_next_le
  | case2 c hhead =>
    obtain ⟨tail, hrest, -⟩ := Trivia.head_eq_unclosed_iff.1 hhead
    rw [toEnd, rest_skip, hrest]
    exact .inl (Nat.zero_lt_succ _)
  | case3 => exact .inr ⟨rfl, .inl rfl⟩
  | case4 c _ first input hrest kind text rest hscan =>
    have happend := congrArg List.length (Lexeme.append_scan first input)
    have htext := List.length_pos_iff.2 (Lexeme.ne_nil_of_scan hscan)
    rw [hscan, ← hrest] at happend
    simp only [Lexeme.text, Lexeme.rest, List.length_append] at happend
    rw [rest_skip]
    exact .inl (by omega)
  | case5 c _ first input hrest fault text rest hscan =>
    have happend := Lexeme.append_scan first input
    rw [hscan, ← hrest] at happend
    simp only [Lexeme.text, Lexeme.rest] at happend
    cases text with
    | nil =>
      have hstays : c.skip [] rest = c := by
        obtain rfl : rest = c.rest := happend
        rfl
      rw [Lexeme.eq_unexpectedChar_of_scan hscan, hstays]
      exact .inr ⟨rfl, .inr ⟨first, rfl⟩⟩
    | cons d text =>
      rw [rest_skip, ← happend, List.length_append, List.length_cons]
      exact .inl (by omega)

/-- A token other than the end has a text. -/
theorem text_ne_of_mem_tokens {c : Cursor} {token : Token} (h : token ∈ c.readAll.tokens) :
    token.text ≠ "" := by
  intro htext
  have hspell := Lexeme.spells_iff_spelling.1 (spells_of_mem_tokens h)
  exact hspell.ne_nil (congrArg String.toList htext)

/-- A reading ends. It passes no more blanks and comments than it takes characters, and the place
moves along these characters. -/
theorem exists_read (c : Cursor) : ∃ gaps read, c.Reaches gaps c.next.1 c.next.2 ∧
    gaps ≤ read.length ∧ c.rest = read ++ c.next.2.rest ∧
    c.next.2.pos = c.pos.after read := by
  obtain ⟨gaps, hreaches⟩ := c.exists_reaches
  obtain ⟨read, hrest, hpos⟩ := c.next_reads.exists_passed
  refine ⟨gaps, read, hreaches, ?_, hrest, hpos⟩
  have hle := hreaches.length_le
  rw [hrest, List.length_append] at hle
  omega

end Cursor

/-! ## Any number of readings -/

namespace Lexer

variable {l : Lexer} {later : List Call}

theorem next_of_stays (h : l.cursor.next.2 = l.cursor) : l.next.2 = l := by
  show { l with cursor := l.cursor.next.2 } = l
  rw [h]

/-- One call leaves a cursor alone that reading leaves alone. -/
theorem cursor_call (h : l.cursor.next.2 = l.cursor) {call : Call} (hcall : call ≠ .reset) :
    (l.call call).2.cursor = l.cursor := by
  cases call with
  | next => exact h
  | pull =>
    simp only [Lexer.call]
    cases hended : l.ended with
    | true => rw [pull_of_ended hended]
    | false => rw [pull_of_not_ended hended, h]
  | reset => exact absurd rfl hcall

theorem cursor_afterCalls (h : l.cursor.next.2 = l.cursor) (hlater : Call.reset ∉ later) :
    (l.afterCalls later).cursor = l.cursor := by
  induction later generalizing l with
  | nil => rfl
  | cons call later ih =>
    have hcall := (List.ne_of_not_mem_cons hlater).symm
    have hlater := List.not_mem_of_not_mem_cons hlater
    have hcursor := cursor_call h hcall
    have hnext : (l.call call).2.cursor.next.2 = (l.call call).2.cursor := by rw [hcursor, h]
    exact (ih hnext hlater).trans hcursor

/-- A reading that leaves the cursor alone is repeated until the lexer starts over. -/
theorem next_afterCalls (h : l.cursor.next.2 = l.cursor) (hlater : Call.reset ∉ later) :
    (l.afterCalls later).next.1 = l.next.1 := by
  rw [next, next, cursor_afterCalls h hlater]

/-- A sequence that has ended goes on as little if readings come between. -/
theorem ended_afterCalls (h : l.ended = true) (hlater : Call.reset ∉ later) :
    (l.afterCalls later).ended = true := by
  induction later generalizing l with
  | nil => exact h
  | cons call later ih =>
    have hcall := (List.ne_of_not_mem_cons hlater).symm
    refine ih ?_ (List.not_mem_of_not_mem_cons hlater)
    cases call with
    | next => exact h
    | pull =>
      simp only [Lexer.call]
      rw [pull_of_ended h]
      exact h
    | reset => exact absurd rfl hcall

/-- Starting over gives the lexer of the text, whatever it has been asked for. -/
theorem reset_afterCalls (source : String) (calls : List Call) :
    ((ofString source).afterCalls calls).reset = ofString source := by
  rw [reset, (placed_afterCalls source calls).source_eq]
  rfl

/-! ## The items of the sequence -/

theorem answers_pull_of_ended (h : l.ended = true) (k : Nat) :
    l.answers (List.replicate k .pull) = List.replicate k none := by
  induction k with
  | zero => rfl
  | succ k ih =>
    rw [List.replicate_succ, List.replicate_succ, answers, Lexer.call, pull_of_ended h, ih]

theorem drain_of_not_ended (h : l.ended = false) : l.drain.1 = l.cursor.stream := by
  rw [drain, h]
  rfl

/-- In front of the `k`-th item it does not matter how often nothing follows. -/
theorem take_append_none {α : Type} (items : List (Option α)) (k : Nat) :
    (items ++ List.replicate (k + 1) none).take k = (items ++ List.replicate k none).take k := by
  rw [List.take_append, List.take_append, List.take_replicate, List.take_replicate,
    Nat.min_eq_left (Nat.sub_le k _), Nat.min_eq_left ((Nat.sub_le k _).trans (Nat.le_succ k))]

/-- The items of the sequence one by one, and nothing behind them. -/
theorem answers_pull (h : l.ended = false) (k : Nat) :
    l.answers (List.replicate k .pull) =
      (l.drain.1.map some ++ List.replicate k none).take k := by
  rw [drain_of_not_ended h]
  induction k generalizing l with
  | zero => rfl
  | succ k ih =>
    have hlast {c : Cursor} (result : Except LexError Token) :
        some result :: answers { l with cursor := c, ended := true } (List.replicate k .pull) =
          (some result :: List.replicate (k + 1) none).take (k + 1) := by
      rw [answers_pull_of_ended rfl, List.take_succ_cons, List.take_replicate,
        Nat.min_eq_left (Nat.le_succ k)]
    rw [List.replicate_succ, answers, Lexer.call, pull_of_not_ended h, Cursor.stream]
    rcases hnext : l.cursor.next with ⟨e | token, c⟩
    · rw [Cursor.readAll_of_error hnext]
      exact hlast (.error e)
    · by_cases hkind : token.kind = .eof
      · rw [Cursor.readAll_of_eof hnext hkind]
        simp only [IsLast, hkind, decide_true]
        exact hlast (.ok token)
      · rw [Cursor.readAll_of_token hnext hkind]
        simp only [IsLast, hkind, decide_false]
        rw [ih rfl, ← take_append_none, Cursor.stream]
        rfl

/-- The sequence of tokens of a text: no more tokens than characters, then the end of input or a
malformed token, and then nothing. -/
theorem exists_items (source : String) :
    ∃ (tokens : List Token) (last : Except LexError Token),
      (ofString source).drain.1 = tokens.map .ok ++ [last] ∧
      tokens.length ≤ source.length ∧
      (∀ token ∈ tokens, token.kind ≠ .eof ∧ token.text ≠ "") ∧
      ((∃ pos, last = .ok ⟨.eof, "", pos⟩) ∨ ∃ e, last = .error e) ∧
      ∀ k, (ofString source).answers (List.replicate k .pull) =
        ((ofString source).drain.1.map some ++ List.replicate k none).take k := by
  refine ⟨(run source).tokens, (run source).ending, drain_ofString source, ?_,
    fun token htoken => ?_, ?_, fun k => answers_pull rfl k⟩
  · have htokens := (ofString source).cursor.length_tokens_readAll_le
    have hmark := length_dropMark_le source.toList
    rw [String.length_toList] at hmark
    exact htokens.trans hmark
  · exact ⟨Cursor.kind_ne_eof_of_mem_tokens htoken, Cursor.text_ne_of_mem_tokens htoken⟩
  · cases hending : (run source).ending with
    | ok last =>
      obtain ⟨kind, text, pos⟩ := last
      obtain rfl : kind = .eof := Cursor.kind_of_ending hending
      obtain rfl : text = "" := Cursor.text_of_ending hending
      exact .inl ⟨pos, rfl⟩
    | error e => exact .inr ⟨e, rfl⟩

end Lexer

/-- Whatever a lexer has been asked for before, a reading comes to an end. It takes characters from
the input, or it changes nothing: then it gives the end of input or an unexpected character, and so
does each later reading until the lexer starts over. The place of the cursor is that behind the
characters taken, each of them once, and at the end of the text none is taken any more. Starting
over gives the lexer of the text. Its sequence is finite: no more tokens than characters, each with
a text, then the end of input or a malformed token, and then nothing. Once it has ended it stays so,
also if readings come between. -/
theorem lexer_moves_or_stays (source : String) (calls : List Lexer.Call) :
    let l := (Lexer.ofString source).afterCalls calls
    (∃ gaps read, l.cursor.Reaches gaps l.next.1 l.next.2.cursor ∧ gaps ≤ read.length ∧
      l.cursor.rest = read ++ l.next.2.cursor.rest ∧
      l.next.2.cursor.pos = l.cursor.pos.after read ∧
      (read ≠ [] ∨ l.next.2 = l ∧
        (l.next.1 = .ok ⟨.eof, "", l.cursor.pos⟩ ∨
          ∃ c, l.next.1 = .error ⟨.unexpectedChar c, l.cursor.pos⟩) ∧
        ∀ later, Lexer.Call.reset ∉ later → (l.afterCalls later).next.1 = l.next.1)) ∧
    (∃ before, Lexer.dropMark source.toList = before ++ l.cursor.rest ∧
      l.cursor.pos.IsBehind before) ∧
    (l.cursor.rest = [] → ∀ later, Lexer.Call.reset ∉ later →
      (l.afterCalls later).cursor = l.cursor) ∧
    l.reset = Lexer.ofString source ∧
    (∃ (tokens : List Token) (last : Except LexError Token),
      l.reset.drain.1 = tokens.map .ok ++ [last] ∧ tokens.length ≤ source.length ∧
      (∀ token ∈ tokens, token.kind ≠ .eof ∧ token.text ≠ "") ∧
      ((∃ pos, last = .ok ⟨.eof, "", pos⟩) ∨ ∃ e, last = .error e) ∧
      ∀ k, l.reset.answers (List.replicate k .pull) =
        (l.reset.drain.1.map some ++ List.replicate k none).take k) ∧
    (l.ended = true → ∀ later, Lexer.Call.reset ∉ later →
      (l.afterCalls later).pull = (none, l.afterCalls later)) := by
  intro l
  have hreset : l.reset = Lexer.ofString source := Lexer.reset_afterCalls source calls
  refine ⟨?_, ?_, fun hrest later hlater => ?_, hreset, ?_, fun hended later hlater => ?_⟩
  · obtain ⟨gaps, read, hreaches, hgaps, hrest, hpos⟩ := l.cursor.exists_read
    refine ⟨gaps, read, hreaches, hgaps, hrest, hpos, ?_⟩
    rcases l.cursor.next_moves_or_stays with hmoves | ⟨hstays, hresult⟩
    · left
      rintro rfl
      rw [List.nil_append] at hrest
      rw [← hrest] at hmoves
      exact Nat.lt_irrefl _ hmoves
    · exact .inr ⟨Lexer.next_of_stays hstays, hresult,
        fun later hlater => Lexer.next_afterCalls hstays hlater⟩
  · obtain ⟨hsource, before, hbefore, hpos⟩ := Lexer.placed_afterCalls source calls
    refine ⟨before, hsource ▸ hbefore, ?_⟩
    rw [hpos]
    exact Position.isBehind_after before
  · refine Lexer.cursor_afterCalls ?_ hlater
    rcases l.cursor.next_moves_or_stays with hmoves | ⟨hstays, -⟩
    · rw [hrest] at hmoves
      exact absurd hmoves (Nat.not_lt_zero _)
    · exact hstays
  · rw [hreset]
    exact Lexer.exists_items source
  · exact Lexer.pull_of_ended (Lexer.ended_afterCalls hended hlater)

end DotLang
