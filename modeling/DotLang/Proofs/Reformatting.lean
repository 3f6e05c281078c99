import DotLang.Proofs.Gaps
import DotLang.Proofs.Spelling
import DotLang.Proofs.TokenSequence

/-!
# Texts with other gaps

The tokens of a text can be written with any gaps between them. They are read again as the same
tokens at other places, and the places are the only thing about which a parse can differ.

* `Cursor.readAll_written`: what is read from spellings with gaps between them.
* `Cursor.spells_of_mem_tokens`: the tokens of a text are spelled by their texts.
* `Parser.Outcome.Explains.unplaced_eq`: tokens of the same kinds are parsed alike.
* `parse_reformatted`: a text with other gaps has the same tokens and is parsed alike.
-/

namespace DotLang

/-- Texts with gaps in front of them, and a last gap. -/
def written (gaps texts : List (List Char)) (last : List Char) : List Char :=
  (gaps.zipWith (· ++ ·) texts).flatten ++ last

/-- An error without the place of the token that is refused. -/
def Error.unplaced : Error → Error
  | .lexical e => .lexical e
  | .grammatical e => .grammatical { e with pos := .start }

namespace Lexeme

open Trivia

/-- What begins with a token begins with neither blank nor comment. -/
theorem head_of_scan {c : Char} {input input' text rest : List Char} {kind : TokenKind}
    {lineStart : Bool} (h : scan c input = .token kind text rest) :
    head lineStart (c :: input') = .absent := by
  have hblank : isBlank c = false := by
    apply Bool.eq_false_iff.2
    intro hc
    simp only [isBlank, Bool.or_eq_true, decide_eq_true_eq] at hc
    rcases hc with (((rfl | rfl) | rfl) | rfl) | rfl <;> cases h
  have hslash : c ≠ '/' := by
    rintro rfl
    cases h
  have hhash : c ≠ '#' := by
    rintro rfl
    cases h
  exact head_of_ne hblank hslash hhash _ _

end Lexeme

namespace Cursor

open Lexeme Trivia

theorem next_spelled {kind : TokenKind} {text rest : List Char} (h : Spells kind text)
    (hrest : EndsToken rest) (pos : Position) :
    next ⟨text ++ rest, pos⟩ = (.ok ⟨kind, String.ofList text, pos⟩, ⟨rest, pos.after text⟩) := by
  obtain ⟨first, tail, rfl, hscan⟩ := h
  exact next_of_absent (head_of_scan (hscan rest hrest)) (hscan rest hrest)

theorem endsToken_gap {g : List Char} (h : Gap false g) : EndsToken g := by
  cases g with
  | nil => exact nofun
  | cons c g =>
    rintro _ ⟨rfl⟩
    exact h.begins

theorem endsToken_separation {g rest : List Char} (h : Separation g) : EndsToken (g ++ rest) := by
  obtain ⟨hgap, hne⟩ := h
  cases g with
  | nil => exact absurd rfl hne
  | cons c g =>
    rintro _ ⟨rfl⟩
    exact hgap.begins

theorem endsToken_written {gaps texts : List (List Char)} {last : List Char}
    (hgaps : ∀ g ∈ gaps, Separation g) (hlast : Gap false last) :
    EndsToken (written gaps texts last) := by
  unfold written
  cases gaps with
  | nil => exact endsToken_gap hlast
  | cons g gaps =>
    cases texts with
    | nil => exact endsToken_gap hlast
    | cons text texts =>
      rw [List.zipWith_cons_cons, List.flatten_cons, List.append_assoc, List.append_assoc]
      exact endsToken_separation (hgaps g List.mem_cons_self)

/-- Spellings with gaps between them are read as the tokens that they spell. -/
theorem readAll_written {words : List (TokenKind × List Char)} {gaps : List (List Char)}
    {last : List Char} (hlength : gaps.length = words.length)
    (hgaps : ∀ g ∈ gaps, Separation g) (hwords : ∀ w ∈ words, Spells w.1 w.2)
    (hlast : Gap false last) (pos : Position) :
    ((readAll ⟨written gaps (words.map Prod.snd) last, pos⟩).tokens.map
        fun t => (t.kind, t.text.toList)) = words ∧
      ∃ place, (readAll ⟨written gaps (words.map Prod.snd) last, pos⟩).ending =
        .ok ⟨.eof, "", place⟩ := by
  induction words generalizing gaps pos with
  | nil =>
    obtain rfl := List.eq_nil_of_length_eq_zero hlength
    have hnext : next ⟨written [] [] last, pos⟩ =
        (.ok ⟨.eof, "", pos.after last⟩, ⟨[], pos.after last⟩) := by
      have hlast := next_gap_false hlast [] pos
      rw [List.append_nil, next_nil] at hlast
      exact hlast
    rw [List.map_nil, readAll_of_eof hnext rfl]
    exact ⟨rfl, _, rfl⟩
  | cons word words ih =>
    cases gaps with
    | nil => exact nomatch hlength
    | cons g gaps =>
      have hword := hwords word List.mem_cons_self
      have hrest : EndsToken (written gaps (words.map Prod.snd) last) :=
        endsToken_written (fun g hg => hgaps g (List.mem_cons_of_mem _ hg)) hlast
      have hnext : next ⟨written (g :: gaps) (word.2 :: words.map Prod.snd) last, pos⟩ =
          (.ok ⟨word.1, String.ofList word.2, pos.after g⟩,
            ⟨written gaps (words.map Prod.snd) last, (pos.after g).after word.2⟩) := by
        rw [written, List.zipWith_cons_cons, List.flatten_cons, List.append_assoc,
          List.append_assoc, next_gap_false (hgaps g List.mem_cons_self).1]
        exact next_spelled hword hrest _
      rw [List.map_cons, readAll_of_token hnext hword.ne_eof]
      obtain ⟨htokens, hending⟩ := ih (Nat.succ.inj hlength)
        (fun g hg => hgaps g (List.mem_cons_of_mem _ hg))
        (fun w hw => hwords w (List.mem_cons_of_mem _ hw)) ((pos.after g).after word.2)
      refine ⟨?_, hending⟩
      rw [List.map_cons, htokens, String.toList_ofList]

/-! ## The tokens of a text -/

theorem next_cases {c c' : Cursor} {token : Token} (h : c.next = (.ok token, c')) :
    token.kind = .eof ∧ token.text = "" ∨ Spells token.kind token.text.toList := by
  fun_induction next c with
  | case1 c text rest hhead ih => exact ih h
  | case2 => cases h
  | case3 =>
    obtain ⟨h, _⟩ := Prod.mk.inj h
    obtain rfl := Except.ok.inj h
    exact .inl ⟨rfl, rfl⟩
  | case4 c _ first input hrest kind text rest hscan =>
    obtain ⟨h, _⟩ := Prod.mk.inj h
    obtain rfl := Except.ok.inj h
    rw [String.toList_ofList]
    exact .inr (spelling_of_scan hscan).spells
  | case5 => cases h

/-- The tokens of a text are spelled by their texts. -/
theorem spells_of_mem_tokens {c : Cursor} {token : Token} (h : token ∈ c.readAll.tokens) :
    Spells token.kind token.text.toList := by
  fun_induction readAll c with
  | case1 c e c' hnext => exact absurd h List.not_mem_nil
  | case2 c last c' hnext hkind => exact absurd h List.not_mem_nil
  | case3 c first c' hnext hkind run ih =>
    rcases List.mem_cons.1 h with rfl | h
    · exact (next_cases hnext).resolve_left fun h => hkind h.1
    · exact ih h

/-- The end of input has no text. -/
theorem text_of_ending {c : Cursor} {last : Token} (h : c.readAll.ending = .ok last) :
    last.text = "" := by
  fun_induction readAll c with
  | case1 c e c' hnext => cases h
  | case2 c token c' hnext hkind =>
    obtain rfl := Except.ok.inj h
    rcases next_cases hnext with h | h
    · exact h.2
    · exact absurd hkind h.ne_eof
  | case3 c first c' hnext hkind run ih => exact ih h

end Cursor

/-! ## Parsing tokens of the same kinds -/

namespace Parser.Outcome.Explains

variable {goal : Construct} {run run' : Cursor.Run} {outcome : Outcome goal}
  {result result' : Except Error goal.Value}

theorem refused_eq {expected : List Expectation} {left : List TokenKind}
    (h : (Outcome.refused expected left : Outcome goal).Explains run result) :
    ∃ token after, left = (token :: after).map Token.kind ∧
      result = .error (.grammatical
        ⟨expected.map Expectation.describe, token.kind.describe, token.pos⟩) := by
  generalize ho : (Outcome.refused expected left : Outcome goal) = outcome at h
  cases h with
  | waiting => exact nomatch ho
  | finished => exact nomatch ho
  | @refused expected before after token _ =>
    obtain ⟨rfl, rfl⟩ := Outcome.refused.inj ho
    exact ⟨token, after, rfl, rfl⟩

/-- If no token is malformed only the kinds of the tokens matter. -/
theorem unplaced_eq (h : outcome.Explains run result) (h' : outcome.Explains run' result')
    (hrun : ∀ e, run.ending ≠ .error e) :
    result'.mapError Error.unplaced = result.mapError Error.unplaced := by
  cases h with
  | waiting he => exact absurd he (hrun _)
  | finished =>
    cases h'
    rfl
  | @refused expected before after token _ =>
    obtain ⟨token', after', hkinds, rfl⟩ := h'.refused_eq
    obtain ⟨hkind, _⟩ := List.cons.inj hkinds
    rw [← hkind]
    rfl

end Parser.Outcome.Explains

/-! ## Texts that are written -/

theorem dropMark_of_endsToken {text : List Char} (h : Lexeme.EndsToken text) :
    Lexer.dropMark text = text := by
  unfold Lexer.dropMark
  split
  · exact absurd (h '\ufeff' rfl) (by decide)
  · rfl

/-- The tokens of a text that is written with gaps. -/
theorem run_written {words : List (TokenKind × List Char)} {gaps : List (List Char)}
    {last : List Char} (hlength : gaps.length = words.length)
    (hgaps : ∀ g ∈ gaps, Trivia.Separation g) (hwords : ∀ w ∈ words, Lexeme.Spells w.1 w.2)
    (hlast : Trivia.Gap false last) :
    ((Lexer.run (String.ofList (written gaps (words.map Prod.snd) last))).tokens.map
        fun t => (t.kind, t.text.toList)) = words ∧
      ∃ place, (Lexer.run (String.ofList (written gaps (words.map Prod.snd) last))).ending =
        .ok ⟨.eof, "", place⟩ := by
  have hrun : Lexer.run (String.ofList (written gaps (words.map Prod.snd) last)) =
      Cursor.readAll ⟨written gaps (words.map Prod.snd) last, .start⟩ := by
    rw [Lexer.run, Lexer.ofString, String.toList_ofList,
      dropMark_of_endsToken (Cursor.endsToken_written hgaps hlast)]
    rfl
  rw [hrun]
  exact Cursor.readAll_written hlength hgaps hwords hlast .start

/-! ## Other gaps -/

/-- The tokens of a text, each behind a gap, and a last gap. -/
def reformatted (gaps : List (List Char)) (tokens : List Token) (last : List Char) : String :=
  String.ofList (written gaps (tokens.map fun t => t.text.toList) last)

/-- The gap in front of the end of input is a part of the last gap. -/
theorem reformatted_concat {gaps : List (List Char)} {g last : List Char} {tokens : List Token}
    {token : Token} (hlength : gaps.length = tokens.length) (htext : token.text = "") :
    reformatted (gaps ++ [g]) (tokens ++ [token]) last = reformatted gaps tokens (g ++ last) := by
  unfold reformatted written
  rw [List.map_append, List.zipWith_append (by rw [hlength, List.length_map])]
  simp [htext]

theorem run_reformatted {source : String} {gaps : List (List Char)} {last : List Char}
    (hlength : gaps.length = (Lexer.run source).tokens.length)
    (hgaps : ∀ g ∈ gaps, Trivia.Separation g) (hlast : Trivia.Gap false last) :
    ((Lexer.run (reformatted gaps (Lexer.run source).tokens last)).tokens.map
        fun t => (t.kind, t.text)) = (Lexer.run source).tokens.map (fun t => (t.kind, t.text)) ∧
      ∃ place, (Lexer.run (reformatted gaps (Lexer.run source).tokens last)).ending =
        .ok ⟨.eof, "", place⟩ := by
  have hwords : ∀ w ∈ (Lexer.run source).tokens.map (fun t => (t.kind, t.text.toList)),
      Lexeme.Spells w.1 w.2 := by
    intro w hw
    obtain ⟨token, htoken, rfl⟩ := List.mem_map.1 hw
    exact Cursor.spells_of_mem_tokens htoken
  have hcount : gaps.length =
      ((Lexer.run source).tokens.map fun t => (t.kind, t.text.toList)).length := by
    rw [hlength, List.length_map]
  have hrun := run_written hcount hgaps hwords hlast
  rw [List.map_map] at hrun
  obtain ⟨htokens, hending⟩ := hrun
  refine ⟨?_, hending⟩
  have := congrArg (List.map fun w : TokenKind × List Char => (w.1, String.ofList w.2)) htokens
  rw [reformatted]
  simpa [Function.comp_def] using this

/-- A text can be written with any other gaps between its tokens. It has the same tokens, and a
parse of it gives the same result but for the place of a token that is refused. -/
theorem parse_reformatted {source : String} {tokens : List Token} {gaps : List (List Char)}
    {last : List Char} (htokens : Lexer.tokenize source = .ok tokens)
    (hlength : gaps.length = tokens.length) (hgaps : ∀ g ∈ gaps, Trivia.Separation g)
    (hlast : Trivia.Gap false last) :
    (∃ tokens', Lexer.tokenize (reformatted gaps tokens last) = .ok tokens' ∧
      tokens'.map Token.kind = tokens.map Token.kind ∧
      tokens'.map Token.text = tokens.map Token.text) ∧
    ∀ options : ParseOptions,
      (parse (reformatted gaps tokens last) options).mapError Error.unplaced =
        (parse source options).mapError Error.unplaced := by
  obtain ⟨eof, hending, rfl⟩ := Lexer.tokenize_eq_ok_iff.1 htokens
  have hkind : eof.kind = .eof := Cursor.kind_of_ending hending
  have htext : eof.text = "" := Cursor.text_of_ending hending
  -- the gap in front of the end of input
  obtain ⟨gaps, g, rfl⟩ : ∃ gaps' g, gaps = gaps' ++ [g] := by
    rcases List.eq_nil_or_concat gaps with rfl | ⟨gaps', g, rfl⟩
    · simp at hlength
    · exact ⟨gaps', g, List.concat_eq_append⟩
  simp only [List.length_append, List.length_singleton, Nat.add_right_cancel_iff] at hlength
  rw [reformatted_concat hlength htext]
  have hgap : Trivia.Gap false (g ++ last) := (hgaps g (by simp)).1.append hlast
  obtain ⟨hread, place, hending'⟩ := run_reformatted hlength
    (fun g' hg' => hgaps g' (List.mem_append_left _ hg')) hgap
  have hkinds := congrArg (List.map Prod.fst) hread
  have htexts := congrArg (List.map Prod.snd) hread
  rw [List.map_map, List.map_map] at hkinds htexts
  refine ⟨⟨_, Lexer.tokenize_eq_ok_iff.2 ⟨_, hending', rfl⟩, ?_, ?_⟩, fun options => ?_⟩
  · rw [List.map_append, List.map_append, List.map_singleton, List.map_singleton, hkind]
    exact congrArg (· ++ [.eof]) hkinds
  · rw [List.map_append, List.map_append, List.map_singleton, List.map_singleton, htext]
    exact congrArg (· ++ [""]) htexts
  · have hsame : (Lexer.run (reformatted gaps (Lexer.run source).tokens (g ++ last))).kinds =
        (Lexer.run source).kinds := by
      rw [Cursor.Run.kinds, Cursor.Run.kinds, Cursor.Run.items, Cursor.Run.items, hending, hending',
        List.map_append, List.map_append, List.map_singleton, List.map_singleton, hkind]
      exact congrArg (· ++ [.eof]) hkinds
    have hexplains := parse_explains source options
    have hexplains' := parse_explains
      (reformatted gaps (Lexer.run source).tokens (g ++ last)) options
    rw [hsame] at hexplains'
    refine hexplains.unplaced_eq hexplains' fun e he => ?_
    rw [hending] at he
    cases he

/-- The tokens of a short text. -/
theorem tokenize_edge : Lexer.tokenize "a->b" =
    .ok [⟨.identifier "a", "a", ⟨1, 1⟩⟩, ⟨.edgeOp .directed, "->", ⟨1, 2⟩⟩,
      ⟨.identifier "b", "b", ⟨1, 4⟩⟩, ⟨.eof, "", ⟨1, 5⟩⟩] := by
  have hfirst : Cursor.next ⟨['a', '-', '>', 'b'], ⟨1, 1⟩⟩ =
      (.ok ⟨.identifier "a", "a", ⟨1, 1⟩⟩, ⟨['-', '>', 'b'], ⟨1, 2⟩⟩) :=
    Cursor.next_of_absent rfl rfl
  have harrow : Cursor.next ⟨['-', '>', 'b'], ⟨1, 2⟩⟩ =
      (.ok ⟨.edgeOp .directed, "->", ⟨1, 2⟩⟩, ⟨['b'], ⟨1, 4⟩⟩) :=
    Cursor.next_of_absent rfl rfl
  have hsecond : Cursor.next ⟨['b'], ⟨1, 4⟩⟩ =
      (.ok ⟨.identifier "b", "b", ⟨1, 4⟩⟩, ⟨[], ⟨1, 5⟩⟩) :=
    Cursor.next_of_absent rfl rfl
  have hrun : Lexer.run "a->b" = Cursor.readAll ⟨['a', '-', '>', 'b'], ⟨1, 1⟩⟩ := rfl
  rw [Lexer.tokenize_eq, hrun, Cursor.readAll_of_token hfirst nofun,
    Cursor.readAll_of_token harrow nofun, Cursor.readAll_of_token hsecond nofun,
    Cursor.readAll_of_eof (Cursor.next_nil _) rfl]
  rfl

/-- The same text with a blank, a block comment, a line that begins with `#` and a line comment. -/
theorem parse_reformatted_edge :
    (∃ tokens, Lexer.tokenize " a/* -> */->\n# b\nb//\n\t" = .ok tokens ∧
      tokens.map Token.kind = [.identifier "a", .edgeOp .directed, .identifier "b", .eof] ∧
      tokens.map Token.text = ["a", "->", "b", ""]) ∧
    ∀ options : ParseOptions,
      (parse " a/* -> */->\n# b\nb//\n\t" options).mapError Error.unplaced =
        (parse "a->b" options).mapError Error.unplaced := by
  have hblank : Trivia.Separation [' '] := ⟨.blank rfl .nil, nofun⟩
  have hblock : Trivia.Separation ['/', '*', ' ', '-', '>', ' ', '*', '/'] :=
    ⟨@Trivia.Gap.block false [' ', '-', '>', ' '] [] (by decide) .nil, nofun⟩
  have hhash : Trivia.Separation ['\n', '#', ' ', 'b', '\n'] :=
    ⟨.blank rfl (@Trivia.Gap.hash [' ', 'b'] [] (by decide) .nil), nofun⟩
  have hline : Trivia.Separation ['/', '/', '\n'] :=
    ⟨@Trivia.Gap.line false [] [] (by decide) .nil, nofun⟩
  have hgaps : ∀ g ∈ [[' '], ['/', '*', ' ', '-', '>', ' ', '*', '/'],
      ['\n', '#', ' ', 'b', '\n'], ['/', '/', '\n']], Trivia.Separation g := by
    simp [hblank, hblock, hhash, hline]
  have hlast : Trivia.Gap false ['\t'] := .blank rfl .nil
  have h := parse_reformatted tokenize_edge rfl hgaps hlast
  have htext : reformatted [[' '], ['/', '*', ' ', '-', '>', ' ', '*', '/'],
      ['\n', '#', ' ', 'b', '\n'], ['/', '/', '\n']]
      [⟨.identifier "a", "a", ⟨1, 1⟩⟩, ⟨.edgeOp .directed, "->", ⟨1, 2⟩⟩,
        ⟨.identifier "b", "b", ⟨1, 4⟩⟩, ⟨.eof, "", ⟨1, 5⟩⟩] ['\t'] =
      " a/* -> */->\n# b\nb//\n\t" := by
    decide
  rw [htext] at h
  exact h

end DotLang
