import DotLang.Proofs.Acceptance
import DotLang.Proofs.FurtherLines
import DotLang.Proofs.GraphsInFront

/-!
# Texts behind each other

A text that is accepted may be followed by a line feed and another text. The graphs of the other
text are read behind its own, or the error of the other text is found, further down.

* `State.feed_append_graphs`: tokens behind those of a text.
* `Outcome.Explains.behind`: what explains a result explains it behind other tokens.
* `parse_concatenated`: the same for the texts of sources.
-/

namespace DotLang

namespace Parser

open Grammar

/-- Behind the tokens of a text the same comes of further tokens as without it, but that its graphs
stand in front. -/
theorem State.feed_append_graphs {maxDepth room : Nat} {ks rest : List TokenKind}
    {gs : List Graph} {kind : TokenKind} (h : DerivesGraphs room ks gs) (hroom : room ≤ maxDepth)
    (hkind : kind ≠ .eof) :
    (graph (.nextGraph [] .top)).feed maxDepth (ks ++ kind :: rest) =
      ((graph (.nextGraph [] .top)).feed maxDepth (kind :: rest)).behind gs := by
  rw [feed_start_append h hroom, (Passes.nextGraph hkind).feed_cons, ← feed_behind]
  rfl

/-- What explains a result explains the same result behind other tokens and further down. -/
theorem Outcome.Explains.behind {run run' : Cursor.Run} {outcome : Outcome .graphs}
    {result : Except Error (List Graph)} {gs : List Graph} {tokens : List Token} {lines : Nat}
    (h : outcome.Explains run result) (hending : run'.ending = Cursor.downResult lines run.ending)
    (hitems : run'.items = tokens ++ run.items.map (Token.down lines)) :
    (outcome.behind gs).Explains run' ((result.map (gs ++ ·)).mapError (Error.down lines)) := by
  cases h with
  | waiting he =>
    refine .waiting ?_
    rw [hending, he]
    rfl
  | finished => exact .finished
  | @refused expected before after token h =>
    have hdown : run'.items = (tokens ++ before.map (Token.down lines)) ++
        token.down lines :: after.map (Token.down lines) := by
      rw [hitems, h, List.map_append, List.map_cons, List.append_assoc]
    have hexplains := @Outcome.Explains.refused .graphs run' expected _ _ _ hdown
    rw [List.map_map] at hexplains
    exact hexplains

end Parser

open Grammar

theorem parse_append_feed {a b : String} {options : ParseOptions} {ga : List Graph}
    (ha : parse a options = .ok ga) (hmark : b.toList.head? ≠ some '\ufeff')
    (hb : ∀ token, Lexer.tokenize b ≠ .ok [token]) :
    parse (a ++ "\n" ++ b) options =
      ((parse b options).map (ga ++ ·)).mapError (Error.down (a.toList.count '\n' + 1)) := by
  obtain ⟨tokens, htokens, hderives⟩ := derivesText_of_parse ha
  obtain ⟨last, hlast, rfl⟩ := Lexer.tokenize_eq_ok_iff.1 htokens
  rw [List.map_append, List.map_singleton, Cursor.kind_of_ending hlast,
    derivesText_append_eof_iff] at hderives
  obtain ⟨hending, hitems⟩ := Lexer.run_append_feed hlast hmark
  have hkinds : (Lexer.run (a ++ "\n" ++ b)).kinds =
      (Lexer.run a).tokens.map Token.kind ++ (Lexer.run b).kinds := by
    rw [Cursor.Run.kinds, hitems, List.map_append, List.map_map]
    rfl
  have hexplains := parse_explains (a ++ "\n" ++ b) options
  have hexplains' := parse_explains b options
  rw [hkinds] at hexplains
  cases hrest : (Lexer.run b).kinds with
  | nil =>
    -- the other text begins with a malformed token
    rw [hrest, Parser.State.feed_start_append hderives (Nat.le_refl _),
      Parser.State.feed_nil] at hexplains
    rw [hrest, Parser.State.feed_nil] at hexplains'
    generalize parse b options = result at hexplains' ⊢
    cases hexplains' with
    | waiting he =>
      refine hexplains.unique (.waiting ?_)
      rw [hending, he]
      rfl
  | cons kind rest =>
    have hkind : kind ≠ .eof := by
      rintro rfl
      obtain ⟨hnil, -, last', hlast'⟩ := @Cursor.eq_of_kinds_readAll _ [] rest hrest
      refine hb last' (Lexer.tokenize_eq_ok_iff.2 ⟨last', hlast', ?_⟩)
      rw [Lexer.run, List.map_eq_nil_iff.1 hnil.symm]
      rfl
    rw [hrest, Parser.State.feed_append_graphs hderives (Nat.le_refl _) hkind] at hexplains
    rw [hrest] at hexplains'
    exact hexplains.unique (hexplains'.behind hending hitems)

/-- A text that is accepted holds more than the end of input. -/
theorem tokenize_ne_eof_of_parse {source : String} {options : ParseOptions} {gs : List Graph}
    (h : parse source options = .ok gs) (token : Token) : Lexer.tokenize source ≠ .ok [token] := by
  obtain ⟨tokens, htokens, hderives⟩ := derivesText_of_parse h
  rw [htokens]
  rintro ⟨⟩
  generalize hkinds : [token].map Token.kind = kinds at hderives
  cases hderives with
  | @mk ks gs hgs =>
    have hahead := Parser.ahead_graphs hgs
    cases ks with
    | nil => exact hahead
    | cons kind ks => simp at hkinds

/-- A text that is accepted, a line feed and another text are parsed as both are parsed alone. If
the other text is accepted too, its graphs follow. If it is not, the error is the same, as many
lines further down as stand in front of it. -/
theorem parse_concatenated {a b : String} {options : ParseOptions} {ga : List Graph}
    (ha : parse a options = .ok ga) (hmark : b.toList.head? ≠ some '\ufeff') :
    (∀ gb, parse b options = .ok gb → parse (a ++ "\n" ++ b) options = .ok (ga ++ gb)) ∧
    ∀ e, parse b options = .error e → (∀ token, Lexer.tokenize b ≠ .ok [token]) →
      parse (a ++ "\n" ++ b) options = .error (e.down (a.toList.count '\n' + 1)) := by
  refine ⟨fun gb h => ?_, fun e h hb => ?_⟩
  · rw [parse_append_feed ha hmark (tokenize_ne_eof_of_parse h), h]
    rfl
  · rw [parse_append_feed ha hmark hb, h]
    rfl

/-- The tokens of an empty graph with an empty comment behind it. -/
theorem run_empty_graph : (Lexer.run "graph\x7b\x7d//").items =
    [⟨.keyword .graph, "graph", ⟨1, 1⟩⟩, ⟨.symbol .openBrace, "\x7b", ⟨1, 6⟩⟩,
      ⟨.symbol .closeBrace, "\x7d", ⟨1, 7⟩⟩, ⟨.eof, "", ⟨1, 10⟩⟩] ∧
    ∃ last, (Lexer.run "graph\x7b\x7d//").ending = .ok last := by
  have hword : Cursor.next ⟨['g', 'r', 'a', 'p', 'h', '{', '}', '/', '/'], ⟨1, 1⟩⟩ =
      (.ok ⟨.keyword .graph, "graph", ⟨1, 1⟩⟩, ⟨['{', '}', '/', '/'], ⟨1, 6⟩⟩) :=
    Cursor.next_of_absent rfl rfl
  have hopen : Cursor.next ⟨['{', '}', '/', '/'], ⟨1, 6⟩⟩ =
      (.ok ⟨.symbol .openBrace, "\x7b", ⟨1, 6⟩⟩, ⟨['}', '/', '/'], ⟨1, 7⟩⟩) :=
    Cursor.next_of_absent rfl rfl
  have hclose : Cursor.next ⟨['}', '/', '/'], ⟨1, 7⟩⟩ =
      (.ok ⟨.symbol .closeBrace, "\x7d", ⟨1, 7⟩⟩, ⟨['/', '/'], ⟨1, 8⟩⟩) :=
    Cursor.next_of_absent rfl rfl
  have hcomment : Cursor.next ⟨['/', '/'], ⟨1, 8⟩⟩ =
      (.ok ⟨.eof, "", ⟨1, 10⟩⟩, ⟨[], ⟨1, 10⟩⟩) :=
    (Cursor.next_of_passed (c := ⟨['/', '/'], ⟨1, 8⟩⟩) rfl).trans (Cursor.next_nil _)
  have hrun : Lexer.run "graph\x7b\x7d//" =
      Cursor.readAll ⟨['g', 'r', 'a', 'p', 'h', '{', '}', '/', '/'], ⟨1, 1⟩⟩ := rfl
  rw [hrun, Cursor.readAll_of_token hword nofun, Cursor.readAll_of_token hopen nofun,
    Cursor.readAll_of_token hclose nofun, Cursor.readAll_of_eof hcomment rfl]
  exact ⟨rfl, _, rfl⟩

/-- The tokens of a closing brace behind a line that begins with `#`. -/
theorem run_close_brace : (Lexer.run "#\n\x7d").items =
    [⟨.symbol .closeBrace, "\x7d", ⟨2, 1⟩⟩, ⟨.eof, "", ⟨2, 2⟩⟩] ∧
    ∃ last, (Lexer.run "#\n\x7d").ending = .ok last := by
  have hline : Cursor.next ⟨['#', '\n', '}'], ⟨1, 1⟩⟩ = Cursor.next ⟨['\n', '}'], ⟨1, 2⟩⟩ :=
    Cursor.next_of_passed (c := ⟨['#', '\n', '}'], ⟨1, 1⟩⟩) rfl
  have hclose : Cursor.next ⟨['}'], ⟨2, 1⟩⟩ =
      (.ok ⟨.symbol .closeBrace, "\x7d", ⟨2, 1⟩⟩, ⟨[], ⟨2, 2⟩⟩) :=
    Cursor.next_of_absent rfl rfl
  have hfirst : Cursor.next ⟨['#', '\n', '}'], ⟨1, 1⟩⟩ =
      (.ok ⟨.symbol .closeBrace, "\x7d", ⟨2, 1⟩⟩, ⟨[], ⟨2, 2⟩⟩) :=
    hline.trans ((Cursor.next_blank rfl).trans hclose)
  have hrun : Lexer.run "#\n\x7d" = Cursor.readAll ⟨['#', '\n', '}'], ⟨1, 1⟩⟩ := rfl
  rw [hrun, Cursor.readAll_of_token hfirst nofun, Cursor.readAll_of_eof (Cursor.next_nil _) rfl]
  exact ⟨rfl, _, rfl⟩

/-- Behind an empty graph, and a comment that the end of the text ends, stands the same text, or one
that is not accepted. -/
theorem parse_concatenated_empty_graph :
    parse ("graph\x7b\x7d//" ++ "\n" ++ "graph\x7b\x7d//") ⟨0⟩ =
        .ok [⟨⟨.undirected, false, none⟩, []⟩, ⟨⟨.undirected, false, none⟩, []⟩] ∧
      parse ("graph\x7b\x7d//" ++ "\n" ++ "#\n\x7d") ⟨0⟩ =
        .error (.grammatical ⟨["'strict'", "'graph'", "'digraph'"], "'\x7d'", ⟨3, 1⟩⟩) := by
  obtain ⟨hitems, last, hlast⟩ := run_empty_graph
  obtain ⟨hitems', last', hlast'⟩ := run_close_brace
  have hderives : DerivesText 0 ((Lexer.run "graph\x7b\x7d//").items.map Token.kind)
      [⟨⟨.undirected, false, none⟩, []⟩] := by
    rw [hitems]
    exact .mk (.one (@DerivesGraph.mk _ _ _ _ _ (.keyword .graph) _ _ _ .absent rfl .absent .nil))
  have hgraph := @parse_of_derivesText _ ⟨0⟩ _ _ (Lexer.tokenize_eq_items hlast) hderives
  have hbrace : parse "#\n\x7d" ⟨0⟩ =
      .error (.grammatical ⟨["'strict'", "'graph'", "'digraph'"], "'\x7d'", ⟨2, 1⟩⟩) := by
    have hexplains := parse_explains "#\n\x7d" ⟨0⟩
    rw [Cursor.Run.kinds, hitems', List.map_cons, Parser.State.feed_of_reject rfl] at hexplains
    exact hexplains.unique (@Parser.Outcome.Explains.refused _ _ _ [] _ _ hitems')
  have hmore : ∀ token, Lexer.tokenize "#\n\x7d" ≠ .ok [token] := by
    intro token
    rw [Lexer.tokenize_eq_items hlast', hitems']
    rintro ⟨⟩
  obtain ⟨hsame, -⟩ := @parse_concatenated _ "graph\x7b\x7d//" _ _ hgraph (by decide)
  obtain ⟨-, herror⟩ := @parse_concatenated _ "#\n\x7d" _ _ hgraph (by decide)
  exact ⟨hsame _ hgraph, herror _ hbrace hmore⟩

end DotLang
