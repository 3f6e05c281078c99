import DotLang.Proofs.BoundedRuns
import DotLang.Proofs.Condensing
import DotLang.Proofs.NestingLimit
import DotLang.Proofs.Writing

/-!
# Further separators

Inside the braces of a text any statements can be written in another way, and inside its brackets
any attributes. So semicolons can be put between statements, and a separator behind an attribute
that has none.

* `DerivesText.replace_body`, `DerivesText.replace_group`: other tokens for the same part.
* `parsesTo_of_choices`: separators, groups and arrows do not reach the graphs.
-/

namespace DotLang

open Grammar

/-! ## Other tokens for the same part -/

namespace Parser.State

section Opening

variable {goal : Construct} {maxDepth : Nat} {s s' : State goal} {kind : TokenKind}

/-- The state in which a token is taken. -/
theorem exists_shifts_of_feed (h : s.feed maxDepth [kind] = .waiting s') :
    ∃ middle, Shifts maxDepth middle kind s' := by
  generalize hkinds : [kind] = kinds at h
  fun_induction feed maxDepth s kinds with
  | case1 => cases hkinds
  | case2 s first kinds next hstep ih =>
    obtain ⟨rfl, rfl⟩ := List.cons.inj hkinds
    rw [feed_nil] at h
    obtain rfl := Outcome.waiting.inj h
    exact ⟨s, .of_step hstep⟩
  | case3 s first kinds next hstep ih => exact ih hkinds h
  | case4 => cases h
  | case5 => cases h

theorem Shifts.eq_body (h : Shifts maxDepth s (.symbol .openBrace) s') :
    ∃ slot, s' = body [] slot := by
  cases h with
  | openGraph => exact ⟨_, rfl⟩
  | openSubgraph => exact ⟨_, rfl⟩
  | separate hsep => exact nomatch hsep
  | _ => contradiction

theorem Shifts.eq_group (h : Shifts maxDepth s (.symbol .openBracket) s') :
    ∃ before slot, s' = group before slot := by
  cases h with
  | openTarget => exact ⟨_, _, rfl⟩
  | openGroup => exact ⟨_, _, rfl⟩
  | separate hsep => exact nomatch hsep
  | _ => contradiction

end Opening

variable {d : Nat} {before after : List TokenKind} {kind : TokenKind} {gs : List Graph}

/-- A text is read as far as one of its tokens, and with any larger limit into the same state. -/
theorem exists_feed_of_derivesText (h : DerivesText d (before ++ kind :: after) gs)
    (hafter : after ≠ []) :
    ∃ s, (∃ middle, Shifts d middle kind s) ∧ before ++ [kind] ∈ s.before d ∧
      ∀ maxDepth, d ≤ maxDepth →
        (graph (.nextGraph [] .top)).feed maxDepth (before ++ [kind]) = .waiting s := by
  obtain ⟨taken, s', hkinds, hs'⟩ :=
    @feed_left _ d (graph (.nextGraph [] .top)) (before ++ kind :: after)
  rw [feed_of_derivesText h (Nat.le_refl d), Outcome.left] at hkinds
  -- the token is not the last one, so it is taken
  obtain ⟨after, last, rfl⟩ := (List.eq_nil_or_concat' after).resolve_left hafter
  rw [← List.cons_append, ← List.append_assoc] at hkinds
  rw [← List.append_inj_left' hkinds rfl, List.append_cons] at hs'
  obtain ⟨s, hs, -⟩ := feed_eq_waiting_append hs'
  obtain ⟨middle, -, hmiddle⟩ := feed_eq_waiting_append hs
  have hmem : [] ++ (before ++ [kind]) ∈ s.before d :=
    mem_before_of_feed hs nil_mem_before_start
  refine ⟨s, exists_shifts_of_feed hmiddle, hmem, ?_⟩
  intro maxDepth hd
  rcases feed_of_le hd (graph (.nextGraph [] .top)) (before ++ [kind]) with ⟨_, hrefused⟩ | hfeed
  · cases hs.symm.trans hrefused
  · exact hfeed.trans hs

/-- Behind a token other tokens will do, if they are read from the state there as those are that
stand there. -/
theorem replace_after (h : DerivesText d (before ++ kind :: after) gs) (hafter : after ≠ [])
    (room : Nat) {after' : List TokenKind}
    (hsame : ∀ middle s : State .graphs, Shifts d middle kind s → before ++ [kind] ∈ s.before d →
      s.feed (d + room) after = s.feed (d + room) after') :
    DerivesText d (before ++ kind :: after') gs := by
  obtain ⟨s, ⟨middle, hshift⟩, hmem, hfeed⟩ := exists_feed_of_derivesText h hafter
  have hle : d ≤ d + room := Nat.le_add_right d room
  have hread := feed_of_derivesText h hle
  rw [List.append_cons, feed_append, hfeed _ hle, Outcome.andThen, hsame middle s hshift hmem]
    at hread
  have hother : (graph (.nextGraph [] .top)).feed (d + room) (before ++ kind :: after') =
      .finished gs [.eof] := by
    rw [List.append_cons, feed_append, hfeed _ hle]
    exact hread
  exact (derivesText_of_feed hother).iff_nesting_le.2 (h.iff_nesting_le.1 h)

end Parser.State

namespace Grammar

variable {d room : Nat} {before after ks ks' : List TokenKind} {gs : List Graph}

/-- Inside braces the same statements can be written with other tokens. -/
theorem DerivesText.replace_body {b : List Stmt}
    (h : DerivesText d (before ++ .symbol .openBrace :: (ks ++ .symbol .closeBrace :: after)) gs)
    (hks : DerivesBody room ks b) (hks' : DerivesBody room ks' b) :
    DerivesText d (before ++ .symbol .openBrace :: (ks' ++ .symbol .closeBrace :: after)) gs := by
  refine Parser.State.replace_after h (by simp) room fun middle s hshift hmem => ?_
  obtain ⟨slot, rfl⟩ := hshift.eq_body
  obtain ⟨_, hslot, -⟩ := hmem
  have hdepth := Nat.add_le_add_right (Parser.Slot.depth_le_of_mem_before hslot) room
  rw [Parser.State.feed_body hks hdepth, Parser.State.feed_body hks' hdepth]

/-- Inside brackets the same attributes can be written with other tokens. -/
theorem DerivesText.replace_group {as : List Attribute}
    (h : DerivesText d
      (before ++ .symbol .openBracket :: (ks ++ .symbol .closeBracket :: after)) gs)
    (hks : DerivesGroup ks as) (hks' : DerivesGroup ks' as) :
    DerivesText d
      (before ++ .symbol .openBracket :: (ks' ++ .symbol .closeBracket :: after)) gs := by
  refine Parser.State.replace_after h (by simp) 0 fun middle s hshift _ => ?_
  obtain ⟨before, slot, rfl⟩ := hshift.eq_group
  rw [Parser.State.feed_group hks, Parser.State.feed_group hks']

end Grammar

/-! ## Further separators -/

/-- Further separators at one place: semicolons between the statements of a body, or in front of
its closing brace, or one separator behind an attribute that has none. -/
inductive Separated : List TokenKind → List TokenKind → Prop where
  | betweenStmts {room : Nat} {before ks ls after : List TokenKind} {b c : List Stmt} (n : Nat) :
      DerivesBody room ks b → DerivesBody room ls c →
      Separated (before ++ .symbol .openBrace :: (ks ++ ls ++ .symbol .closeBrace :: after))
        (before ++ .symbol .openBrace ::
          (ks ++ List.replicate n (.symbol .semicolon) ++ ls ++ .symbol .closeBrace :: after))
  | behindAttribute {before ks is js sep ls after : List TokenKind} {as bs : List Attribute}
      {key value : Id} :
      DerivesGroup ks as → DerivesId is key → DerivesId js value → Separates sep →
      DerivesGroup ls bs →
      Separated
        (before ++ .symbol .openBracket ::
          (ks ++ (is ++ .symbol .equal :: js) ++ ls ++ .symbol .closeBracket :: after))
        (before ++ .symbol .openBracket ::
          (ks ++ (is ++ .symbol .equal :: js ++ sep) ++ ls ++ .symbol .closeBracket :: after))

namespace Grammar

variable {room : Nat} {ks : List TokenKind}

theorem Separates.eq_symbol (h : Separates ks) : ∀ k ∈ ks, ∃ sym, k = .symbol sym := by
  cases h with
  | nothing => exact nofun
  | semicolon => simp
  | comma => simp

theorem DerivesBody.semicolons {b : List Stmt} (h : DerivesBody room ks b) (n : Nat) :
    DerivesBody room (List.replicate n (.symbol .semicolon) ++ ks) b := by
  induction n with
  | zero => exact h
  | succ n ih => exact .semicolon ih

/-- Further separators leave the graphs as they are. -/
theorem DerivesText.of_separated {d : Nat} {kinds kinds' : List TokenKind} {gs : List Graph}
    (h : DerivesText d kinds gs) (hseparated : Separated kinds kinds') :
    DerivesText d kinds' gs := by
  cases hseparated with
  | betweenStmts n hks hls =>
    refine h.replace_body (hks.append hls) ?_
    rw [List.append_assoc]
    exact hks.append (hls.semicolons n)
  | behindAttribute hks hkey hvalue hsep hls =>
    have hbare := DerivesGroup.cons hkey hvalue .nothing hls
    have hseparate := DerivesGroup.cons hkey hvalue hsep hls
    rw [List.append_nil] at hbare
    have hbare := hks.append hbare
    have hseparate := hks.append hseparate
    rw [← List.append_assoc] at hbare hseparate
    exact h.replace_group hbare hseparate

end Grammar

/-! ## Texts with these tokens -/

/-- Some text has the tokens `kinds`, and every text that has them is parsed to `gs`. -/
def ParsesTo (options : ParseOptions) (kinds : List TokenKind) (gs : List Graph) : Prop :=
  (∃ source tokens, Lexer.tokenize source = .ok tokens ∧ tokens.map Token.kind = kinds) ∧
    ∀ source tokens, Lexer.tokenize source = .ok tokens → tokens.map Token.kind = kinds →
      parse source options = .ok gs

theorem parsesTo_of_derivesText {options : ParseOptions} {kinds : List TokenKind}
    {gs : List Graph} (h : DerivesText options.maxDepth kinds gs) (hkinds : ∀ k ∈ kinds, k.Occurs) :
    ParsesTo options kinds gs := by
  refine ⟨?_, fun source tokens htokens hmap => parse_of_derivesText htokens (hmap ▸ h)⟩
  -- the end of input stands at the end only
  obtain ⟨taken, _, htaken, hfeed⟩ :=
    @Parser.State.feed_left _ options.maxDepth (.graph (.nextGraph [] .top)) kinds
  rw [Parser.State.feed_of_derivesText h (Nat.le_refl _), Parser.Outcome.left] at htaken
  have heof := Parser.State.eof_notMem_of_feed hfeed
  rw [htaken] at hkinds ⊢
  refine exists_tokenize_eq fun k hk => ?_
  exact (hkinds k (List.mem_append_left _ hk)).resolve_left fun hk' => heof (hk' ▸ hk)

theorem mergeGroups_sublist (kinds : List TokenKind) : (mergeGroups kinds).Sublist kinds := by
  fun_induction mergeGroups kinds with
  | case1 kinds ih => exact (ih.cons _).cons _
  | case2 kind kinds _ ih => exact ih.cons_cons _
  | case3 => exact .refl _

theorem occurs_of_alike {kinds kinds' : List TokenKind} (h : kinds.Forall₂ Alike kinds')
    (hkinds : ∀ k ∈ kinds, k.Occurs) : ∀ k ∈ kinds', k.Occurs := by
  induction h with
  | nil => exact hkinds
  | cons hkind _ ih =>
    rw [List.forall_mem_cons] at hkinds ⊢
    refine ⟨?_, ih hkinds.2⟩
    cases hkind with
    | same => exact hkinds.1
    | arrow _ op => exact .inr (TokenKind.spellable_edgeOp op)

/-- Only separators are added. -/
theorem Separated.mem_or {kinds kinds' : List TokenKind} (h : Separated kinds kinds')
    {k : TokenKind} (hk : k ∈ kinds') : k ∈ kinds ∨ ∃ sym, k = .symbol sym := by
  cases h with
  | betweenStmts n _ _ =>
    simp only [List.mem_append, List.mem_cons, List.mem_replicate] at hk ⊢
    grind
  | behindAttribute _ _ _ hsep _ =>
    have hsymbol := hsep.eq_symbol
    simp only [List.mem_append, List.mem_cons] at hk ⊢
    grind

theorem Separated.occurs {kinds kinds' : List TokenKind} (h : Separated kinds kinds')
    (hkinds : ∀ k ∈ kinds, k.Occurs) : ∀ k ∈ kinds', k.Occurs := by
  intro k hk
  rcases h.mem_or hk with hk | ⟨sym, rfl⟩
  · exact hkinds k hk
  · exact .inr (TokenKind.spellable_symbol sym)

/-- How statements and attributes are separated, into how many groups attributes are put and which
arrows there are makes no difference: without any separators, with merged groups and with any
arrows the graphs are the same, and so they are with further separators. -/
theorem parsesTo_of_choices {source : String} {tokens : List Token} {options : ParseOptions}
    {gs : List Graph} (htokens : Lexer.tokenize source = .ok tokens)
    (h : parse source options = .ok gs) :
    (∀ kinds, (mergeGroups (withoutSeparators (tokens.map Token.kind))).Forall₂ Alike kinds →
      ParsesTo options kinds gs) ∧
    ∀ kinds, Relation.ReflTransGen Separated (tokens.map Token.kind) kinds →
      ParsesTo options kinds gs := by
  obtain ⟨tokens', htokens', hderives⟩ := derivesText_of_parse h
  obtain rfl := Except.ok.inj (htokens.symm.trans htokens')
  have hoccurs := occurs_of_tokenize htokens
  constructor
  · intro kinds halike
    refine parsesTo_of_derivesText (hderives.condensed.of_alike halike) ?_
    refine occurs_of_alike halike fun k hk => hoccurs k ?_
    exact List.mem_of_mem_filter ((mergeGroups_sublist _).subset hk)
  · intro kinds hseparated
    suffices hkinds : DerivesText options.maxDepth kinds gs ∧ ∀ k ∈ kinds, k.Occurs from
      parsesTo_of_derivesText hkinds.1 hkinds.2
    induction hseparated with
    | refl => exact ⟨hderives, hoccurs⟩
    | tail _ hstep ih => exact ⟨ih.1.of_separated hstep, hstep.occurs ih.2⟩

/-- Of an edge with two groups and a semicolon: with one group, no semicolon and the other arrow,
and with a comma behind the attribute. -/
theorem parsesTo_of_choices_edge :
    parse "graph\x7ba--b[c=d][];\x7d" ⟨0⟩ =
      .ok [⟨⟨.undirected, false, none⟩,
        [.edge ⟨[.node ⟨.name "a", none⟩, .node ⟨.name "b", none⟩], [⟨.name "c", .name "d"⟩]⟩]⟩] ∧
    ParsesTo ⟨0⟩
      [.keyword .graph, .symbol .openBrace, .identifier "a", .edgeOp .directed, .identifier "b",
        .symbol .openBracket, .identifier "c", .symbol .equal, .identifier "d",
        .symbol .closeBracket, .symbol .closeBrace, .eof]
      [⟨⟨.undirected, false, none⟩,
        [.edge ⟨[.node ⟨.name "a", none⟩, .node ⟨.name "b", none⟩],
          [⟨.name "c", .name "d"⟩]⟩]⟩] ∧
    ParsesTo ⟨0⟩
      [.keyword .graph, .symbol .openBrace, .identifier "a", .edgeOp .undirected, .identifier "b",
        .symbol .openBracket, .identifier "c", .symbol .equal, .identifier "d", .symbol .comma,
        .symbol .closeBracket, .symbol .openBracket, .symbol .closeBracket, .symbol .semicolon,
        .symbol .closeBrace, .eof]
      [⟨⟨.undirected, false, none⟩,
        [.edge ⟨[.node ⟨.name "a", none⟩, .node ⟨.name "b", none⟩],
          [⟨.name "c", .name "d"⟩]⟩]⟩] := by
  have htokens : Lexer.tokenize "graph\x7ba--b[c=d][];\x7d" =
      .ok [⟨.keyword .graph, "graph", ⟨1, 1⟩⟩, ⟨.symbol .openBrace, "\x7b", ⟨1, 6⟩⟩,
        ⟨.identifier "a", "a", ⟨1, 7⟩⟩, ⟨.edgeOp .undirected, "--", ⟨1, 8⟩⟩,
        ⟨.identifier "b", "b", ⟨1, 10⟩⟩, ⟨.symbol .openBracket, "[", ⟨1, 11⟩⟩,
        ⟨.identifier "c", "c", ⟨1, 12⟩⟩, ⟨.symbol .equal, "=", ⟨1, 13⟩⟩,
        ⟨.identifier "d", "d", ⟨1, 14⟩⟩, ⟨.symbol .closeBracket, "]", ⟨1, 15⟩⟩,
        ⟨.symbol .openBracket, "[", ⟨1, 16⟩⟩, ⟨.symbol .closeBracket, "]", ⟨1, 17⟩⟩,
        ⟨.symbol .semicolon, ";", ⟨1, 18⟩⟩, ⟨.symbol .closeBrace, "\x7d", ⟨1, 19⟩⟩,
        ⟨.eof, "", ⟨1, 20⟩⟩] :=
    Lexer.tokenize_eq_of_within 20 rfl rfl
  have h : parse "graph\x7ba--b[c=d][];\x7d" ⟨0⟩ =
      .ok [⟨⟨.undirected, false, none⟩,
        [.edge ⟨[.node ⟨.name "a", none⟩, .node ⟨.name "b", none⟩], [⟨.name "c", .name "d"⟩]⟩]⟩] :=
    parse_eq_of_within 50 rfl rfl
  obtain ⟨hcondensed, hseparated⟩ := parsesTo_of_choices htokens h
  refine ⟨h, hcondensed _ ?_, hseparated _ (.single ?_)⟩
  · repeat' constructor
  · exact @Separated.behindAttribute
      [.keyword .graph, .symbol .openBrace, .identifier "a", .edgeOp .undirected, .identifier "b"]
      [] [.identifier "c"] [.identifier "d"] [.symbol .comma] []
      [.symbol .openBracket, .symbol .closeBracket, .symbol .semicolon, .symbol .closeBrace, .eof]
      _ _ _ _ .nil (.identifier "c") (.identifier "d") .comma .nil

end DotLang
