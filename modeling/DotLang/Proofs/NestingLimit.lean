import DotLang.Proofs.Braces
import DotLang.Proofs.FirstError
import DotLang.Proofs.Gaps
import DotLang.Proofs.Nesting

/-!
# The limit on open subgraphs

How many subgraphs may be open matters in one place only: in front of a subgraph, where a parse
stops if there are as many already. So a greater limit changes nothing but parses that stop there.

* `State.feed_of_le`: with a greater limit, the same comes of the tokens, or the limit is reached.
* `State.opensAt_of_refused`: the limit is reached at the token that opens one subgraph too many.
* `parse_under_limits`: the results of a parse under two limits.
-/

namespace DotLang

namespace Grammar

/-- Behind the tokens `before` of a text, the token `kind` opens a subgraph inside `opened` other
ones: of the braces that are open one is that of the graph. -/
def OpensSubgraph (opened : Nat) (before : List TokenKind) (kind : TokenKind) : Prop :=
  kind.startsSubgraph = true ∧
    before.count (.symbol .openBrace) = before.count (.symbol .closeBrace) + (opened + 1) ∧
    ∃ room, Continues room before kind

/-- The token at the place `k` opens a subgraph inside `opened` other ones. -/
def OpensAt (opened : Nat) (kinds : List TokenKind) (k : Nat) : Prop :=
  ∃ kind, kinds[k]? = some kind ∧ OpensSubgraph opened (kinds.take k) kind

theorem opensAt_length {opened : Nat} {before after : List TokenKind} {kind : TokenKind} :
    OpensAt opened (before ++ kind :: after) before.length ↔ OpensSubgraph opened before kind := by
  unfold OpensAt
  simp

theorem opensAt_append {opened : Nat} {before after : List TokenKind} {k : Nat}
    (hk : k < before.length) : OpensAt opened (before ++ after) k ↔ OpensAt opened before k := by
  unfold OpensAt
  rw [List.getElem?_append_left hk, List.take_append_of_le_length (Nat.le_of_lt hk)]

end Grammar

/-- The error that no more subgraphs may be open, under some limit. -/
def Error.IsNesting : Error → Prop
  | .lexical _ => False
  | .grammatical e => ∃ limit, (Parser.Expectation.nesting limit).describe ∈ e.expected

namespace Parser

/-! ## The message -/

theorem Expectation.eq_nesting_of_describe {e : Expectation} {limit : Nat}
    (h : e.describe = (nesting limit).describe) : ∃ n, e = nesting n := by
  have hstart : e.describe.toList.take 3 = ['a', 't', ' '] := by
    rw [h, describe, String.toList_append, String.toList_append]
    rfl
  cases e with
  | nesting n => exact ⟨n, rfl⟩
  | identifier => exact absurd hstart (by decide)
  | attributeName => exact absurd hstart (by decide)
  | string => exact absurd hstart (by decide)
  | symbol s => cases s <;> exact absurd hstart (by decide)
  | keyword word => cases word <;> exact absurd hstart (by decide)

theorem Expectation.exists_nesting_mem {expected : List Expectation} {limit : Nat}
    (h : (nesting limit).describe ∈ expected.map describe) : ∃ n, nesting n ∈ expected := by
  obtain ⟨x, hx, hdescribe⟩ := List.mem_map.1 h
  obtain ⟨n, rfl⟩ := eq_nesting_of_describe hdescribe
  exact ⟨n, hx⟩

namespace State

open Grammar

variable {goal : Construct} {d d' : Nat}

/-! ## Two limits -/

/-- What a state does about a token is the same with a greater limit, unless it reaches the limit. -/
theorem step_of_le {s : State goal} {kind : TokenKind} {move : Move goal} (hd : d ≤ d')
    (h : s.step d kind = move) (hmove : move ≠ .reject [.nesting d]) : s.step d' kind = move := by
  rw [← h]
  cases s with
  | subgraph slot =>
    by_cases hdepth : d ≤ slot.depth
    · rw [step, if_pos hdepth] at h
      exact absurd h.symm hmove
    · rw [step, step, if_neg hdepth, if_neg fun h => hdepth (Nat.le_trans hd h)]
  | _ => rfl

/-- With a greater limit the same comes of the tokens, unless the limit is reached. -/
theorem feed_of_le (hd : d ≤ d') (s : State goal) (kinds : List TokenKind) :
    (∃ left, s.feed d kinds = .refused [.nesting d] left) ∨ s.feed d' kinds = s.feed d kinds := by
  fun_induction feed d s kinds with
  | case1 s => exact .inr feed_nil
  | case2 s kind kinds next hstep ih => rwa [feed_of_shift (step_of_le hd hstep (by simp))]
  | case3 s kind kinds next hstep ih => rwa [feed_of_pass (step_of_le hd hstep (by simp))]
  | case4 s kind kinds value hstep =>
    exact .inr (feed_of_finish (step_of_le hd hstep (by simp)))
  | case5 s kind kinds expected hstep =>
    by_cases hexpected : expected = [.nesting d]
    · exact .inl ⟨_, by rw [hexpected]⟩
    · right
      exact feed_of_reject (step_of_le hd hstep fun h => hexpected (Move.reject.inj h))

/-! ## Where the limit is reached -/

theorem eq_of_expect_reject {sym : Symbol} {next : State goal} {kind : TokenKind}
    {expected : List Expectation} (h : expect sym next kind = .reject expected) :
    expected = [.symbol sym] := by
  unfold expect at h
  split at h
  · exact nomatch h
  · exact (Move.reject.inj h).symm

/-- Only in front of a subgraph the limit is what stops a parse. -/
theorem eq_of_reject_nesting {s : State goal} {kind : TokenKind} {expected : List Expectation}
    {limit : Nat} (h : s.step d kind = .reject expected) (hlimit : .nesting limit ∈ expected) :
    ∃ slot, s = subgraph slot ∧ d ≤ slot.depth ∧ expected = [.nesting d] := by
  revert h
  fun_cases step d s kind <;> intro h
  all_goals first
    | simp only [reduceCtorEq] at h
    | (obtain rfl := eq_of_expect_reject h; simp at hlimit)
    | (obtain rfl := Move.reject.inj h; exact ⟨_, rfl, ‹_›, rfl⟩)
    | (obtain rfl := Move.reject.inj h; simp at hlimit)

/-- A token that may begin a subgraph is taken only inside fewer subgraphs than the limit. -/
theorem braces_le_of_shift {s s' : State .graphs} {kind : TokenKind} {ks : List TokenKind}
    (h : Shifts d s kind s') (hkind : kind.startsSubgraph = true) (hks : ks ∈ s.before d) :
    s.braces ≤ d := by
  have hnext : ks ++ [kind] ∈ s'.before d := h.before_mul_one_le (Language.append_mem_mul hks rfl)
  rcases startsSubgraph_iff.1 hkind with rfl | rfl
  · cases h with
    | @subgraphWord slot hdepth =>
      rw [braces, slot.braces_subgraph]
      exact Nat.lt_of_not_le hdepth
    | _ =>
      rename_i hword
      exact nomatch hword
  · cases h with
    | @openGraph head slot =>
      rw [braces, slot.depth_graph.2]
      exact Nat.zero_le _
    | @openSubgraph i slot =>
      obtain ⟨_, hbody, -⟩ := hnext
      rw [braces, slot.braces_subgraph]
      exact Slot.depth_le_of_mem_before hbody
    | _ =>
      rename_i hword
      exact nomatch hword

theorem braces_le_of_feed {s s' : State .graphs} {kind : TokenKind} {ks : List TokenKind}
    (h : s.feed d [kind] = .waiting s') (hkind : kind.startsSubgraph = true)
    (hks : ks ∈ s.before d) : s.braces ≤ d := by
  generalize hkinds : [kind] = kinds at h
  fun_induction feed d s kinds with
  | case1 s => cases hkinds
  | case2 s first kinds next hstep ih =>
    obtain ⟨rfl, _⟩ := List.cons.inj hkinds
    exact braces_le_of_shift (Shifts.of_step hstep) hkind hks
  | case3 s first kinds next hstep ih =>
    obtain ⟨rfl, _⟩ := List.cons.inj hkinds
    have hpass := Passes.of_step hstep
    rw [← hpass.braces_eq]
    exact ih (hpass.before_le hks) hkinds h
  | case4 s first kinds value hstep => cases h
  | case5 s first kinds expected hstep => cases h

/-- No move leads in front of a subgraph but at a token that begins one. -/
theorem Passes.startsSubgraph_or {s s' : State .graphs} {kind : TokenKind}
    (h : Passes d s kind s') :
    kind.startsSubgraph = true ∨ ∀ slot, s' ≠ subgraph slot := by
  cases h with
  | firstSubgraph hkind => exact .inl hkind
  | nextSubgraph hkind => exact .inl hkind
  | lastGraph => exact .inr (fill_ne_subgraph _)
  | subgraphStmt => exact .inr (fill_ne_subgraph _)
  | noPort => exact .inr (fill_ne_subgraph _)
  | noCompass => exact .inr (fill_ne_subgraph _)
  | lastGroup => exact .inr (fill_ne_subgraph _)
  | lastString => exact .inr (fill_ne_subgraph _)
  | _ => exact .inr fun _ => nofun

/-- If there is room for a subgraph the token that begins it is taken. -/
theorem feed_startsSubgraph {slot : Slot goal .subgraph} {kind : TokenKind}
    (hdepth : ¬ d ≤ slot.depth) (hkind : kind.startsSubgraph = true) :
    ∃ s', (subgraph slot).feed d [kind] = .waiting s' := by
  rcases startsSubgraph_iff.1 hkind with rfl | rfl
  · exact ⟨_, (Shifts.subgraphWord hdepth).feed_cons.trans feed_nil⟩
  · have hopen : Passes d (subgraph slot) (.symbol .openBrace) (openSubgraph none slot) :=
      .bareSubgraph hdepth (by decide)
    exact ⟨_, hopen.feed_cons.trans (Shifts.openSubgraph.feed_cons.trans feed_nil)⟩

/-- Where the limit is reached there is a token that begins a subgraph inside as many as the limit
says, and with room for one more it is taken. -/
theorem refused_nesting {s : State .graphs} {kind : TokenKind} {ks rest : List TokenKind}
    {expected : List Expectation} {limit : Nat}
    (h : s.feed d (kind :: rest) = .refused expected (kind :: rest))
    (hlimit : .nesting limit ∈ expected) (hks : ks ∈ s.before d)
    (hs : kind.startsSubgraph = true ∨ ∀ slot, s ≠ subgraph slot) :
    expected = [.nesting d] ∧ kind.startsSubgraph = true ∧ s.braces = d + 1 ∧
      ∃ s', s.feed (d + 1) [kind] = .waiting s' := by
  generalize hkinds : kind :: rest = kinds at h
  fun_induction feed d s kinds with
  | case1 s => cases hkinds
  | case2 s first kinds next hstep ih =>
    -- what is refused is not longer than what is given
    have := @length_left_le _ d next kinds
    rw [h, Outcome.left, List.length_cons] at this
    omega
  | case3 s first kinds next hstep ih =>
    obtain ⟨rfl, rfl⟩ := List.cons.inj hkinds
    have hpass := Passes.of_step hstep
    rw [feed_of_pass (step_of_le (Nat.le_succ d) hstep (by simp)), ← hpass.braces_eq]
    exact ih (hpass.before_le hks) hpass.startsSubgraph_or rfl h
  | case4 s first kinds value hstep => cases h
  | case5 s first kinds expected' hstep =>
    obtain ⟨rfl, rfl⟩ := List.cons.inj hkinds
    obtain ⟨rfl, -⟩ := Outcome.refused.inj h
    obtain ⟨slot, rfl, hdepth, hexpected⟩ := eq_of_reject_nesting hstep hlimit
    have hkind : kind.startsSubgraph = true := hs.resolve_right fun hne => hne slot rfl
    have hslot : slot.depth = d := Nat.le_antisymm (Slot.depth_le_of_mem_before hks) hdepth
    refine ⟨hexpected, hkind, ?_, feed_startsSubgraph (by omega) hkind⟩
    rw [braces, slot.braces_subgraph, hslot]

/-! ## The tokens that open subgraphs -/

/-- Tokens that are taken do not open more subgraphs than the limit says. -/
theorem not_opensSubgraph_of_waiting {s : State .graphs} {before after : List TokenKind}
    {kind : TokenKind}
    (h : (graph (.nextGraph [] .top)).feed d (before ++ kind :: after) = .waiting s) :
    ¬ OpensSubgraph d before kind := by
  rintro ⟨hkind, hcount, -⟩
  obtain ⟨middle, hmiddle, hrest⟩ := feed_eq_waiting_append h
  rw [← List.singleton_append] at hrest
  obtain ⟨next, hnext, -⟩ := feed_eq_waiting_append hrest
  have hle := braces_le_of_feed hnext hkind (mem_before_of_feed hmiddle nil_mem_before_start)
  have hbraces : middle.braces + before.count (.symbol .closeBrace) =
      0 + before.count (.symbol .openBrace) := count_of_feed hmiddle
  omega

theorem not_opensAt_of_waiting {s : State .graphs} {kinds : List TokenKind}
    (h : (graph (.nextGraph [] .top)).feed d kinds = .waiting s) (k : Nat) :
    ¬ OpensAt d kinds k := by
  rintro ⟨kind, hkind, hopens⟩
  rw [← List.take_append_drop k kinds, List.drop_eq_getElem?_toList_append, hkind] at h
  exact not_opensSubgraph_of_waiting h hopens

/-- The token at which the limit is reached is the first that opens one subgraph too many. -/
theorem opensAt_of_refused {before after : List TokenKind} {kind : TokenKind}
    {expected : List Expectation} {limit : Nat}
    (h : (graph (.nextGraph [] .top) : State .graphs).feed d (before ++ kind :: after) =
      .refused expected (kind :: after))
    (hlimit : .nesting limit ∈ expected) :
    expected = [.nesting d] ∧ OpensAt d (before ++ kind :: after) before.length ∧
      ∀ j < before.length, ¬ OpensAt d (before ++ kind :: after) j := by
  obtain ⟨taken, s, htaken, hs⟩ :=
    @feed_left _ d (graph (.nextGraph [] .top) : State .graphs) (before ++ kind :: after)
  rw [h, Outcome.left] at htaken
  obtain rfl := List.append_cancel_right htaken
  rw [feed_append, hs, Outcome.andThen] at h
  obtain ⟨hexpected, hkind, hbraces, s', hs'⟩ := refused_nesting h hlimit
    (mem_before_of_feed hs nil_mem_before_start)
    (.inr (ne_subgraph_of_feed hs (.inr fun _ => by simp)))
  refine ⟨hexpected, opensAt_length.2 ⟨hkind, ?_, d + 1, ?_⟩, fun j hj => ?_⟩
  · have hcount : s.braces + before.count (.symbol .closeBrace) =
        0 + before.count (.symbol .openBrace) := count_of_feed hs
    omega
  · -- with a greater limit the token is taken
    have hsame : (graph (.nextGraph [] .top) : State .graphs).feed (d + 1) before = .waiting s := by
      rcases feed_of_le (Nat.le_succ d) (graph (.nextGraph [] .top)) before with ⟨left, hleft⟩ | heq
      · rw [hs] at hleft
        cases hleft
      · exact heq.trans hs
    refine @continues_of_waiting _ s' _ [] _ ?_
    rw [feed_append, hsame]
    exact hs'
  · rw [opensAt_append hj]
    exact not_opensAt_of_waiting hs j

end State

end Parser

open Grammar

variable {d d' : Nat} {source : String}

/-! ## Parsing under two limits -/

/-- A parse that does not reach the limit has the same result under a greater one. -/
theorem parse_eq_of_le (hd : d ≤ d')
    (h : ∀ e, parse source ⟨d⟩ = .error e → ¬ e.IsNesting) :
    parse source ⟨d'⟩ = parse source ⟨d⟩ := by
  have hexplains := parse_explains source ⟨d⟩
  have hexplains' := parse_explains source ⟨d'⟩
  rcases Parser.State.feed_of_le hd (.graph (.nextGraph [] .top)) (Lexer.run source).kinds with
    ⟨left, hfeed⟩ | hfeed
  · rw [hfeed] at hexplains
    generalize hresult : parse source ⟨d⟩ = result at hexplains
    cases hexplains
    exact absurd ⟨d, List.mem_singleton_self _⟩ (h _ hresult)
  · rw [hfeed] at hexplains'
    exact hexplains'.unique hexplains

/-- A text that is accepted under one limit is accepted under another iff that one allows its
subgraphs. -/
theorem exists_parse_eq_ok_iff_nesting_le {gs : List Graph} (h : parse source ⟨d'⟩ = .ok gs) :
    (∃ gs', parse source ⟨d⟩ = .ok gs') ↔ ∀ g ∈ gs, g.nesting ≤ d := by
  obtain ⟨tokens, htokens, hderives⟩ := derivesText_of_parse h
  constructor
  · rintro ⟨gs', h'⟩
    obtain ⟨tokens', htokens', hderives'⟩ := derivesText_of_parse h'
    rw [htokens] at htokens'
    obtain rfl := Except.ok.inj htokens'
    rw [Parser.derivesText_unique hderives hderives']
    exact hderives'.iff_nesting_le.1 hderives'
  · intro hnesting
    exact ⟨gs, parse_of_derivesText htokens (hderives.iff_nesting_le.2 hnesting)⟩

/-- Where a parse reaches the limit a token opens one subgraph too many, and it is the first. -/
theorem opensAt_of_parse {e : Error} (h : parse source ⟨d⟩ = .error e) (he : e.IsNesting) :
    ∃ (k : Nat) (token : Token), (Lexer.run source).items[k]? = some token ∧
      OpensAt d (Lexer.run source).kinds k ∧
      (∀ j < k, ¬ OpensAt d (Lexer.run source).kinds j) ∧
      e = .grammatical
        ⟨["at most " ++ toString d ++ " nested subgraphs"], token.kind.describe, token.pos⟩ := by
  have hexplains := parse_explains source ⟨d⟩
  rw [h] at hexplains
  generalize hfeed : (Parser.State.graph (.nextGraph [] .top)).feed d
    (Lexer.run source).kinds = outcome at hexplains
  cases hexplains with
  | waiting => exact absurd he id
  | @refused expected before after token hitems =>
    obtain ⟨limit, hlimit⟩ := he
    obtain ⟨n, hx⟩ := Parser.Expectation.exists_nesting_mem hlimit
    have hkinds : (Lexer.run source).kinds =
        before.map Token.kind ++ token.kind :: after.map Token.kind := by
      rw [Cursor.Run.kinds, hitems, List.map_append, List.map_cons]
    rw [hkinds] at hfeed
    obtain ⟨rfl, hopens, hfirst⟩ := Parser.State.opensAt_of_refused hfeed hx
    rw [← hkinds, List.length_map] at hopens hfirst
    refine ⟨before.length, token, ?_, hopens, hfirst, rfl⟩
    rw [hitems, List.getElem?_append_right (Nat.le_refl _), Nat.sub_self]
    rfl

/-- The limit on open subgraphs only cuts off. Under a greater limit the result is the same, unless
the limit is reached; a text that is accepted under the greater limit is accepted under the smaller
one iff its subgraphs are nested no deeper; and where the limit is reached the error names it, at
the first token that opens a subgraph inside as many others. -/
theorem parse_under_limits (hd : d ≤ d') (source : String) :
    (∀ gs, parse source ⟨d⟩ = .ok gs → parse source ⟨d'⟩ = .ok gs) ∧
    (∀ e, parse source ⟨d⟩ = .error e → ¬ e.IsNesting → parse source ⟨d'⟩ = .error e) ∧
    (∀ gs, parse source ⟨d'⟩ = .ok gs →
      ((∃ gs', parse source ⟨d⟩ = .ok gs') ↔ ∀ g ∈ gs, g.nesting ≤ d)) ∧
    ∀ e, parse source ⟨d⟩ = .error e → e.IsNesting →
      ∃ (k : Nat) (token : Token), (Lexer.run source).items[k]? = some token ∧
        OpensAt d (Lexer.run source).kinds k ∧
        (∀ j < k, ¬ OpensAt d (Lexer.run source).kinds j) ∧
        e = .grammatical
          ⟨["at most " ++ toString d ++ " nested subgraphs"], token.kind.describe, token.pos⟩ := by
  refine ⟨fun gs h => ?_, fun e h he => ?_, fun gs => exists_parse_eq_ok_iff_nesting_le,
    fun e => opensAt_of_parse⟩
  · rw [parse_eq_of_le hd (fun e he => by rw [h] at he; exact nomatch he), h]
  · rw [parse_eq_of_le hd (fun e' h' => by rw [h] at h'; rwa [← Except.error.inj h']), h]

/-- The tokens of a graph that holds a subgraph. -/
theorem run_nested : (Lexer.run "graph\x7b\x7b\x7d\x7d").items =
    [⟨.keyword .graph, "graph", ⟨1, 1⟩⟩, ⟨.symbol .openBrace, "\x7b", ⟨1, 6⟩⟩,
      ⟨.symbol .openBrace, "\x7b", ⟨1, 7⟩⟩, ⟨.symbol .closeBrace, "\x7d", ⟨1, 8⟩⟩,
      ⟨.symbol .closeBrace, "\x7d", ⟨1, 9⟩⟩, ⟨.eof, "", ⟨1, 10⟩⟩] ∧
    ∃ last, (Lexer.run "graph\x7b\x7b\x7d\x7d").ending = .ok last := by
  have hword : Cursor.next ⟨['g', 'r', 'a', 'p', 'h', '{', '{', '}', '}'], ⟨1, 1⟩⟩ =
      (.ok ⟨.keyword .graph, "graph", ⟨1, 1⟩⟩, ⟨['{', '{', '}', '}'], ⟨1, 6⟩⟩) :=
    Cursor.next_of_absent rfl rfl
  have hgraph : Cursor.next ⟨['{', '{', '}', '}'], ⟨1, 6⟩⟩ =
      (.ok ⟨.symbol .openBrace, "\x7b", ⟨1, 6⟩⟩, ⟨['{', '}', '}'], ⟨1, 7⟩⟩) :=
    Cursor.next_of_absent rfl rfl
  have hsubgraph : Cursor.next ⟨['{', '}', '}'], ⟨1, 7⟩⟩ =
      (.ok ⟨.symbol .openBrace, "\x7b", ⟨1, 7⟩⟩, ⟨['}', '}'], ⟨1, 8⟩⟩) :=
    Cursor.next_of_absent rfl rfl
  have hclose : Cursor.next ⟨['}', '}'], ⟨1, 8⟩⟩ =
      (.ok ⟨.symbol .closeBrace, "\x7d", ⟨1, 8⟩⟩, ⟨['}'], ⟨1, 9⟩⟩) :=
    Cursor.next_of_absent rfl rfl
  have hlast : Cursor.next ⟨['}'], ⟨1, 9⟩⟩ =
      (.ok ⟨.symbol .closeBrace, "\x7d", ⟨1, 9⟩⟩, ⟨[], ⟨1, 10⟩⟩) :=
    Cursor.next_of_absent rfl rfl
  have hrun : Lexer.run "graph\x7b\x7b\x7d\x7d" =
      Cursor.readAll ⟨['g', 'r', 'a', 'p', 'h', '{', '{', '}', '}'], ⟨1, 1⟩⟩ := rfl
  rw [hrun, Cursor.readAll_of_token hword nofun, Cursor.readAll_of_token hgraph nofun,
    Cursor.readAll_of_token hsubgraph nofun, Cursor.readAll_of_token hclose nofun,
    Cursor.readAll_of_token hlast nofun, Cursor.readAll_of_eof (Cursor.next_nil _) rfl]
  exact ⟨rfl, _, rfl⟩

/-- A graph that holds a subgraph is cut off at the brace of the subgraph if none may be open. -/
theorem parse_under_limits_nested :
    parse "graph\x7b\x7b\x7d\x7d" ⟨1⟩ =
      .ok [⟨⟨.undirected, false, none⟩, [.subgraph ⟨none, []⟩]⟩] ∧
    parse "graph\x7b\x7b\x7d\x7d" ⟨0⟩ =
      .error (.grammatical ⟨["at most 0 nested subgraphs"], "'\x7b'", ⟨1, 7⟩⟩) := by
  obtain ⟨hitems, last, hending⟩ := run_nested
  have hbody : DerivesBody 1 [.symbol .openBrace, .symbol .closeBrace] [.subgraph ⟨none, []⟩] :=
    .cons (.subgraph (.bare .nil)) .nil
  have hgraph : DerivesText 1 ((Lexer.run "graph\x7b\x7b\x7d\x7d").items.map Token.kind)
      [⟨⟨.undirected, false, none⟩, [.subgraph ⟨none, []⟩]⟩] := by
    rw [hitems]
    exact .mk (.one (@DerivesGraph.mk _ _ _ _ _ (.keyword .graph) _ _ _ .absent rfl .absent hbody))
  have hone := parse_of_derivesText (Lexer.tokenize_eq_items hending) hgraph
  refine ⟨hone, ?_⟩
  obtain ⟨-, hother, hnesting, hlimit⟩ :=
    parse_under_limits (Nat.zero_le 1) "graph\x7b\x7b\x7d\x7d"
  generalize hzero : parse "graph\x7b\x7b\x7d\x7d" ⟨0⟩ = result at *
  cases result with
  | ok gs =>
    have hle := (hnesting _ hone).1 ⟨gs, rfl⟩
    simp [Graph.nesting, bodyNesting, Stmt.nesting, Subgraph.nesting] at hle
  | error e =>
    have he : e.IsNesting := by
      by_contra hne
      have := hother e rfl hne
      rw [hone] at this
      cases this
    obtain ⟨k, token, htoken, ⟨kind, hkind, hstarts, hcount, -⟩, -, rfl⟩ := hlimit e rfl he
    rw [Cursor.Run.kinds, hitems] at hkind hcount
    rw [hitems] at htoken
    -- the brace behind the word opens the graph and no subgraph
    rcases k with _ | _ | _ | k
    · obtain rfl := Option.some.inj hkind
      cases hstarts
    · exact absurd hcount (by decide)
    · obtain rfl := Option.some.inj htoken
      rfl
    · rcases k with _ | _ | _ | k
      · obtain rfl := Option.some.inj hkind
        cases hstarts
      · obtain rfl := Option.some.inj hkind
        cases hstarts
      · obtain rfl := Option.some.inj hkind
        cases hstarts
      · cases hkind

end DotLang
