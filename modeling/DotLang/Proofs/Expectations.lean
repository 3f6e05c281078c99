import DotLang.Proofs.BoundedRuns
import DotLang.Proofs.NestingLimit
import Mathlib.Data.Prod.Lex

/-!
# What an error says could have stood there

An error names what could have stood in place of the token that is refused. A state refuses a token
behind any number of moves in front of it, and these moves depend on the token. Still each token that
is named would have been taken there, unless it opens a subgraph too many.

* `Parser.Expectation.describe_injective`: a text of an error has one meaning.
* `Parser.State.accepts_of_refused`: what is named in place of a token is taken in its place.
* `Cursor.items_sorted`: the tokens of a text stand at different places.
* `expected_tokens_go_on`: the texts of an error, told from the results of other parses.
-/

namespace DotLang

/-! ## The texts -/

/-- The tokens that a text in the list of what was expected stands for. -/
inductive Describes : String → TokenKind → Prop where
  | identifier {kind : TokenKind} : kind.startsId = true → Describes "identifier" kind
  | attributeName {kind : TokenKind} : kind.startsId = true → Describes "attribute name" kind
  | string (value : String) : Describes "string" (.string value)
  | symbol (s : Symbol) : Describes s.quoted (.symbol s)
  | keyword (word : Keyword) : Describes ("'" ++ word.name ++ "'") (.keyword word)

namespace Parser.Expectation

/-- Everything that can be expected but the limit. -/
def all : List Expectation :=
  [identifier, attributeName, string] ++ Symbol.all.map symbol ++ Keyword.all.map keyword

theorem mem_all {x : Expectation} (h : ∀ limit, x ≠ nesting limit) : x ∈ all := by
  cases x with
  | symbol s => cases s <;> decide
  | keyword word => cases word <;> decide
  | nesting limit => exact absurd rfl (h limit)
  | _ => decide

/-- Different expectations have different texts. -/
theorem nodup_describe : (all.map describe).Nodup := by decide +kernel

theorem describe_injective {x y : Expectation} (hx : x ∈ all) (hy : y ∈ all)
    (h : x.describe = y.describe) : x = y :=
  List.inj_on_of_nodup_map nodup_describe hx hy h

/-- The tokens that an expectation stands for. -/
def Covers : Expectation → TokenKind → Prop
  | identifier, kind | attributeName, kind => kind.startsId = true
  | string, kind => ∃ value, kind = .string value
  | symbol s, kind => kind = .symbol s
  | keyword word, kind => kind = .keyword word
  | nesting _, _ => False

theorem covers_of_describes {x : Expectation} {kind : TokenKind} (h : Describes x.describe kind)
    (hx : x ∈ all) : x.Covers kind := by
  generalize htext : x.describe = text at h
  cases h with
  | identifier hkind =>
    obtain rfl : x = .identifier := describe_injective hx (mem_all (by simp)) htext
    exact hkind
  | attributeName hkind =>
    obtain rfl : x = .attributeName := describe_injective hx (mem_all (by simp)) htext
    exact hkind
  | string value =>
    obtain rfl : x = .string := describe_injective hx (mem_all (by simp)) htext
    exact ⟨value, rfl⟩
  | symbol s =>
    obtain rfl : x = .symbol s := describe_injective hx (mem_all (by simp)) htext
    rfl
  | keyword word =>
    obtain rfl : x = .keyword word := describe_injective hx (mem_all (by simp)) htext
    rfl

/-- The end of input is never expected. -/
theorem Covers.ne_eof {x : Expectation} {kind : TokenKind} (h : x.Covers kind) : kind ≠ .eof := by
  rintro rfl
  cases x with
  | string =>
    obtain ⟨value, h⟩ := h
    cases h
  | nesting limit => exact h
  | _ => cases h

end Parser.Expectation

/-! ## Taking what is expected -/

namespace Parser.State

variable {goal c : Construct} {d : Nat} {s s' : State goal} {kind kind' : TokenKind}

/-- A token is not refused, or only on account of the limit. -/
def Accepts (d : Nat) (s : State goal) (kind : TokenKind) : Prop :=
  ∀ expected left, s.feed d [kind] = .refused expected left → expected = [.nesting d]

theorem Shifts.accepts (h : Shifts d s kind s') : s.Accepts d kind := by
  intro expected left hfeed
  rw [h.feed_cons, feed_nil] at hfeed
  cases hfeed

theorem Passes.accepts (h : Passes d s kind s') (hs' : s'.Accepts d kind) : s.Accepts d kind := by
  intro expected left hfeed
  rw [h.feed_cons] at hfeed
  exact hs' expected left hfeed

theorem accepts_of_finish {value : goal.Value} (h : s.step d kind = .finish value) :
    s.Accepts d kind := by
  intro expected left hfeed
  rw [feed_of_finish h] at hfeed
  cases hfeed

theorem accepts_id {slot : Slot goal .id} (h : kind.startsId = true) :
    (id slot).Accepts d kind := by
  cases kind with
  | identifier => exact Shifts.identifier.accepts
  | string => exact Shifts.firstString.accepts
  | html => exact Shifts.html.accepts
  | number => exact Shifts.number.accepts
  | _ => cases h

theorem accepts_subgraph {slot : Slot goal .subgraph} (h : kind.startsSubgraph = true) :
    (subgraph slot).Accepts d kind := by
  intro expected left hfeed
  by_cases hdepth : d ≤ slot.depth
  · have hstep : (subgraph slot).step d kind = .reject [.nesting d] := by rw [step, if_pos hdepth]
    rw [feed_of_reject hstep] at hfeed
    exact (Outcome.refused.inj hfeed).1.symm
  · obtain ⟨s', hs'⟩ := feed_startsSubgraph hdepth h
    rw [hs'] at hfeed
    cases hfeed

/-! ## What a state names -/

/-- What a state names if it refuses a token. -/
def named (maxDepth : Nat) : State goal → List Expectation
  | graph _ => [.keyword .strict, .keyword .graph, .keyword .digraph]
  | strictGraph _ => [.keyword .graph, .keyword .digraph]
  | openGraph _ _ | openSubgraph _ _ => [.symbol .openBrace]
  | body _ _ => [.symbol .closeBrace]
  | stmt _ =>
    [.identifier, .symbol .openBrace, .symbol .closeBrace, .keyword .graph, .keyword .node,
      .keyword .edge, .keyword .subgraph]
  | target _ _ => [.symbol .openBracket]
  | endpoint _ _ => [.identifier, .symbol .openBrace, .keyword .subgraph]
  | subgraph _ => [.nesting maxDepth]
  | group _ _ => [.attributeName, .symbol .closeBracket]
  | equals _ _ _ => [.symbol .equal]
  | id _ => [.identifier]
  | plus _ _ => [.string]
  | _ => []

theorem eq_named_of_reject {expected : List Expectation}
    (h : s.step d kind = .reject expected) : expected = s.named d := by
  revert h
  fun_cases step d s kind <;> intro h
  all_goals first
    | simp only [reduceCtorEq] at h
    | exact eq_of_expect_reject h
    | exact (Move.reject.inj h).symm

/-- A token is never refused without a name of one that could have stood there. -/
theorem ne_nil_of_reject {expected : List Expectation} (h : s.step d kind = .reject expected) :
    expected ≠ [] := by
  rintro rfl
  revert h
  fun_cases step d s kind <;> intro h
  all_goals first
    | simp only [reduceCtorEq] at h
    | cases eq_of_expect_reject h
    | cases h

theorem ne_nil_of_refused {expected : List Expectation} {kinds left : List TokenKind}
    (h : s.feed d kinds = .refused expected left) : expected ≠ [] := by
  fun_induction feed d s kinds with
  | case1 s => cases h
  | case2 s kind kinds next hstep ih => exact ih h
  | case3 s kind kinds next hstep ih => exact ih h
  | case4 s kind kinds value hstep => cases h
  | case5 s kind kinds expected' hstep =>
    obtain ⟨rfl, -⟩ := Outcome.refused.inj h
    exact ne_nil_of_reject hstep

/-- What a state names it takes, but for the brace behind the last statement. -/
theorem accepts_of_named {x : Expectation} (hx : x ∈ s.named d) (hkind : x.Covers kind) :
    s.Accepts d kind ∨ kind = .symbol .closeBrace ∧ ∃ slot, s = stmt slot := by
  cases s with
  | graph slot =>
    simp only [named, List.mem_cons, List.not_mem_nil, or_false] at hx
    rcases hx with rfl | rfl | rfl <;> obtain rfl := hkind
    · exact .inl Shifts.strict.accepts
    · exact .inl (Shifts.graphWord rfl).accepts
    · exact .inl (Shifts.graphWord rfl).accepts
  | strictGraph slot =>
    simp only [named, List.mem_cons, List.not_mem_nil, or_false] at hx
    rcases hx with rfl | rfl <;> obtain rfl := hkind
    · exact .inl (Shifts.strictGraphWord rfl).accepts
    · exact .inl (Shifts.strictGraphWord rfl).accepts
  | openGraph head slot =>
    obtain rfl := List.mem_singleton.1 hx
    obtain rfl := hkind
    exact .inl Shifts.openGraph.accepts
  | openSubgraph i slot =>
    obtain rfl := List.mem_singleton.1 hx
    obtain rfl := hkind
    exact .inl Shifts.openSubgraph.accepts
  | body before slot =>
    obtain rfl := List.mem_singleton.1 hx
    obtain rfl := hkind
    exact .inl Shifts.closeBody.accepts
  | stmt slot =>
    simp only [named, List.mem_cons, List.not_mem_nil, or_false] at hx
    rcases hx with rfl | rfl | rfl | rfl | rfl | rfl | rfl
    · exact .inl ((Passes.firstId hkind).accepts (accepts_id hkind))
    · obtain rfl := hkind
      exact .inl ((Passes.firstSubgraph rfl).accepts (accepts_subgraph rfl))
    · exact .inr ⟨hkind, slot, rfl⟩
    · obtain rfl := hkind
      exact .inl (Shifts.target rfl).accepts
    · obtain rfl := hkind
      exact .inl (Shifts.target rfl).accepts
    · obtain rfl := hkind
      exact .inl (Shifts.target rfl).accepts
    · obtain rfl := hkind
      exact .inl ((Passes.firstSubgraph rfl).accepts (accepts_subgraph rfl))
  | target t slot =>
    obtain rfl := List.mem_singleton.1 hx
    obtain rfl := hkind
    exact .inl Shifts.openTarget.accepts
  | endpoint before slot =>
    simp only [named, List.mem_cons, List.not_mem_nil, or_false] at hx
    rcases hx with rfl | rfl | rfl
    · exact .inl ((Passes.nextId hkind).accepts (accepts_id hkind))
    · obtain rfl := hkind
      exact .inl ((Passes.nextSubgraph rfl).accepts (accepts_subgraph rfl))
    · obtain rfl := hkind
      exact .inl ((Passes.nextSubgraph rfl).accepts (accepts_subgraph rfl))
  | subgraph slot =>
    obtain rfl := List.mem_singleton.1 hx
    exact absurd hkind not_false
  | group before slot =>
    simp only [named, List.mem_cons, List.not_mem_nil, or_false] at hx
    rcases hx with rfl | rfl
    · exact .inl ((Passes.attributeKey hkind).accepts (accepts_id hkind))
    · obtain rfl := hkind
      exact .inl Shifts.closeGroup.accepts
  | equals before key slot =>
    obtain rfl := List.mem_singleton.1 hx
    obtain rfl := hkind
    exact .inl Shifts.equal.accepts
  | id slot =>
    obtain rfl := List.mem_singleton.1 hx
    exact .inl (accepts_id hkind)
  | plus value slot =>
    obtain rfl := List.mem_singleton.1 hx
    obtain ⟨more, rfl⟩ := hkind
    exact .inl Shifts.nextString.accepts
  | _ => exact absurd hx List.not_mem_nil

/-! ## The moves in front of a token -/

/-- A state that takes some tokens and moves on in front of the others. -/
theorem accepts_or_pass {p : Prop} (htaken : p → s.Accepts d kind)
    (hpass : ¬ p → Passes d s kind s') : s.Accepts d kind ∨ Passes d s kind s' := by
  by_cases hp : p
  · exact .inl (htaken hp)
  · exact .inr (hpass hp)

/-- If a state moves on in front of a token that is then refused, any other token is taken there, or
the state moves on in front of it in the same way. -/
theorem Passes.accepts_or (h : Passes d s kind s') (hrefused : ¬ s'.Accepts d kind)
    (hkind' : kind' ≠ .eof) : s.Accepts d kind' ∨ Passes d s kind' s' := by
  cases h with
  | @lastGraph before slot =>
    cases slot
    exact absurd (accepts_of_finish rfl) hrefused
  | nextGraph => exact .inr (.nextGraph hkind')
  | graphId hkind => exact absurd (accepts_id hkind) hrefused
  | noGraphId =>
    exact accepts_or_pass (fun hid => (Passes.graphId hid).accepts (accepts_id hid)) .noGraphId
  | nextStmt =>
    by_cases hsemicolon : kind' = .symbol .semicolon
    · subst hsemicolon
      exact .inl Shifts.semicolon.accepts
    · refine accepts_or_pass ?_ fun hbrace => .nextStmt hsemicolon hbrace hkind'
      rintro rfl
      exact Shifts.closeBody.accepts
  | firstSubgraph hkind => exact absurd (accepts_subgraph hkind) hrefused
  | firstId hkind => exact absurd (accepts_id hkind) hrefused
  | firstNode =>
    refine accepts_or_pass ?_ .firstNode
    rintro rfl
    exact Shifts.assign.accepts
  | nodeAttributes => exact accepts_or_pass (fun h => (Shifts.nodeArrow h).accepts) .nodeAttributes
  | subgraphStmt => exact accepts_or_pass (fun h => (Shifts.subgraphArrow h).accepts) .subgraphStmt
  | edgeAttributes => exact accepts_or_pass (fun h => (Shifts.arrow h).accepts) .edgeAttributes
  | nextSubgraph hkind => exact absurd (accepts_subgraph hkind) hrefused
  | nextId hkind => exact absurd (accepts_id hkind) hrefused
  | bareSubgraph hdepth =>
    refine accepts_or_pass ?_ (.bareSubgraph hdepth)
    rintro rfl
    exact (Shifts.subgraphWord hdepth).accepts
  | subgraphId hkind => exact absurd (accepts_id hkind) hrefused
  | noSubgraphId =>
    exact accepts_or_pass (fun hid => (Passes.subgraphId hid).accepts (accepts_id hid))
      .noSubgraphId
  | noPort =>
    refine accepts_or_pass ?_ .noPort
    rintro rfl
    exact Shifts.port.accepts
  | noCompass =>
    refine accepts_or_pass ?_ .noCompass
    rintro rfl
    exact Shifts.compass.accepts
  | lastGroup =>
    refine accepts_or_pass ?_ .lastGroup
    rintro rfl
    exact Shifts.openGroup.accepts
  | attributeKey hkind => exact absurd (accepts_id hkind) hrefused
  | noSeparator => exact accepts_or_pass (fun h => (Shifts.separate h).accepts) .noSeparator
  | lastString =>
    refine accepts_or_pass ?_ .lastString
    rintro rfl
    exact Shifts.plus.accepts

theorem fill_ne_stmt {slot : Slot goal c} (value : c.Value) (slot' : Slot goal .stmt) :
    slot.fill value ≠ stmt slot' := by
  induction slot with
  | graphBody head slot ih => exact ih _
  | subgraphBody i slot ih => exact ih _
  | assigned key slot ih => exact ih _
  | nodeAttributes node slot ih => exact ih _
  | targetAttributes t slot ih => exact ih _
  | edgeStmt slot ih => exact ih _
  | edgeAttributes es slot ih => exact ih _
  | compass i p slot ih => exact ih _
  | _ => exact fun h => by cases h

theorem Shifts.ne_stmt (h : Shifts d s kind s') (slot : Slot goal .stmt) : s' ≠ stmt slot := by
  cases h with
  | closeBody => exact fill_ne_stmt _ _
  | identifier => exact fill_ne_stmt _ _
  | number => exact fill_ne_stmt _ _
  | html => exact fill_ne_stmt _ _
  | _ => exact fun h => by cases h

/-- In front of the brace behind the last statement no further one begins. -/
theorem not_passes_stmt (slot : Slot goal .stmt) :
    ¬ Passes d s (.symbol .closeBrace) (stmt slot) := by
  generalize hs' : stmt slot = s'
  intro h
  cases h with
  | nextStmt _ hbrace => exact hbrace rfl
  | subgraphStmt => exact fill_ne_stmt _ _ hs'.symm
  | noPort => exact fill_ne_stmt _ _ hs'.symm
  | noCompass => exact fill_ne_stmt _ _ hs'.symm
  | lastGroup => exact fill_ne_stmt _ _ hs'.symm
  | lastString => exact fill_ne_stmt _ _ hs'.symm
  | _ => cases hs'

/-- What is named in place of a token that is refused is taken in its place. -/
theorem accepts_of_refused {expected : List Expectation} {left : List TokenKind}
    {x : Expectation} (h : s.feed d [kind] = .refused expected left)
    (hexpected : expected ≠ [.nesting d]) (hx : x ∈ expected) (hkind' : x.Covers kind') :
    s.Accepts d kind' ∨ kind' = .symbol .closeBrace ∧ ∃ slot, s = stmt slot := by
  generalize hkinds : [kind] = kinds at h
  fun_induction feed d s kinds with
  | case1 s => cases hkinds
  | case2 s first kinds next hstep ih =>
    obtain ⟨rfl, rfl⟩ := List.cons.inj hkinds
    rw [feed_nil] at h
    cases h
  | case3 s first kinds next hstep ih =>
    obtain ⟨rfl, rfl⟩ := List.cons.inj hkinds
    have hrefused : ¬ next.Accepts d kind := fun haccepts => hexpected (haccepts _ _ h)
    rcases (Passes.of_step hstep).accepts_or hrefused hkind'.ne_eof with haccepts | hpass
    · exact .inl haccepts
    · rcases ih rfl h with haccepts | ⟨rfl, slot, rfl⟩
      · exact .inl (hpass.accepts haccepts)
      · exact absurd hpass (not_passes_stmt slot)
  | case4 s first kinds value hstep => cases h
  | case5 s first kinds expected' hstep =>
    obtain ⟨rfl, -⟩ := Outcome.refused.inj h
    rw [eq_named_of_reject hstep] at hx
    exact accepts_of_named hx hkind'

/-- Behind tokens that begin a text, what is named in place of the token that is refused is taken in
its place. -/
theorem refused_of_named {before after more : List TokenKind} {expected expected' : List Expectation}
    {x : Expectation}
    (h : (graph (.nextGraph [] .top) : State .graphs).feed d (before ++ kind :: after) =
      .refused expected (kind :: after))
    (hexpected : expected ≠ [.nesting d]) (hx : x ∈ expected) (hkind' : x.Covers kind')
    (h' : (graph (.nextGraph [] .top) : State .graphs).feed d (before ++ kind' :: more) =
      .refused expected' (kind' :: more)) : expected' = [.nesting d] := by
  obtain ⟨taken, s, htaken, hs⟩ :=
    @feed_left _ d (graph (.nextGraph [] .top) : State .graphs) (before ++ kind :: after)
  rw [h, Outcome.left] at htaken
  obtain rfl := List.append_cancel_right htaken
  have hne (slot : Slot .graphs .stmt) : s ≠ stmt slot :=
    holds_of_feed (· ≠ stmt slot) (fun _ _ _ hshift => hshift.ne_stmt slot) hs
      (.inr fun h => by cases h)
  rw [feed_append, hs, Outcome.andThen] at h h'
  rcases accepts_of_refused (feed_one_of_refused h) hexpected hx hkind' with
    haccepts | ⟨-, slot, hslot⟩
  · exact haccepts _ _ (feed_one_of_refused h')
  · exact absurd hslot (hne slot)

end Parser.State

/-! ## The places of tokens -/

namespace Position

/-- Places are compared by their lines first. -/
def key (p : Position) : Nat ×ₗ Nat := toLex (p.line, p.col)

theorem key_lt_next (p : Position) (c : Char) : p.key < (p.next c).key := by
  rw [key, key, Prod.Lex.toLex_lt_toLex]
  by_cases hc : c = '\n'
  · subst hc
    exact .inl (Nat.lt_succ_self _)
  · rw [next_of_ne p hc]
    exact .inr ⟨rfl, Nat.lt_succ_self _⟩

theorem key_le_after (p : Position) (text : List Char) : p.key ≤ (p.after text).key := by
  induction text generalizing p with
  | nil => exact le_refl _
  | cons c text ih => exact (p.key_lt_next c).le.trans (ih _)

theorem key_lt_after (p : Position) {text : List Char} (h : text ≠ []) :
    p.key < (p.after text).key := by
  obtain ⟨c, text, rfl⟩ := List.exists_cons_of_ne_nil h
  exact (p.key_lt_next c).trans_le (key_le_after _ _)

end Position

namespace Cursor

variable {c c' : Cursor} {token : Token}

theorem key_le_of_next (h : c.next = (.ok token, c')) : c.pos.key ≤ token.pos.key := by
  have hreads := c.next_reads
  rw [h] at hreads
  obtain ⟨gap, -, -, hpos, -⟩ := hreads.of_ok
  rw [hpos]
  exact c.pos.key_le_after gap

/-- The cursor behind a token is further on than the token. -/
theorem key_lt_of_next (h : c.next = (.ok token, c')) (hkind : token.kind ≠ .eof) :
    token.pos.key < c'.pos.key := by
  have hreads := c.next_reads
  rw [h] at hreads
  cases hreads with
  | eof => exact absurd rfl hkind
  | token _ _ hspell =>
    show _ < (c.pos.after _).key
    rw [Position.after_append]
    exact Position.key_lt_after _ hspell.ne_nil

theorem key_le_of_mem_items (h : token ∈ c.readAll.items) : c.pos.key ≤ token.pos.key := by
  fun_induction readAll c with
  | case1 c e c' hnext => exact absurd h List.not_mem_nil
  | case2 c last c' hnext hkind =>
    obtain rfl := List.mem_singleton.1 h
    exact key_le_of_next hnext
  | case3 c first c' hnext hkind run ih =>
    rw [Run.items_cons] at h
    rcases List.mem_cons.1 h with rfl | h
    · exact key_le_of_next hnext
    · exact (key_le_of_next hnext).trans ((key_lt_of_next hnext hkind).le.trans (ih h))

/-- The tokens of a text stand in the order of their places. -/
theorem items_sorted (c : Cursor) :
    c.readAll.items.Pairwise fun a b => a.pos.key < b.pos.key := by
  fun_induction readAll c with
  | case1 c e c' hnext => exact .nil
  | case2 c last c' hnext hkind => exact List.pairwise_singleton _ _
  | case3 c first c' hnext hkind run ih =>
    rw [Run.items_cons]
    refine .cons (fun token htoken => ?_) ih
    exact (key_lt_of_next hnext hkind).trans_le (key_le_of_mem_items htoken)

theorem pos_ne_of_mem {before after : List Token} {other : Token}
    (h : c.readAll.items = before ++ token :: after) (hother : other ∈ after) :
    token.pos ≠ other.pos := by
  have hsorted := c.items_sorted
  rw [h, List.pairwise_append] at hsorted
  obtain ⟨-, hafter, -⟩ := hsorted
  intro hpos
  have hlt := (List.pairwise_cons.1 hafter).1 other hother
  rw [hpos] at hlt
  exact lt_irrefl _ hlt

/-- There is one token only at a place. -/
theorem eq_of_pos_eq {before after before' after' : List Token} {token' : Token}
    (h : c.readAll.items = before ++ token :: after)
    (h' : c.readAll.items = before' ++ token' :: after') (hpos : token.pos = token'.pos) :
    before = before' ∧ token = token' ∧ after = after' := by
  rcases List.append_eq_append_iff.1 (h.symm.trans h') with ⟨l, hl, hrest⟩ | ⟨l, hl, hrest⟩
  · cases l with
    | nil =>
      obtain ⟨rfl, rfl⟩ := List.cons.inj hrest
      exact ⟨by rw [hl, List.append_nil], rfl, rfl⟩
    | cons first l =>
      obtain ⟨rfl, rfl⟩ := List.cons.inj hrest
      exact absurd hpos (pos_ne_of_mem h (List.mem_append_right _ List.mem_cons_self))
  · cases l with
    | nil =>
      obtain ⟨rfl, rfl⟩ := List.cons.inj hrest
      exact ⟨by rw [hl, List.append_nil], rfl, rfl⟩
    | cons first l =>
      obtain ⟨rfl, rfl⟩ := List.cons.inj hrest
      exact absurd hpos.symm (pos_ne_of_mem h' (List.mem_append_right _ List.mem_cons_self))

end Cursor

/-! ## Parses -/

/-- A parse stops with the error `e` at `token`, behind the tokens `before`. -/
structure StopsAt (source : String) (options : ParseOptions) (before : List Token) (token : Token)
    (e : SyntaxError) : Prop where
  items : ∃ after, (Lexer.run source).items = before ++ token :: after
  result : parse source options = .error (.grammatical e)
  pos : e.pos = token.pos

variable {source : String} {options : ParseOptions} {before : List Token} {token : Token}
  {e : SyntaxError}

theorem exists_stopsAt (h : parse source options = .error (.grammatical e)) :
    ∃ before token, StopsAt source options before token e := by
  have hexplains := parse_explains source options
  rw [h] at hexplains
  generalize (Parser.State.graph (.nextGraph [] .top)).feed options.maxDepth
    (Lexer.run source).kinds = outcome at hexplains
  cases hexplains with
  | @refused expected before after token hitems => exact ⟨before, token, ⟨_, hitems⟩, h, rfl⟩

/-- The token at which a parse stops is the one that the grammar refuses. -/
theorem StopsAt.exists_refused (h : StopsAt source options before token e) :
    ∃ after expected,
      (Parser.State.graph (.nextGraph [] .top)).feed options.maxDepth
          (before.map Token.kind ++ token.kind :: after) = .refused expected (token.kind :: after) ∧
        e.expected = expected.map Parser.Expectation.describe := by
  obtain ⟨⟨after, hitems⟩, hresult, hpos⟩ := h
  have hexplains := parse_explains source options
  rw [hresult] at hexplains
  generalize hfeed : (Parser.State.graph (.nextGraph [] .top)).feed options.maxDepth
    (Lexer.run source).kinds = outcome at hexplains
  cases hexplains with
  | refused hitems' =>
    obtain ⟨rfl, rfl, rfl⟩ := Cursor.eq_of_pos_eq hitems' hitems hpos
    rw [Cursor.Run.kinds, hitems, List.map_append, List.map_cons] at hfeed
    exact ⟨_, _, hfeed, rfl⟩

/-- What an error says was expected would have been accepted, and it names something. Unless the
error is that no further subgraph may be open, let a token that one of its texts describes stand in
place of the token at which the parse stops, behind the same tokens: a parse of such a text does not
stop at that token, unless it is one that opens a subgraph too many. -/
theorem expected_tokens_go_on (h : parse source options = .error (.grammatical e))
    (he : ¬ (Error.grammatical e).IsNesting) :
    (∃ before token, StopsAt source options before token e) ∧ e.expected ≠ [] ∧
    ∀ before token, StopsAt source options before token e → ∀ text ∈ e.expected,
      ∀ source' before' token' e', before'.map Token.kind = before.map Token.kind →
        Describes text token'.kind → StopsAt source' options before' token' e' →
          (Error.grammatical e').IsNesting := by
  obtain ⟨before, token, hstops⟩ := exists_stopsAt h
  refine ⟨⟨before, token, hstops⟩, ?_, fun before token hstops text htext source' before' token' e'
    hsame hdescribes hstops' => ?_⟩
  · obtain ⟨after, expected, hfeed, hexpected⟩ := hstops.exists_refused
    rw [hexpected, Ne, List.map_eq_nil_iff]
    exact Parser.State.ne_nil_of_refused hfeed
  · obtain ⟨after, expected, hfeed, hexpected⟩ := hstops.exists_refused
    obtain ⟨after', expected', hfeed', hexpected'⟩ := hstops'.exists_refused
    rw [hexpected] at htext
    obtain ⟨x, hx, rfl⟩ := List.mem_map.1 htext
    have hlimit (limit : Nat) : x ≠ .nesting limit := by
      rintro rfl
      exact he ⟨limit, hexpected ▸ htext⟩
    have hne : expected ≠ [.nesting options.maxDepth] := by
      rintro rfl
      exact hlimit _ (List.mem_singleton.1 hx)
    have hcovers : x.Covers token'.kind :=
      Parser.Expectation.covers_of_describes hdescribes (Parser.Expectation.mem_all hlimit)
    rw [hsame] at hfeed'
    obtain rfl := Parser.State.refused_of_named hfeed hne hx hcovers hfeed'
    exact ⟨options.maxDepth, hexpected' ▸ List.mem_singleton_self _⟩

/-- In place of an equals sign in front of the statements of a graph the closing brace would have been
accepted. -/
theorem expected_tokens_go_on_brace :
    let before : List Token :=
      [⟨.keyword .graph, "graph", ⟨1, 1⟩⟩, ⟨.symbol .openBrace, "\x7b", ⟨1, 6⟩⟩]
    let e : SyntaxError := ⟨["identifier", "'\x7b'", "'\x7d'", "'graph'", "'node'", "'edge'",
      "'subgraph'"], "'='", ⟨1, 7⟩⟩
    parse "graph\x7b=" ⟨2⟩ = .error (.grammatical e) ∧ ¬ (Error.grammatical e).IsNesting ∧
      StopsAt "graph\x7b=" ⟨2⟩ before ⟨.symbol .equal, "=", ⟨1, 7⟩⟩ e ∧
      ∀ source' before' token' e', before'.map Token.kind = before.map Token.kind →
        token'.kind = .symbol .closeBrace → StopsAt source' ⟨2⟩ before' token' e' →
          (Error.grammatical e').IsNesting := by
  intro before e
  have h : parse "graph\x7b=" ⟨2⟩ = .error (.grammatical e) := parse_eq_of_within 20 rfl rfl
  have he : ¬ (Error.grammatical e).IsNesting := by
    rintro ⟨limit, hlimit⟩
    obtain ⟨n, hn⟩ := @Parser.Expectation.exists_nesting_mem [.identifier, .symbol .openBrace,
      .symbol .closeBrace, .keyword .graph, .keyword .node, .keyword .edge, .keyword .subgraph]
      limit hlimit
    simp at hn
  have hitems : (Lexer.run "graph\x7b=").items =
      before ++ [⟨.symbol .equal, "=", ⟨1, 7⟩⟩, ⟨.eof, "", ⟨1, 8⟩⟩] := by
    rw [@Lexer.run_eq_of_within _ _ _ 20 rfl rfl]
    rfl
  have hstops : StopsAt "graph\x7b=" ⟨2⟩ before ⟨.symbol .equal, "=", ⟨1, 7⟩⟩ e :=
    ⟨⟨_, hitems⟩, h, rfl⟩
  refine ⟨h, he, hstops, fun source' before' token' e' hsame hkind hstops' => ?_⟩
  have hbrace : Describes "'\x7d'" token'.kind := hkind ▸ Describes.symbol .closeBrace
  exact (expected_tokens_go_on h he).2.2 _ _ hstops "'\x7d'" (by decide) _ _ _ _ hsame hbrace hstops'

end DotLang
