import DotLang.Proofs.NestingLimit
import DotLang.Proofs.ParserCalls

/-!
# Counting open subgraphs

How many subgraphs are open can be told from the slots around a state. It can also be kept in a
counter that goes up where the body of a subgraph is opened and down where the body is closed, or
given up behind an error. A parser with such a counter does the same as one without, and between two
calls the counter is zero.

* `State.Shifts.depth_eq`, `State.Passes.depth_eq`: how one move changes the number.
* `State.Shifts.fits`, `State.Passes.fits`: no move opens more than may be open.
* `Slot.giveUp`, `Slot.giveUp_eq`: the counter behind an error.
* `runCounting_eq`: a run with a counter is the run, and the counter ends at zero.
* `parser_forgets_past_calls`: what a call gives does not depend on the calls before it.
-/

namespace DotLang.Parser

open Grammar

variable {goal c : Construct} {maxDepth : Nat}

namespace State

/-- The number of subgraphs whose bodies are open around a state. -/
def depth : State goal → Nat
  | done _ => 0
  | moreGraphs _ slot => slot.depth
  | graph slot | strictGraph slot | graphName _ _ slot | openGraph _ slot => slot.depth
  | body _ slot => slot.depth
  | stmt slot | target _ slot | afterId _ slot | afterNode _ slot | afterSubgraph _ slot =>
    slot.depth
  | edge _ slot | endpoint _ slot => slot.depth
  | subgraph slot | subgraphName slot | openSubgraph _ slot => slot.depth
  | nodeId _ slot | afterPort _ _ slot => slot.depth
  | attributes _ slot | group _ slot | equals _ _ slot | separator _ slot => slot.depth
  | id slot | string _ slot | plus _ slot => slot.depth

/-- One in the head of a subgraph, where a body is about to be opened. -/
def begun : State goal → Nat
  | subgraphName _ | openSubgraph _ _ => 1
  | id (.subgraphName _) | string _ (.subgraphName _) | plus _ (.subgraphName _) => 1
  | _ => 0

/-- The change of the counter when a token is taken. -/
def change : State goal → TokenKind → Int
  | openSubgraph _ _, _ => 1
  | body _ (.subgraphBody _ _), .symbol .closeBrace => -1
  | _, _ => 0

/-! ## One move -/

theorem depth_fill (slot : Slot goal c) (value : c.Value) (hc : c ≠ .body) :
    (slot.fill value).depth = slot.depth := by
  induction slot with
  | graphBody head slot ih => exact absurd rfl hc
  | subgraphBody i slot ih => exact absurd rfl hc
  | assigned key slot ih => exact ih _ (by decide)
  | nodeAttributes node slot ih => exact ih _ (by decide)
  | targetAttributes t slot ih => exact ih _ (by decide)
  | edgeStmt slot ih => exact ih _ (by decide)
  | edgeAttributes es slot ih => exact ih _ (by decide)
  | compass i p slot ih => exact ih _ (by decide)
  | _ => rfl

/-- Behind a body no more subgraphs are open than inside. -/
theorem depth_fill_le (slot : Slot goal c) (value : c.Value) :
    (slot.fill value).depth ≤ slot.depth := by
  by_cases hc : c = .body
  · subst hc
    cases slot with
    | top => exact Nat.zero_le _
    | graphBody head slot => exact (depth_fill slot _ (by decide)).le
    | subgraphBody i slot =>
      exact Nat.le_succ_of_le (depth_fill slot _ (by decide)).le
  · exact (depth_fill slot value hc).le

theorem begun_fill (slot : Slot goal c) (value : c.Value) (hc : c ≠ .id) :
    (slot.fill value).begun = 0 := by
  induction slot with
  | graphBody head slot ih => exact ih _ (by decide)
  | subgraphBody i slot ih => exact ih _ (by decide)
  | nodeAttributes node slot ih => exact ih _ (by decide)
  | targetAttributes t slot ih => exact ih _ (by decide)
  | edgeStmt slot ih => exact ih _ (by decide)
  | edgeAttributes es slot ih => exact ih _ (by decide)
  | graphName kind strict slot ih => exact absurd rfl hc
  | firstId slot ih => exact absurd rfl hc
  | assigned key slot ih => exact absurd rfl hc
  | nextId before slot ih => exact absurd rfl hc
  | subgraphName slot ih => exact absurd rfl hc
  | port i slot ih => exact absurd rfl hc
  | compass i p slot ih => exact absurd rfl hc
  | attributeKey before slot ih => exact absurd rfl hc
  | attributeValue before key slot ih => exact absurd rfl hc
  | _ => rfl

/-- An id is the only part of the head of a subgraph. -/
theorem begun_fill_id (slot : Slot goal .id) (i : Id) :
    (slot.fill i).begun = (id slot).begun := by
  cases slot with
  | assigned key slot => exact begun_fill slot _ (by decide)
  | compass i p slot => exact begun_fill slot _ (by decide)
  | _ => rfl

theorem begun_string (value : String) (slot : Slot goal .id) :
    (string value slot).begun = (id slot).begun := by
  cases slot <;> rfl

theorem begun_plus (value : String) (slot : Slot goal .id) :
    (plus value slot).begun = (id slot).begun := by
  cases slot <;> rfl

theorem Shifts.depth_eq {s s' : State goal} {kind : TokenKind} (h : Shifts maxDepth s kind s') :
    (s'.depth : Int) = s.depth + s.change kind := by
  cases h with
  | openSubgraph => rfl
  | @closeBody before slot =>
    cases slot with
    | top => rfl
    | graphBody head slot =>
      rw [Slot.fill, depth_fill _ _ (by decide)]
      exact (Int.add_zero _).symm
    | subgraphBody i slot =>
      rw [Slot.fill, depth_fill _ _ (by decide)]
      show (slot.depth : Int) = ((slot.depth + 1 : Nat) : Int) + -1
      omega
  | @semicolon before slot =>
    cases slot <;> exact (Int.add_zero _).symm
  | identifier =>
    rw [depth_fill _ _ (by decide)]
    exact (Int.add_zero _).symm
  | number =>
    rw [depth_fill _ _ (by decide)]
    exact (Int.add_zero _).symm
  | html =>
    rw [depth_fill _ _ (by decide)]
    exact (Int.add_zero _).symm
  | _ => exact (Int.add_zero _).symm

theorem Passes.depth_eq {s s' : State goal} {kind : TokenKind} (h : Passes maxDepth s kind s') :
    s'.depth = s.depth := by
  cases h with
  | lastGraph => exact depth_fill _ _ (by decide)
  | subgraphStmt => exact depth_fill _ _ (by decide)
  | noPort => exact depth_fill _ _ (by decide)
  | noCompass => exact depth_fill _ _ (by decide)
  | lastGroup => exact depth_fill _ _ (by decide)
  | lastString => exact depth_fill _ _ (by decide)
  | _ => rfl

/-! ## What may be open -/

/-- No more subgraphs are open than may be, and there is room for the one that is begun. -/
def Fits (maxDepth : Nat) (s : State goal) : Prop := s.depth + s.begun ≤ maxDepth

theorem Fits.depth_le {s : State goal} (h : s.Fits maxDepth) : s.depth ≤ maxDepth :=
  Nat.le_of_add_right_le h

theorem fits_fill {slot : Slot goal c} (value : c.Value) (hc : c ≠ .id)
    (h : slot.depth ≤ maxDepth) : (slot.fill value).Fits maxDepth := by
  have := depth_fill_le slot value
  rw [Fits, begun_fill slot value hc]
  omega

theorem fits_fill_id {slot : Slot goal .id} (i : Id) (h : (id slot).Fits maxDepth) :
    (slot.fill i).Fits maxDepth := by
  have hdepth : (slot.fill i).depth = slot.depth := depth_fill slot i (by decide)
  rw [Fits, begun_fill_id, hdepth]
  exact h

theorem Shifts.fits {s s' : State goal} {kind : TokenKind} (h : Shifts maxDepth s kind s')
    (hs : s.Fits maxDepth) : s'.Fits maxDepth := by
  cases h with
  | subgraphWord hdepth => exact Nat.lt_of_not_le hdepth
  | closeBody => exact fits_fill _ (by decide) hs
  | identifier => exact fits_fill_id _ hs
  | number => exact fits_fill_id _ hs
  | html => exact fits_fill_id _ hs
  | firstString =>
    rw [Fits, begun_string]
    exact hs
  | plus =>
    rw [Fits, begun_string] at hs
    rw [Fits, begun_plus]
    exact hs
  | nextString =>
    rw [Fits, begun_plus] at hs
    rw [Fits, begun_string]
    exact hs
  | _ => exact hs

theorem Passes.fits {s s' : State goal} {kind : TokenKind} (h : Passes maxDepth s kind s')
    (hs : s.Fits maxDepth) : s'.Fits maxDepth := by
  cases h with
  | bareSubgraph hdepth => exact Nat.lt_of_not_le hdepth
  | lastGraph => exact fits_fill _ (by decide) hs
  | subgraphStmt => exact fits_fill _ (by decide) hs
  | noPort => exact fits_fill _ (by decide) hs
  | noCompass => exact fits_fill _ (by decide) hs
  | lastGroup => exact fits_fill _ (by decide) hs
  | lastString =>
    rw [Fits, begun_string] at hs
    exact fits_fill_id _ hs
  | _ => exact hs

/-! ## The counter instead of the slots -/

/-- What a state does about a token if the counter says how many subgraphs are open. -/
def stepAt (maxDepth : Nat) (count : Int) : State goal → TokenKind → Move goal
  | subgraph slot, kind =>
    if (maxDepth : Int) ≤ count then .reject [.nesting maxDepth]
    else if kind = .keyword .subgraph then .shift (.subgraphName slot)
    else .pass (.openSubgraph none slot)
  | s, kind => s.step maxDepth kind

theorem stepAt_depth (s : State goal) (kind : TokenKind) :
    s.stepAt maxDepth s.depth kind = s.step maxDepth kind := by
  cases s with
  | subgraph slot => simp [stepAt, step, depth]
  | _ => rfl

/-- Whatever the counter says, some limit gives the same move, unless the token is refused. -/
theorem exists_step_of_stepAt {s : State goal} {kind : TokenKind} {count : Int} {move : Move goal}
    (h : s.stepAt maxDepth count kind = move) (hmove : ∀ expected, move ≠ .reject expected) :
    ∃ limit, s.step limit kind = move := by
  cases s with
  | subgraph slot =>
    refine ⟨slot.depth + 1, ?_⟩
    by_cases hcount : (maxDepth : Int) ≤ count
    · rw [stepAt, if_pos hcount] at h
      exact absurd h.symm (hmove _)
    · rw [stepAt, if_neg hcount] at h
      rw [step, if_neg (by omega)]
      exact h
  | _ => exact ⟨maxDepth, h⟩

end State

/-! ## A run with a counter -/

/-- What a call gives, the parser behind it, the values that the counter has on the way, and the
value behind the call. -/
structure Counted (α : Type) where
  result : Except Error α
  parser : Parser
  counts : List Int
  count : Int

/-- What a failed call gives. The constructs around a slot are given up from the innermost on, and
where the body of a subgraph is given up the counter goes down by one. -/
def Slot.giveUp {goal c : Construct} (e : Error) (p : Parser) :
    Slot goal c → Int → Counted goal.Value
  | top, count => ⟨.error e, p, [count], count⟩
  | nextGraph _ slot, count => slot.giveUp e p count
  | graphName _ _ slot, count => slot.giveUp e p count
  | graphBody _ slot, count => slot.giveUp e p count
  | nextStmt _ slot, count => slot.giveUp e p count
  | firstId slot, count => slot.giveUp e p count
  | assigned _ slot, count => slot.giveUp e p count
  | firstNode slot, count => slot.giveUp e p count
  | nodeAttributes _ slot, count => slot.giveUp e p count
  | targetAttributes _ slot, count => slot.giveUp e p count
  | firstSubgraph slot, count => slot.giveUp e p count
  | edgeStmt slot, count => slot.giveUp e p count
  | nextId _ slot, count => slot.giveUp e p count
  | nextNode _ slot, count => slot.giveUp e p count
  | nextSubgraph _ slot, count => slot.giveUp e p count
  | edgeAttributes _ slot, count => slot.giveUp e p count
  | subgraphName slot, count => slot.giveUp e p count
  | subgraphBody _ slot, count =>
    let after := slot.giveUp e p (count - 1)
    { after with counts := count :: after.counts }
  | port _ slot, count => slot.giveUp e p count
  | compass _ _ slot, count => slot.giveUp e p count
  | attributeKey _ slot, count => slot.giveUp e p count
  | attributeValue _ _ slot, count => slot.giveUp e p count

/-- What a call gives that fails in a state. -/
def State.giveUp (e : Error) (p : Parser) : State goal → Int → Counted goal.Value
  | done _, count => ⟨.error e, p, [count], count⟩
  | moreGraphs _ slot, count => slot.giveUp e p count
  | graph slot, count | strictGraph slot, count => slot.giveUp e p count
  | graphName _ _ slot, count | openGraph _ slot, count => slot.giveUp e p count
  | body _ slot, count => slot.giveUp e p count
  | stmt slot, count | target _ slot, count => slot.giveUp e p count
  | afterId _ slot, count | afterNode _ slot, count => slot.giveUp e p count
  | afterSubgraph _ slot, count => slot.giveUp e p count
  | edge _ slot, count | endpoint _ slot, count => slot.giveUp e p count
  | subgraph slot, count | subgraphName slot, count => slot.giveUp e p count
  | openSubgraph _ slot, count => slot.giveUp e p count
  | nodeId _ slot, count | afterPort _ _ slot, count => slot.giveUp e p count
  | attributes _ slot, count | group _ slot, count => slot.giveUp e p count
  | equals _ _ slot, count | separator _ slot, count => slot.giveUp e p count
  | id slot, count | string _ slot, count | plus _ slot, count => slot.giveUp e p count

/-- Reads on from a state of the grammar, with a counter for the open subgraphs. Behind an error
those that are open are given up. -/
def runCounting (p : Parser) (count : Int) (s : State goal) : Counted goal.Value :=
  match _hstep : s.stepAt p.options.maxDepth count p.current.kind with
  | .finish value => ⟨.ok value, p, [count], count⟩
  | .reject expected => s.giveUp (p.refuse expected) p count
  | .pass next => p.runCounting count next
  | .shift next =>
    match _hlex : p.lex with
    | (.error e, p') => s.giveUp e p' count
    | (.ok (), p') =>
      let after := p'.runCounting (count + s.change p.current.kind) next
      { after with counts := count :: after.counts }
termination_by (p.size, s.rank)
decreasing_by
  · obtain ⟨_, hmove⟩ := State.exists_step_of_stepAt ‹_› (by simp)
    exact Prod.Lex.right _ (State.rank_of_pass hmove)
  · obtain ⟨_, hmove⟩ := State.exists_step_of_stepAt ‹_› (by simp)
    exact Prod.Lex.left _ _ (size_of_lex (State.ne_eof_of_shift hmove) ‹_›)

variable {p p' : Parser} {s next : State goal} {count : Int}

theorem runCounting_of_finish {value : goal.Value}
    (h : s.stepAt p.options.maxDepth count p.current.kind = .finish value) :
    p.runCounting count s = ⟨.ok value, p, [count], count⟩ := by
  rw [runCounting]
  split <;> rename_i heq <;> rw [h] at heq <;> cases heq
  rfl

theorem runCounting_of_reject {expected : List Expectation}
    (h : s.stepAt p.options.maxDepth count p.current.kind = .reject expected) :
    p.runCounting count s = s.giveUp (p.refuse expected) p count := by
  rw [runCounting]
  split <;> rename_i heq <;> rw [h] at heq <;> cases heq
  rfl

theorem runCounting_of_pass (h : s.stepAt p.options.maxDepth count p.current.kind = .pass next) :
    p.runCounting count s = p.runCounting count next := by
  conv => lhs; rw [runCounting]
  split <;> rename_i heq <;> rw [h] at heq <;> cases heq
  rfl

theorem runCounting_of_lex_error {e : Error}
    (h : s.stepAt p.options.maxDepth count p.current.kind = .shift next)
    (hlex : p.lex = (.error e, p')) :
    p.runCounting count s = s.giveUp e p' count := by
  rw [runCounting]
  split <;> rename_i heq <;> rw [h] at heq <;> cases heq
  split <;> rename_i heq <;> rw [hlex] at heq <;> cases heq
  rfl

theorem runCounting_of_lex (h : s.stepAt p.options.maxDepth count p.current.kind = .shift next)
    (hlex : p.lex = (.ok (), p')) :
    p.runCounting count s =
      let after := p'.runCounting (count + s.change p.current.kind) next
      { after with counts := count :: after.counts } := by
  conv => lhs; rw [runCounting]
  split <;> rename_i heq <;> rw [h] at heq <;> cases heq
  split <;> rename_i heq <;> rw [hlex] at heq <;> cases heq
  rfl

/-! ## The run with a counter is the run -/

/-- The counter changes nothing, stays within the limit and is zero in the end. If the limit is what
stops the call, the counter has reached it on the way. -/
structure Counted.Agrees {α : Type} (maxDepth : Nat) (counted : Counted α)
    (plain : Except Error α × Parser) : Prop where
  result_eq : counted.result = plain.1
  parser_eq : counted.parser = plain.2
  count_eq : counted.count = 0
  bounded : ∀ n ∈ counted.counts, 0 ≤ n ∧ n ≤ maxDepth
  reached : ∀ e, plain.1 = .error e → e.IsNesting → (maxDepth : Int) ∈ counted.counts

/-- One after the other, as many bodies are given up as are open. -/
theorem Slot.giveUp_eq (slot : Slot goal c) (e : Error) (count : Int) :
    slot.giveUp e p count =
      ⟨.error e, p, (List.range (slot.depth + 1)).map fun (k : Nat) => count - k,
        count - slot.depth⟩ := by
  induction slot generalizing count with
  | top => simp [giveUp, depth]
  | subgraphBody i slot ih =>
    have hless (k : Nat) : count - 1 - k = count - (k + 1 : Nat) := by omega
    rw [giveUp, ih (count - 1), depth, @List.range_succ_eq_map (slot.depth + 1)]
    simp only [hless, List.map_cons, List.map_map, Function.comp_def, Nat.succ_eq_add_one,
      Int.natCast_zero, Int.sub_zero]
  | _ =>
    rename_i ih
    exact ih count

theorem State.giveUp_eq (s : State goal) (e : Error) (count : Int) :
    s.giveUp e p count =
      ⟨.error e, p, (List.range (s.depth + 1)).map fun (k : Nat) => count - k,
        count - s.depth⟩ := by
  cases s with
  | done value => simp [giveUp, depth]
  | _ => exact Slot.giveUp_eq _ e count

/-- Where a call fails the counter goes down from the number of open subgraphs to zero. -/
theorem State.Fits.agrees_giveUp {e : Error} (hs : s.Fits maxDepth)
    (hnesting : e.IsNesting → s.depth = maxDepth) :
    (s.giveUp e p s.depth).Agrees maxDepth (.error e, p) := by
  rw [State.giveUp_eq]
  refine ⟨rfl, rfl, Int.sub_self _, fun n hn => ?_, fun e' he hlimit => ?_⟩
  · obtain ⟨k, hk, rfl⟩ := List.mem_map.1 hn
    have := List.mem_range.1 hk
    have := hs.depth_le
    omega
  · obtain rfl := Except.error.inj he
    rw [← hnesting hlimit]
    exact List.mem_map.2 ⟨0, List.mem_range.2 (Nat.succ_pos _), Int.sub_zero _⟩

/-- A token is refused on account of the limit only if as many subgraphs are open. -/
theorem State.depth_eq_of_isNesting {expected : List Expectation} (hs : s.Fits maxDepth)
    (h : s.step maxDepth p.current.kind = .reject expected) (he : (p.refuse expected).IsNesting) :
    s.depth = maxDepth := by
  obtain ⟨limit, hlimit⟩ := he
  obtain ⟨n, hx⟩ := Expectation.exists_nesting_mem hlimit
  obtain ⟨slot, rfl, hdepth, -⟩ := State.eq_of_reject_nesting h hx
  exact Nat.le_antisymm hs hdepth

theorem not_isNesting_of_lex {e : Error} (h : p.lex = (.error e, p')) : ¬ e.IsNesting := by
  obtain ⟨e', rfl, -⟩ := readAll_of_lex_error h
  exact id

/-- A run whose counter starts with the number of open subgraphs is the run. -/
theorem runCounting_eq (p : Parser) (s : State goal) (hs : s.Fits p.options.maxDepth) :
    (p.runCounting s.depth s).Agrees p.options.maxDepth (p.run s) := by
  fun_induction run p s with
  | case1 p s value hstep =>
    rw [runCounting_of_finish ((s.stepAt_depth _).trans hstep)]
    obtain rfl := State.eq_done_of_finish hstep
    refine ⟨rfl, rfl, rfl, fun n hn => ?_, fun _ h => by cases h⟩
    obtain rfl := List.mem_singleton.1 hn
    exact ⟨le_refl _, Int.natCast_nonneg _⟩
  | case2 p s expected hstep =>
    rw [runCounting_of_reject ((s.stepAt_depth _).trans hstep)]
    exact hs.agrees_giveUp (State.depth_eq_of_isNesting hs hstep)
  | case3 p s next hstep ih =>
    have hpass := State.Passes.of_step hstep
    rw [runCounting_of_pass ((s.stepAt_depth _).trans hstep), ← hpass.depth_eq]
    exact ih (hpass.fits hs)
  | case4 p s next hstep e p' hlex =>
    rw [runCounting_of_lex_error ((s.stepAt_depth _).trans hstep) hlex]
    exact hs.agrees_giveUp fun h => absurd h (not_isNesting_of_lex hlex)
  | case5 p s next hstep p' hlex ih =>
    have hshift := State.Shifts.of_step hstep
    have hoptions := options_of_lex hlex
    rw [hoptions] at ih
    obtain ⟨hresult, hparser, hcount, hbounded, hreached⟩ := ih (hshift.fits hs)
    rw [runCounting_of_lex ((s.stepAt_depth _).trans hstep) hlex, ← hshift.depth_eq]
    refine ⟨hresult, hparser, hcount, fun n hn => ?_, fun e he hnesting => ?_⟩
    · rcases List.mem_cons.1 hn with rfl | hn
      · have := hs.depth_le
        omega
      · exact hbounded n hn
    · exact List.mem_cons_of_mem _ (hreached e he hnesting)

/-! ## Calls -/

/-- A parser with a counter for the open subgraphs. -/
structure Counting where
  parser : Parser
  count : Int

namespace Counting

/-- A call counts on from the counter as it is. The graphs of the whole text are read with a counter
that is set to zero. -/
def call (c : Counting) : (call : Call) → Counted call.Value
  | .lex => ⟨c.parser.lex.1, c.parser.lex.2, [c.count], c.count⟩
  | .read request => c.parser.runCounting c.count request.start
  | .readGraphs =>
    match lex { c.parser with lexer := c.parser.lexer.reset } with
    | (.error e, p) => ⟨.error e, p, [c.count, 0], 0⟩
    | (.ok (), p) =>
      let after := p.runCounting 0 (.graph (.nextGraph [] .top))
      { after with counts := c.count :: after.counts }

def afterCalls (c : Counting) (calls : List Call) : Counting :=
  calls.foldl (fun c call => ⟨(c.call call).parser, (c.call call).count⟩) c

end Counting

/-- A construct on its own stands in no subgraph. -/
theorem Request.depth_start (request : Request goal) : request.start.depth = 0 := by
  cases request <;> rfl

theorem Request.fits_start (request : Request goal) : request.start.Fits maxDepth := by
  cases request <;> exact Nat.zero_le _

/-- A call with a counter at zero is the call, and leaves the counter at zero. -/
theorem agrees_call (p : Parser) (call : Call) :
    (Counting.call ⟨p, 0⟩ call).Agrees p.options.maxDepth (p.call call) := by
  have hzero : (0 : Int) ≤ 0 ∧ (0 : Int) ≤ p.options.maxDepth :=
    ⟨le_refl _, Int.natCast_nonneg _⟩
  cases call with
  | lex =>
    refine ⟨rfl, rfl, rfl, fun n hn => List.mem_singleton.1 hn ▸ hzero, fun e he hnesting => ?_⟩
    exact absurd hnesting (not_isNesting_of_lex (Prod.ext he rfl))
  | read request =>
    have hrun := p.runCounting_eq request.start request.fits_start
    rw [request.depth_start] at hrun
    show Counted.Agrees _ _ (p.read request)
    rw [read_eq_run]
    exact hrun
  | readGraphs =>
    simp only [Counting.call, Parser.call, Parser.readGraphs]
    rcases hlex : lex { p with lexer := p.lexer.reset } with ⟨e | ⟨⟩, q⟩
    · refine ⟨rfl, rfl, rfl, fun n hn => ?_, fun e' he hnesting => ?_⟩
      · simp only [List.mem_cons, List.not_mem_nil, or_false, or_self] at hn
        exact hn ▸ hzero
      · obtain rfl := Except.error.inj he
        exact absurd hnesting (not_isNesting_of_lex hlex)
    · have hoptions : q.options = p.options := (options_of_lex hlex :)
      have hrun := q.runCounting_eq (.graph (.nextGraph [] .top)) (Nat.zero_le _)
      rw [hoptions] at hrun
      obtain ⟨hresult, hparser, hcount, hbounded, hreached⟩ := hrun
      refine ⟨hresult, hparser, hcount, fun n hn => ?_, fun e he hnesting => ?_⟩
      · rcases List.mem_cons.1 hn with rfl | hn
        · exact hzero
        · exact hbounded n hn
      · exact List.mem_cons_of_mem _ (hreached e he hnesting)

/-- Between two calls the counter is zero. -/
theorem Counting.afterCalls_zero (p : Parser) (calls : List Call) :
    Counting.afterCalls ⟨p, 0⟩ calls = ⟨p.afterCalls calls, 0⟩ := by
  induction calls generalizing p with
  | nil => rfl
  | cons call calls ih =>
    obtain ⟨-, hparser, hcount, -, -⟩ := p.agrees_call call
    rw [Counting.afterCalls, List.foldl_cons, hparser, hcount]
    exact ih _

/-- A subgraph on its own is read if as many others stand in it as may be open, whatever has been
read before and whatever stands behind it. -/
theorem readSubgraph_of_derivesSubgraph {ks rest : List TokenKind} {g : Subgraph}
    (h : DerivesSubgraph p.options.maxDepth ks g) (hrest : rest ≠ [])
    (hks : p.upcoming.kinds = ks ++ rest) : p.readSubgraph.1 = .ok g := by
  obtain ⟨kind, rest, rfl⟩ := List.exists_cons_of_ne_nil hrest
  have hfeed : (State.subgraph (.top : Slot .subgraph .subgraph)).feed p.options.maxDepth
      (ks ++ kind :: rest) = .finished g (kind :: rest) := by
    rw [State.feed_subgraph h (by rw [Slot.depth, Nat.zero_add])]
    exact State.feed_of_finish rfl
  have hexplains := p.run_explains (.subgraph .top)
  rw [hks, hfeed] at hexplains
  exact hexplains.eq_ok

end Parser

open Grammar

/-- Whatever a parser has been asked for before, and however it went, the next call is not influenced
by it. The text and the options are those of the parser, the counter of the open subgraphs is zero,
and the graphs of the text are those of a first parse. During a call the counter is never negative
and never above the limit; it ends at zero, and the limit stops the call only where as many
subgraphs are open as it says. So a subgraph on its own may hold as many others in each other as in
a first call. -/
theorem parser_forgets_past_calls (source : String) (options : ParseOptions)
    (calls : List Parser.Call) :
    let p := (Parser.ofString source options).afterCalls calls
    Parser.Counting.afterCalls ⟨.ofString source options, 0⟩ calls = ⟨p, 0⟩ ∧
      p.lexer.source = Lexer.dropMark source.toList ∧ p.options = options ∧
      p.readGraphs.1 = parse source options ∧
      (∀ call : Parser.Call,
        let counted := Parser.Counting.call ⟨p, 0⟩ call
        (counted.result, counted.parser) = p.call call ∧ counted.count = 0 ∧
          (∀ n ∈ counted.counts, 0 ≤ n ∧ n ≤ options.maxDepth) ∧
          ∀ e, (p.call call).1 = .error e → e.IsNesting →
            (options.maxDepth : Int) ∈ counted.counts) ∧
      ∀ (g : Subgraph) (ks rest : List TokenKind), rest ≠ [] →
        DerivesSubgraph options.maxDepth ks g → p.upcoming.kinds = ks ++ rest →
          p.readSubgraph.1 = .ok g := by
  intro p
  have hserves : p.Serves source options := Parser.serves_afterCalls source options calls
  refine ⟨Parser.Counting.afterCalls_zero _ calls, hserves.source_eq, hserves.options_eq,
    hserves.readGraphs_eq, fun call => ?_, fun g ks rest hrest hg hks => ?_⟩
  · obtain ⟨hresult, hparser, hcount, hbounded, hreached⟩ := p.agrees_call call
    rw [hserves.options_eq] at hbounded hreached
    exact ⟨Prod.ext hresult hparser, hcount, hbounded, hreached⟩
  · rw [← hserves.options_eq] at hg
    exact Parser.readSubgraph_of_derivesSubgraph hg hrest hks

end DotLang
