import DotLang.Grammar
import DotLang.Parser.Step

/-!
# The moves of a state

`State.step` says what a state does about a token. Here the same is said by two relations with a
rule for each kind of move, so that a proof about all moves is a case analysis: `Shifts` for the
tokens that are taken and `Passes` for what is done in front of a token.

* `step_eq_shift_iff`, `step_eq_pass_iff`: the rules are the moves of `State.step`.
* `eq_done_of_finish`: only a state that has read the goal finishes.
-/

namespace DotLang.Parser.State

open Grammar

variable {goal : Construct}

/-- A token that a state takes, and the state behind it. -/
inductive Shifts (maxDepth : Nat) : State goal → TokenKind → State goal → Prop where
  | strict {slot} : Shifts maxDepth (graph slot) (.keyword .strict) (strictGraph slot)
  | graphWord {slot kind k} :
      kind.graphKind? = some k → Shifts maxDepth (graph slot) kind (graphName k false slot)
  | strictGraphWord {slot kind k} :
      kind.graphKind? = some k → Shifts maxDepth (strictGraph slot) kind (graphName k true slot)
  | openGraph {head slot} :
      Shifts maxDepth (openGraph head slot) (.symbol .openBrace) (body [] (.graphBody head slot))
  | semicolon {before slot} :
      Shifts maxDepth (body before slot) (.symbol .semicolon) (body before slot)
  | closeBody {before slot} :
      Shifts maxDepth (body before slot) (.symbol .closeBrace) (slot.fill before.reverse)
  | target {slot kind t} : kind.target? = some t → Shifts maxDepth (stmt slot) kind (target t slot)
  | openTarget {t slot} :
      Shifts maxDepth (State.target t slot) (.symbol .openBracket)
        (group [] (.targetAttributes t slot))
  | assign {i slot} : Shifts maxDepth (afterId i slot) (.symbol .equal) (id (.assigned i slot))
  | nodeArrow {node slot kind} :
      kind.isArrow = true →
      Shifts maxDepth (afterNode node slot) kind (endpoint [.node node] (.edgeStmt slot))
  | subgraphArrow {g slot kind} :
      kind.isArrow = true →
      Shifts maxDepth (afterSubgraph g slot) kind (endpoint [.subgraph g] (.edgeStmt slot))
  | arrow {endpoints slot kind} :
      kind.isArrow = true → Shifts maxDepth (edge endpoints slot) kind (endpoint endpoints slot)
  | subgraphWord {slot} :
      ¬ maxDepth ≤ slot.depth →
      Shifts maxDepth (subgraph slot) (.keyword .subgraph) (subgraphName slot)
  | openSubgraph {i slot} :
      Shifts maxDepth (openSubgraph i slot) (.symbol .openBrace) (body [] (.subgraphBody i slot))
  | port {i slot} : Shifts maxDepth (nodeId i slot) (.symbol .colon) (id (.port i slot))
  | compass {i p slot} :
      Shifts maxDepth (afterPort i p slot) (.symbol .colon) (id (.compass i p slot))
  | openGroup {before slot} :
      Shifts maxDepth (attributes before slot) (.symbol .openBracket) (group before slot)
  | closeGroup {before slot} :
      Shifts maxDepth (group before slot) (.symbol .closeBracket) (attributes before slot)
  | equal {before key slot} :
      Shifts maxDepth (equals before key slot) (.symbol .equal)
        (id (.attributeValue before key slot))
  | separate {before slot kind} :
      Separates [kind] → Shifts maxDepth (separator before slot) kind (group before slot)
  | identifier {text slot} :
      Shifts maxDepth (id slot) (.identifier text) (slot.fill (.name text))
  | number {value slot} : Shifts maxDepth (id slot) (.number value) (slot.fill (.number value))
  | html {text slot} : Shifts maxDepth (id slot) (.html text) (slot.fill (.html text))
  | firstString {value slot} : Shifts maxDepth (id slot) (.string value) (string value slot)
  | plus {value slot} : Shifts maxDepth (string value slot) (.symbol .plus) (plus value slot)
  | nextString {value slot more} :
      Shifts maxDepth (State.plus value slot) (.string more) (string (value ++ more) slot)

/-- A state that moves on in front of a token, and the state that it moves on to. -/
inductive Passes (maxDepth : Nat) : State goal → TokenKind → State goal → Prop where
  | lastGraph {before slot} :
      Passes maxDepth (moreGraphs before slot) .eof (slot.fill before.reverse)
  | nextGraph {before slot kind} :
      kind ≠ .eof → Passes maxDepth (moreGraphs before slot) kind (graph (.nextGraph before slot))
  | graphId {k strict slot kind} :
      kind.startsId = true →
      Passes maxDepth (graphName k strict slot) kind (id (.graphName k strict slot))
  | noGraphId {k strict slot kind} :
      ¬ kind.startsId = true →
      Passes maxDepth (graphName k strict slot) kind (openGraph ⟨k, strict, none⟩ slot)
  | nextStmt {before slot kind} :
      kind ≠ .symbol .semicolon → kind ≠ .symbol .closeBrace → kind ≠ .eof →
      Passes maxDepth (body before slot) kind (stmt (.nextStmt before slot))
  | firstSubgraph {slot kind} :
      kind.startsSubgraph = true →
      Passes maxDepth (stmt slot) kind (subgraph (.firstSubgraph slot))
  | firstId {slot kind} :
      kind.startsId = true → Passes maxDepth (stmt slot) kind (id (.firstId slot))
  | firstNode {i slot kind} :
      kind ≠ .symbol .equal → Passes maxDepth (afterId i slot) kind (nodeId i (.firstNode slot))
  | nodeAttributes {node slot kind} :
      ¬ kind.isArrow = true →
      Passes maxDepth (afterNode node slot) kind (attributes [] (.nodeAttributes node slot))
  | subgraphStmt {g slot kind} :
      ¬ kind.isArrow = true → Passes maxDepth (afterSubgraph g slot) kind (slot.fill (.subgraph g))
  | edgeAttributes {endpoints slot kind} :
      ¬ kind.isArrow = true →
      Passes maxDepth (edge endpoints slot) kind (attributes [] (.edgeAttributes endpoints slot))
  | nextSubgraph {before slot kind} :
      kind.startsSubgraph = true →
      Passes maxDepth (endpoint before slot) kind (subgraph (.nextSubgraph before slot))
  | nextId {before slot kind} :
      kind.startsId = true → Passes maxDepth (endpoint before slot) kind (id (.nextId before slot))
  | bareSubgraph {slot kind} :
      ¬ maxDepth ≤ slot.depth → kind ≠ .keyword .subgraph →
      Passes maxDepth (subgraph slot) kind (openSubgraph none slot)
  | subgraphId {slot kind} :
      kind.startsId = true →
      Passes maxDepth (subgraphName slot) kind (id (.subgraphName slot))
  | noSubgraphId {slot kind} :
      ¬ kind.startsId = true → Passes maxDepth (subgraphName slot) kind (openSubgraph none slot)
  | noPort {i slot kind} :
      kind ≠ .symbol .colon → Passes maxDepth (nodeId i slot) kind (slot.fill ⟨i, none⟩)
  | noCompass {i p slot kind} :
      kind ≠ .symbol .colon →
      Passes maxDepth (afterPort i p slot) kind (slot.fill ⟨i, some ⟨p, none⟩⟩)
  | lastGroup {before slot kind} :
      kind ≠ .symbol .openBracket →
      Passes maxDepth (attributes before slot) kind (slot.fill before.reverse)
  | attributeKey {before slot kind} :
      kind.startsId = true → Passes maxDepth (group before slot) kind (id (.attributeKey before slot))
  | noSeparator {before slot kind} :
      ¬ Separates [kind] → Passes maxDepth (separator before slot) kind (group before slot)
  | lastString {value slot kind} :
      kind ≠ .symbol .plus → Passes maxDepth (string value slot) kind (slot.fill (.name value))

theorem separates_one_iff {kind : TokenKind} :
    Separates [kind] ↔ kind = .symbol .semicolon ∨ kind = .symbol .comma := by
  constructor
  · rintro ⟨⟩
    · exact .inl rfl
    · exact .inr rfl
  · rintro (rfl | rfl)
    · exact .semicolon
    · exact .comma

theorem startsSubgraph_iff {kind : TokenKind} :
    kind.startsSubgraph = true ↔ kind = .keyword .subgraph ∨ kind = .symbol .openBrace := by
  simp [TokenKind.startsSubgraph]

theorem target?_eq_none_of_startsId {kind : TokenKind} (h : kind.startsId = true) :
    kind.target? = none := by
  cases kind <;> first | rfl | simp [TokenKind.startsId] at h

theorem startsSubgraph_eq_false_of_startsId {kind : TokenKind} (h : kind.startsId = true) :
    kind.startsSubgraph = false := by
  cases kind <;> first | rfl | simp [TokenKind.startsId] at h

/-! ## The rules are the moves -/

theorem Shifts.step_eq {maxDepth : Nat} {s s' : State goal} {kind : TokenKind}
    (h : Shifts maxDepth s kind s') : s.step maxDepth kind = .shift s' := by
  cases h with
  | graphWord hk =>
    have hne : kind ≠ .keyword .strict := by rintro rfl; simp [TokenKind.graphKind?] at hk
    simp [step, hne, hk]
  | separate h => rcases separates_one_iff.1 h with rfl | rfl <;> simp [step]
  | _ => simp [step, expect, *]

theorem Passes.step_eq {maxDepth : Nat} {s s' : State goal} {kind : TokenKind}
    (h : Passes maxDepth s kind s') : s.step maxDepth kind = .pass s' := by
  cases h with
  | firstSubgraph h => rcases startsSubgraph_iff.1 h with rfl | rfl <;> rfl
  | firstId h =>
    simp [step, target?_eq_none_of_startsId h, startsSubgraph_eq_false_of_startsId h, h]
  | nextId h => simp [step, startsSubgraph_eq_false_of_startsId h, h]
  | attributeKey h =>
    have hne : kind ≠ .symbol .closeBracket := by rintro rfl; simp [TokenKind.startsId] at h
    simp [step, hne, h]
  | noSeparator h =>
    rw [separates_one_iff, not_or] at h
    simp [step, h]
  | _ => simp [step, *]

theorem eq_of_expect {sym : Symbol} {next s' : State goal} {kind : TokenKind}
    (h : expect sym next kind = .shift s') : kind = .symbol sym ∧ s' = next := by
  unfold expect at h
  split at h
  · rename_i hkind
    exact ⟨hkind, (Move.shift.inj h).symm⟩
  · exact nomatch h

theorem Shifts.of_step {maxDepth : Nat} {s s' : State goal} {kind : TokenKind}
    (h : s.step maxDepth kind = .shift s') : Shifts maxDepth s kind s' := by
  revert h
  fun_cases step maxDepth s kind <;> intro h
  -- a branch that takes the token says which rule it is; the separators are tested as booleans
  all_goals first
    | simp only [reduceCtorEq] at h
    | (obtain ⟨rfl, rfl⟩ := eq_of_expect h; constructor)
    | (obtain rfl := Move.shift.inj h; constructor <;> assumption)
    | (rename_i hkind
       obtain rfl := Move.shift.inj h
       exact .separate (separates_one_iff.2 (by simpa using hkind)))

theorem Passes.of_step {maxDepth : Nat} {s s' : State goal} {kind : TokenKind}
    (h : s.step maxDepth kind = .pass s') : Passes maxDepth s kind s' := by
  revert h
  fun_cases step maxDepth s kind <;> intro h
  all_goals first
    | exact absurd h expect_ne_pass
    | simp only [reduceCtorEq] at h
    | (obtain rfl := Move.pass.inj h; constructor <;> assumption)
    | (rename_i hkind
       obtain rfl := Move.pass.inj h
       exact .noSeparator (mt separates_one_iff.1 (by simpa using hkind)))

/-- The rules of `Shifts` are the tokens that are taken. -/
theorem step_eq_shift_iff {maxDepth : Nat} {s s' : State goal} {kind : TokenKind} :
    s.step maxDepth kind = .shift s' ↔ Shifts maxDepth s kind s' :=
  ⟨Shifts.of_step, Shifts.step_eq⟩

/-- The rules of `Passes` are the moves in front of a token. -/
theorem step_eq_pass_iff {maxDepth : Nat} {s s' : State goal} {kind : TokenKind} :
    s.step maxDepth kind = .pass s' ↔ Passes maxDepth s kind s' :=
  ⟨Passes.of_step, Passes.step_eq⟩

theorem eq_done_of_finish {maxDepth : Nat} {s : State goal} {kind : TokenKind}
    {value : goal.Value} (h : s.step maxDepth kind = .finish value) : s = done value := by
  revert h
  fun_cases step maxDepth s kind <;> intro h
  all_goals first
    | simp only [reduceCtorEq] at h
    | (unfold expect at h; split at h <;> exact absurd h (by simp))
    | exact congrArg done (Move.finish.inj h)

end DotLang.Parser.State
