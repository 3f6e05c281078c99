import DotLang.Proofs.Moves

/-!
# Feeding tokens to the grammar

`State.feed` gives a list of tokens to a state, one after the other, without a lexer. What comes
of it is an `Outcome`: all tokens are taken, or the goal is read in front of the remaining ones,
or the first of the remaining ones is refused.

* `State.feed_append`: an outcome is decided by the tokens up to where it stops.
* `State.feed_left`: the tokens before those that are left are taken.
* `State.eof_notMem_of_feed`: the end of input is never taken.
-/

namespace DotLang.Parser

/-- What comes of giving tokens to a state. -/
inductive Outcome (goal : Construct) where
  /-- All of them are taken. -/
  | waiting (state : State goal)
  /-- The goal is read, in front of `left`. -/
  | finished (value : goal.Value) (left : List TokenKind)
  /-- The first token of `left` is refused. -/
  | refused (expected : List Expectation) (left : List TokenKind)

namespace State

variable {goal : Construct} {maxDepth : Nat} {s s' : State goal} {kind : TokenKind}
  {kinds left : List TokenKind}

/-- Gives the tokens `kinds` to a state. -/
def feed (maxDepth : Nat) (s : State goal) : List TokenKind → Outcome goal
  | [] => .waiting s
  | kind :: kinds =>
    match _h : s.step maxDepth kind with
    | .shift next => next.feed maxDepth kinds
    | .pass next => next.feed maxDepth (kind :: kinds)
    | .finish value => .finished value (kind :: kinds)
    | .reject expected => .refused expected (kind :: kinds)
termination_by kinds => (kinds.length, s.rank)
decreasing_by
  · exact Prod.Lex.left _ _ (Nat.lt_succ_self _)
  · exact Prod.Lex.right _ (rank_of_pass ‹_›)

end State

/-- The tokens that are not taken. -/
def Outcome.left {goal : Construct} : Outcome goal → List TokenKind
  | .waiting _ => []
  | .finished _ left => left
  | .refused _ left => left

/-- Gives further tokens to what has come of the first ones. -/
def Outcome.andThen {goal : Construct} (maxDepth : Nat) (kinds : List TokenKind) :
    Outcome goal → Outcome goal
  | .waiting s => s.feed maxDepth kinds
  | .finished value left => .finished value (left ++ kinds)
  | .refused expected left => .refused expected (left ++ kinds)

namespace State

variable {goal : Construct} {maxDepth : Nat} {s s' : State goal} {kind : TokenKind}
  {kinds left : List TokenKind}

/-! ## One token -/

@[simp] theorem feed_nil : s.feed maxDepth [] = .waiting s := by rw [feed]

theorem feed_of_shift (h : s.step maxDepth kind = .shift s') :
    s.feed maxDepth (kind :: kinds) = s'.feed maxDepth kinds := by
  rw [feed]
  split <;> rename_i heq <;> rw [h] at heq <;> cases heq
  rfl

theorem feed_of_pass (h : s.step maxDepth kind = .pass s') :
    s.feed maxDepth (kind :: kinds) = s'.feed maxDepth (kind :: kinds) := by
  conv => lhs; rw [feed]
  split <;> rename_i heq <;> rw [h] at heq <;> cases heq
  rfl

theorem Shifts.feed_cons (h : Shifts maxDepth s kind s') :
    s.feed maxDepth (kind :: kinds) = s'.feed maxDepth kinds :=
  feed_of_shift h.step_eq

theorem Passes.feed_cons (h : Passes maxDepth s kind s') :
    s.feed maxDepth (kind :: kinds) = s'.feed maxDepth (kind :: kinds) :=
  feed_of_pass h.step_eq

theorem feed_of_finish {value : goal.Value} (h : s.step maxDepth kind = .finish value) :
    s.feed maxDepth (kind :: kinds) = .finished value (kind :: kinds) := by
  rw [feed]
  split <;> rename_i heq <;> rw [h] at heq <;> cases heq
  rfl

theorem feed_of_reject {expected : List Expectation}
    (h : s.step maxDepth kind = .reject expected) :
    s.feed maxDepth (kind :: kinds) = .refused expected (kind :: kinds) := by
  rw [feed]
  split <;> rename_i heq <;> rw [h] at heq <;> cases heq
  rfl

/-! ## Several tokens -/

theorem feed_append (s : State goal) (kinds more : List TokenKind) :
    s.feed maxDepth (kinds ++ more) = (s.feed maxDepth kinds).andThen maxDepth more := by
  fun_induction feed maxDepth s kinds with
  | case1 s => rfl
  | case2 s kind kinds next h ih => rw [List.cons_append, feed_of_shift h, ih]
  | case3 s kind kinds next h ih => rw [List.cons_append, feed_of_pass h, ← List.cons_append, ih]
  | case4 s kind kinds value h => rw [List.cons_append, feed_of_finish h]; rfl
  | case5 s kind kinds expected h => rw [List.cons_append, feed_of_reject h]; rfl

/-- Tokens that are taken together are taken one part after the other. -/
theorem feed_eq_waiting_append {more : List TokenKind}
    (h : s.feed maxDepth (kinds ++ more) = .waiting s') :
    ∃ middle, s.feed maxDepth kinds = .waiting middle ∧ middle.feed maxDepth more = .waiting s' := by
  rw [feed_append] at h
  revert h
  cases s.feed maxDepth kinds with
  | waiting middle => exact fun h => ⟨middle, rfl, h⟩
  | finished value left => exact fun h => nomatch h
  | refused expected left => exact fun h => nomatch h

/-- The tokens before those that are left are taken. -/
theorem feed_left (s : State goal) (kinds : List TokenKind) :
    ∃ before s', kinds = before ++ (s.feed maxDepth kinds).left ∧
      s.feed maxDepth before = .waiting s' := by
  fun_induction feed maxDepth s kinds with
  | case1 s => exact ⟨[], s, rfl, feed_nil⟩
  | case2 s kind kinds next hstep ih =>
    obtain ⟨before, s', hkinds, hs'⟩ := ih
    exact ⟨kind :: before, s', congrArg (kind :: ·) hkinds, by rw [feed_of_shift hstep, hs']⟩
  | case3 s kind kinds next hstep ih =>
    obtain ⟨before, s', hkinds, hs'⟩ := ih
    cases before with
    | nil => exact ⟨[], s, hkinds, feed_nil⟩
    | cons first before =>
      obtain ⟨rfl, htail⟩ := List.cons.inj hkinds
      exact ⟨kind :: before, s', congrArg (kind :: ·) htail, by rw [feed_of_pass hstep, hs']⟩
  | case4 s kind kinds value hstep => exact ⟨[], s, rfl, feed_nil⟩
  | case5 s kind kinds expected hstep => exact ⟨[], s, rfl, feed_nil⟩

theorem length_left_le (s : State goal) (kinds : List TokenKind) :
    (s.feed maxDepth kinds).left.length ≤ kinds.length := by
  obtain ⟨before, _, hkinds, _⟩ := @feed_left _ maxDepth s kinds
  have := congrArg List.length hkinds
  rw [List.length_append] at this
  omega

/-- What holds behind each token that is taken holds behind the last one. -/
theorem holds_of_feed (P : State goal → Prop)
    (hshift : ∀ t kind t', Shifts maxDepth t kind t' → P t')
    (h : s.feed maxDepth kinds = .waiting s') (hs : kinds ≠ [] ∨ P s) : P s' := by
  fun_induction feed maxDepth s kinds with
  | case1 s =>
    obtain rfl := Outcome.waiting.inj h
    exact hs.resolve_left fun hne => hne rfl
  | case2 s kind kinds next hstep ih => exact ih h (.inr (hshift _ _ _ (Shifts.of_step hstep)))
  | case3 s kind kinds next hstep ih => exact ih h (.inl (List.cons_ne_nil _ _))
  | case4 s kind kinds value hstep => cases h
  | case5 s kind kinds expected hstep => cases h

/-- Whether the first of some tokens is refused is decided by that token. -/
theorem feed_one_of_refused {expected : List Expectation}
    (h : s.feed maxDepth (kind :: kinds) = .refused expected (kind :: kinds)) :
    s.feed maxDepth [kind] = .refused expected [kind] := by
  rw [← List.singleton_append, feed_append] at h
  generalize s.feed maxDepth [kind] = outcome at h ⊢
  cases outcome with
  | waiting next =>
    -- what is refused behind the token is not longer than what stands there
    have := @length_left_le _ maxDepth next kinds
    rw [Outcome.andThen] at h
    rw [h, Outcome.left, List.length_append, List.length_singleton] at this
    omega
  | finished value left => cases h
  | refused expected' left =>
    obtain ⟨rfl, hleft⟩ := Outcome.refused.inj h
    rw [List.append_cancel_right hleft]

/-- The end of input is never taken. -/
theorem eof_notMem_of_feed (h : s.feed maxDepth kinds = .waiting s') : .eof ∉ kinds := by
  fun_induction feed maxDepth s kinds with
  | case1 s => exact List.not_mem_nil
  | case2 s kind kinds next hstep ih =>
    rw [List.mem_cons, not_or]
    exact ⟨(ne_eof_of_shift hstep).symm, ih h⟩
  | case3 s kind kinds next hstep ih => exact ih h
  | case4 s kind kinds value hstep => exact nomatch h
  | case5 s kind kinds expected hstep => exact nomatch h

end State

end DotLang.Parser
