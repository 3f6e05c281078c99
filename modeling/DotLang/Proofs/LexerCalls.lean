import DotLang.Lexer
import DotLang.Proofs.Places
import DotLang.Proofs.Reading

/-!
# The places that a lexer reports

A lexer may be asked for tokens and started over in any order, also behind the end of the text and
behind a malformed token. Its cursor always stands behind a beginning of the text, at the place
behind that beginning; so do the tokens and the malformed tokens that it reports.

* `Lexer.afterCalls`: the lexer behind any sequence of calls.
* `Lexer.Placed.call`, `Lexer.placed_afterCalls`: the cursor is placed behind one call and behind
  any number of calls.
* `reported_places`: what a lexer reports is where it says.
-/

namespace DotLang

namespace Lexer

/-- What a lexer may be asked for. -/
inductive Call where
  /-- The next token, whether or not the sequence of tokens has ended. -/
  | next
  /-- The next item of the sequence of tokens. -/
  | pull
  | reset

/-- What a call gives, if it gives anything, and the lexer behind it. -/
def call (l : Lexer) : Call → Option (Except LexError Token) × Lexer
  | .next => (some l.next.1, l.next.2)
  | .pull => l.pull
  | .reset => (none, l.reset)

/-- The lexer behind a sequence of calls. -/
def afterCalls (l : Lexer) (calls : List Call) : Lexer :=
  calls.foldl (fun l call => (l.call call).2) l

theorem pull_of_ended {l : Lexer} (h : l.ended = true) : l.pull = (none, l) := by
  rw [pull, if_pos h]

theorem pull_of_not_ended {l : Lexer} (h : l.ended = false) :
    l.pull = (some l.cursor.next.1,
      { l with cursor := l.cursor.next.2, ended := IsLast l.cursor.next.1 }) := by
  rw [pull, if_neg (by rw [h]; exact Bool.false_ne_true)]
  rfl

/-- A call that gives something reads once. -/
theorem call_eq_some {l : Lexer} {call : Call} {result : Except LexError Token}
    (h : (l.call call).1 = some result) :
    l.cursor.next = (result, (l.call call).2.cursor) := by
  cases call with
  | next => exact Prod.ext (Option.some.inj h) rfl
  | pull =>
    simp only [Lexer.call] at h ⊢
    cases hended : l.ended with
    | true =>
      rw [pull_of_ended hended] at h
      exact nomatch h
    | false =>
      rw [pull_of_not_ended hended] at h ⊢
      exact Prod.ext (Option.some.inj h) rfl
  | reset => exact nomatch h

/-- A call that gives nothing leaves the cursor where it is or puts it back to the start. -/
theorem call_eq_none {l : Lexer} {call : Call} (h : (l.call call).1 = none) :
    (l.call call).2.cursor = l.cursor ∨ (l.call call).2.cursor = .atStart l.source := by
  cases call with
  | next => exact nomatch h
  | pull =>
    simp only [Lexer.call] at h ⊢
    cases hended : l.ended with
    | true =>
      rw [pull_of_ended hended]
      exact .inl rfl
    | false =>
      rw [pull_of_not_ended hended] at h
      exact nomatch h
  | reset => exact .inr rfl

theorem source_call (l : Lexer) (call : Call) : (l.call call).2.source = l.source := by
  cases call with
  | next => rfl
  | pull =>
    simp only [Lexer.call]
    cases hended : l.ended with
    | true => rw [pull_of_ended hended]
    | false => rw [pull_of_not_ended hended]
  | reset => rfl

/-- The cursor stands in the text of `source`, at the place behind what is in front of it. -/
structure Placed (source : String) (l : Lexer) : Prop where
  source_eq : l.source = dropMark source.toList
  cursor : ∃ before, l.source = before ++ l.cursor.rest ∧ l.cursor.pos = Position.start.after before

theorem placed_atStart {source : String} {l : Lexer} (hsource : l.source = dropMark source.toList)
    (hcursor : l.cursor = .atStart l.source) : l.Placed source := by
  refine ⟨hsource, [], ?_, ?_⟩
  · rw [hcursor]
    rfl
  · rw [hcursor]
    rfl

variable {source : String} {l : Lexer}

/-- One call keeps the cursor placed. -/
theorem Placed.call (h : l.Placed source) (call : Call) : (l.call call).2.Placed source := by
  obtain ⟨hsource, before, hbefore, hpos⟩ := h
  have hsource' := l.source_call call
  cases hresult : (l.call call).1 with
  | some result =>
    have hreads := l.cursor.next_reads
    rw [call_eq_some hresult] at hreads
    obtain ⟨passed, hrest, hplace⟩ := hreads.exists_passed
    refine ⟨hsource'.trans hsource, before ++ passed, ?_, ?_⟩
    · rw [hsource', hbefore, hrest, List.append_assoc]
    · rw [hplace, hpos, Position.after_append]
  | none =>
    rcases call_eq_none hresult with hcursor | hcursor
    · refine ⟨hsource'.trans hsource, before, ?_, ?_⟩
      · rw [hsource', hcursor, hbefore]
      · rw [hcursor, hpos]
    · apply placed_atStart (hsource'.trans hsource)
      rw [hcursor, hsource']

/-- Whatever a lexer is asked for, its cursor stays placed. -/
theorem Placed.afterCalls (h : l.Placed source) (calls : List Call) :
    (l.afterCalls calls).Placed source := by
  induction calls generalizing l with
  | nil => exact h
  | cons call calls ih => exact ih (h.call call)

theorem placed_afterCalls (source : String) (calls : List Call) :
    ((ofString source).afterCalls calls).Placed source :=
  (placed_atStart rfl rfl : (ofString source).Placed source).afterCalls calls

end Lexer

/-- Whatever a lexer has been asked for before, its cursor is at the place behind the text in front
of it, and so is what it reports next: a token at its first character, the end of input behind the
last character, and a malformed token at its first character. Only a stretch of blanks and comments
stands between the cursor and what is reported. -/
theorem reported_places (source : String) (calls : List Lexer.Call) (call : Lexer.Call) :
    let l := (Lexer.ofString source).afterCalls calls
    let rest' := (l.call call).2.cursor.rest
    ∃ before, Lexer.dropMark source.toList = before ++ l.cursor.rest ∧
      l.cursor.pos.IsBehind before ∧
      (∀ token, (l.call call).1 = some (.ok token) →
        ∃ gap, l.cursor.rest = gap ++ (token.text.toList ++ rest') ∧
          Trivia.Stretch l.cursor.pos gap (token.text.toList ++ rest') ∧
          token.pos.IsBehind (before ++ gap) ∧
          if token.kind = .eof then token.text = "" ∧ rest' = [] else token.text ≠ "") ∧
      ∀ e, (l.call call).1 = some (.error e) →
        ∃ gap rest, l.cursor.rest = gap ++ rest ∧ Trivia.Stretch l.cursor.pos gap rest ∧
          e.pos.IsBehind (before ++ gap) ∧ e.fault.Begins rest := by
  intro l rest'
  obtain ⟨hsource, before, hbefore, hpos⟩ := Lexer.placed_afterCalls source calls
  have hbehind (gap : List Char) : (l.cursor.pos.after gap).IsBehind (before ++ gap) := by
    rw [hpos, ← Position.after_append]
    exact Position.isBehind_after _
  refine ⟨before, hsource ▸ hbefore, ?_, fun token htoken => ?_, fun e he => ?_⟩
  · rw [hpos]
    exact Position.isBehind_after before
  · have hreads := l.cursor.next_reads
    rw [Lexer.call_eq_some htoken] at hreads
    obtain ⟨gap, heq, hstretch, hplace, hkind⟩ := hreads.of_ok
    refine ⟨gap, heq, hstretch, hplace ▸ hbehind gap, ?_⟩
    rcases hkind with ⟨hkind, hend⟩ | hspell
    · rw [if_pos hkind]
      exact hend
    · rw [if_neg hspell.ne_eof]
      intro htext
      exact hspell.ne_nil (congrArg String.toList htext)
  · have hreads := l.cursor.next_reads
    rw [Lexer.call_eq_some he] at hreads
    obtain ⟨gap, rest, heq, hstretch, hplace, hbegins⟩ := hreads.of_error
    exact ⟨gap, rest, heq, hstretch, hplace ▸ hbehind gap, hbegins⟩

end DotLang
