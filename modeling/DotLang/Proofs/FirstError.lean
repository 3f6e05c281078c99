import DotLang.Proofs.Acceptance
import DotLang.Proofs.Viability

/-!
# The first error is the one that is reported

A parse refuses a token iff the tokens up to it are not the beginning of a text, so it refuses the
first such token. A malformed token is reported only if no token before it is refused.

* `Grammar.ContinuesAt`: the tokens up to a place are the beginning of a text.
* `State.continues_of_waiting`, `State.not_continues_of_refused`: what is taken is the beginning of
  a text, and what is refused is not.
* `parse_reports_first_error`: the result of a parse, told from its tokens.
-/

namespace DotLang

namespace Grammar

/-- The token `kind` can stand behind the tokens `before` of a text. The end of input can stand
where the text is complete. -/
def Continues (room : Nat) (before : List TokenKind) (kind : TokenKind) : Prop :=
  if kind = .eof then ∃ gs, DerivesGraphs room before gs
  else ∃ more gs, DerivesGraphs room (before ++ kind :: more) gs

/-- The token at the place `k` can stand behind those in front of it. -/
def ContinuesAt (room : Nat) (kinds : List TokenKind) (k : Nat) : Prop :=
  ∀ kind, kinds[k]? = some kind → Continues room (kinds.take k) kind

theorem continuesAt_length {room : Nat} {before after : List TokenKind} {kind : TokenKind} :
    ContinuesAt room (before ++ kind :: after) before.length ↔ Continues room before kind := by
  unfold ContinuesAt
  simp

theorem continuesAt_append {room : Nat} {before after : List TokenKind} {k : Nat}
    (hk : k < before.length) :
    ContinuesAt room (before ++ after) k ↔ ContinuesAt room before k := by
  unfold ContinuesAt
  rw [List.getElem?_append_left hk, List.take_append_of_le_length (Nat.le_of_lt hk)]

/-- There is one first place only at which the tokens are not the beginning of a text. -/
theorem eq_of_first {room : Nat} {kinds : List TokenKind} {k l : Nat}
    (hbefore : ∀ j < k, ContinuesAt room kinds j) (hk : ¬ ContinuesAt room kinds k)
    (hbefore' : ∀ j < l, ContinuesAt room kinds j) (hl : ¬ ContinuesAt room kinds l) : k = l := by
  rcases Nat.lt_trichotomy k l with h | h | h
  · exact absurd (hbefore' k h) hk
  · exact h
  · exact absurd (hbefore l h) hl

theorem Continues.of_append {room : Nat} {before more : List TokenKind} {kind : TokenKind}
    {gs : List Graph} (hkind : kind ≠ .eof) (h : DerivesGraphs room (before ++ kind :: more) gs) :
    Continues room before kind := by
  rw [Continues, if_neg hkind]
  exact ⟨more, gs, h⟩

end Grammar

namespace Parser.State

open Grammar

variable {maxDepth : Nat} {kinds left : List TokenKind}

/-! ## Tokens that are taken and tokens that are refused -/

/-- What begins a text is taken. -/
theorem feed_of_derivesGraphs_append {more : List TokenKind} {gs : List Graph}
    (h : DerivesGraphs maxDepth (kinds ++ more) gs) :
    ∃ s, (graph (.nextGraph [] .top) : State .graphs).feed maxDepth kinds = .waiting s := by
  have hfeed := feed_start h (le_refl maxDepth)
  obtain ⟨before, s, hbefore, hs⟩ :=
    @feed_left _ maxDepth (graph (.nextGraph [] .top)) ((kinds ++ more) ++ [.eof])
  rw [hfeed] at hbefore
  have hall : before = kinds ++ more := (List.append_cancel_right hbefore).symm
  rw [hall] at hs
  obtain ⟨middle, hmiddle, _⟩ := feed_eq_waiting_append hs
  exact ⟨middle, hmiddle⟩

/-- Tokens that are taken begin a text. -/
theorem continues_of_waiting {s : State .graphs} {before after : List TokenKind}
    {kind : TokenKind}
    (h : (graph (.nextGraph [] .top)).feed maxDepth (before ++ kind :: after) = .waiting s) :
    Continues maxDepth before kind := by
  have hkind : kind ≠ .eof := by
    rintro rfl
    exact eof_notMem_of_feed h (List.mem_append_right _ List.mem_cons_self)
  obtain ⟨more, gs, hgs⟩ := completable_of_feed h
  rw [List.append_assoc] at hgs
  exact .of_append hkind hgs

/-- A token that is refused does not go on a text. -/
theorem not_continues_of_refused {before after : List TokenKind} {kind : TokenKind}
    {expected : List Expectation}
    (h : (graph (.nextGraph [] .top) : State .graphs).feed maxDepth (before ++ kind :: after) =
      .refused expected (kind :: after)) :
    ¬ Continues maxDepth before kind := by
  rw [← List.singleton_append, ← List.append_assoc, feed_append] at h
  intro hcontinues
  unfold Continues at hcontinues
  split at hcontinues
  · rename_i hkind
    obtain ⟨gs, hgs⟩ := hcontinues
    rw [hkind, feed_start hgs (le_refl _)] at h
    exact nomatch h
  · obtain ⟨more, gs, hgs⟩ := hcontinues
    rw [← List.singleton_append, ← List.append_assoc] at hgs
    obtain ⟨s', hs'⟩ := feed_of_derivesGraphs_append hgs
    rw [hs', Outcome.andThen] at h
    -- what is refused behind `kind` is not longer than what stands there
    have := @length_left_le _ maxDepth s' after
    rw [h, Outcome.left, List.length_append, List.length_singleton] at this
    omega

/-! ## All tokens of a text -/

theorem continuesAt_of_waiting {s : State .graphs}
    (h : (graph (.nextGraph [] .top)).feed maxDepth kinds = .waiting s) (k : Nat) :
    ContinuesAt maxDepth kinds k := by
  intro kind hkind
  rw [← List.take_append_drop k kinds, List.drop_eq_getElem?_toList_append, hkind] at h
  exact continues_of_waiting h

theorem continuesAt_before_refused {before after : List TokenKind} {kind : TokenKind}
    {expected : List Expectation}
    (h : (graph (.nextGraph [] .top) : State .graphs).feed maxDepth (before ++ kind :: after) =
      .refused expected (kind :: after)) (k : Nat) :
    ContinuesAt maxDepth before k := by
  obtain ⟨taken, s, htaken, hs⟩ :=
    @feed_left _ maxDepth (graph (.nextGraph [] .top) : State .graphs) (before ++ kind :: after)
  rw [h, Outcome.left] at htaken
  obtain rfl := List.append_cancel_right htaken
  exact continuesAt_of_waiting hs k

/-- The token that is refused is the first that does not go on a text. -/
theorem first_of_refused {before after : List TokenKind} {kind : TokenKind}
    {expected : List Expectation}
    (h : (graph (.nextGraph [] .top) : State .graphs).feed maxDepth (before ++ kind :: after) =
      .refused expected (kind :: after)) :
    (∀ j < before.length, ContinuesAt maxDepth (before ++ kind :: after) j) ∧
      ¬ ContinuesAt maxDepth (before ++ kind :: after) before.length := by
  refine ⟨fun j hj => ?_, ?_⟩
  · rw [continuesAt_append hj]
    exact continuesAt_before_refused h j
  · rw [continuesAt_length]
    exact not_continues_of_refused h

/-- If a text can be read each of its tokens can stand where it stands. -/
theorem continuesAt_of_finished {c : Cursor} {gs : List Graph}
    (h : (graph (.nextGraph [] .top)).feed maxDepth c.readAll.kinds = .finished gs left) (k : Nat) :
    ContinuesAt maxDepth c.readAll.kinds k := by
  obtain ⟨taken, more, hkinds, htaken⟩ := derivesGraphs_of_feed h
  obtain ⟨-, rfl, -⟩ := Cursor.eq_of_kinds_readAll hkinds
  rw [hkinds]
  by_cases hk : k < taken.length
  · rw [continuesAt_append hk]
    rw [← List.append_nil taken] at htaken
    obtain ⟨s, hs⟩ := feed_of_derivesGraphs_append htaken
    exact continuesAt_of_waiting hs k
  · intro kind hkind
    rw [List.getElem?_append_right (by omega)] at hkind
    obtain ⟨hlast, hkind⟩ := List.getElem?_eq_some_iff.1 hkind
    have hk : k = taken.length := by
      rw [List.length_singleton] at hlast
      omega
    have heof : kind = .eof := by simpa [hk] using hkind.symm
    rw [hk, List.take_left, Continues, if_pos heof]
    exact ⟨gs, htaken⟩

end Parser.State

open Grammar

/-- A parse reports the first token that cannot stand behind those in front of it, with its place
and its description. If there is none it reports the malformed token at which the tokens end, and
if the tokens end with the text it succeeds. -/
theorem parse_reports_first_error (source : String) (options : ParseOptions) :
    (∀ (k : Nat) (token : Token), (Lexer.run source).items[k]? = some token →
      (∀ j < k, ContinuesAt options.maxDepth (Lexer.run source).kinds j) →
      ¬ ContinuesAt options.maxDepth (Lexer.run source).kinds k →
        ∃ expected, parse source options =
          .error (.grammatical ⟨expected, token.kind.describe, token.pos⟩)) ∧
    ((∀ k, ContinuesAt options.maxDepth (Lexer.run source).kinds k) →
      (∀ e, (Lexer.run source).ending = .error e →
        parse source options = .error (.lexical e)) ∧
      ∀ last, (Lexer.run source).ending = .ok last → ∃ gs, parse source options = .ok gs) := by
  have hexplains := parse_explains source options
  generalize parse source options = result at hexplains ⊢
  generalize hfeed : (Parser.State.graph (.nextGraph [] .top)).feed options.maxDepth
    (Lexer.run source).kinds = outcome at hexplains
  cases hexplains with
  | waiting hending =>
    have hall := Parser.State.continuesAt_of_waiting hfeed
    refine ⟨fun k _ _ _ hnot => absurd (hall k) hnot, fun _ => ⟨fun e he => ?_, fun last h => ?_⟩⟩
    · rw [hending] at he
      rw [Except.error.inj he]
    · rw [hending] at h
      exact nomatch h
  | finished =>
    have hall := Parser.State.continuesAt_of_finished hfeed
    refine ⟨fun k _ _ _ hnot => absurd (hall k) hnot, fun _ => ⟨fun e he => ?_, fun last _ => ?_⟩⟩
    · obtain ⟨taken, more, hkinds, _⟩ := Parser.State.derivesGraphs_of_feed hfeed
      obtain ⟨-, -, last, hending⟩ := Cursor.eq_of_kinds_readAll hkinds
      rw [Lexer.run, hending] at he
      exact nomatch he
    · exact ⟨_, rfl⟩
  | @refused expected before after token hitems =>
    have hkinds : (Lexer.run source).kinds =
        before.map Token.kind ++ token.kind :: after.map Token.kind := by
      rw [Cursor.Run.kinds, hitems, List.map_append, List.map_cons]
    rw [hkinds] at hfeed
    obtain ⟨hearlier, hrefused⟩ := Parser.State.first_of_refused hfeed
    rw [← hkinds, List.length_map] at hearlier hrefused
    refine ⟨fun k found hfound hbefore hnot => ?_, fun hall => absurd (hall _) hrefused⟩
    have hk : k = before.length := eq_of_first hbefore hnot hearlier hrefused
    rw [hitems, hk, List.getElem?_append_right (Nat.le_refl _), Nat.sub_self] at hfound
    obtain rfl := Option.some.inj hfound
    exact ⟨_, rfl⟩

end DotLang
