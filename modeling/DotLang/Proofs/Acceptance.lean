import DotLang.Proofs.Completeness
import DotLang.Proofs.Soundness
import DotLang.Proofs.TokenSequence

/-!
# The texts that are accepted

A parse succeeds exactly on the texts of the grammar, with the graphs that the grammar relates to
the tokens.

* `State.feed_of_derivesText`, `State.derivesGraphs_of_feed`: the goal is read in front of the end
  of a text of the grammar, and nowhere else.
* `derivesText_unique`: the tokens of a text stand for one list of graphs only, whatever the room.
* `parse_eq_ok_iff_derives`: both, for texts of characters.
-/

namespace DotLang

namespace Parser

open Grammar

namespace State

variable {maxDepth : Nat}

/-! ## The goal is read in front of the end of input -/

theorem fill_ne_done {c : Construct} {slot : Slot .graphs c} (hc : c ≠ .graphs) (value : c.Value)
    (gs : List Graph) : slot.fill value ≠ done gs := by
  induction slot with
  | top => exact absurd rfl hc
  | graphBody head slot ih => exact ih (by decide) _
  | assigned key slot ih => exact ih (by decide) _
  | nodeAttributes node slot ih => exact ih (by decide) _
  | targetAttributes t slot ih => exact ih (by decide) _
  | edgeStmt slot ih => exact ih (by decide) _
  | edgeAttributes es slot ih => exact ih (by decide) _
  | subgraphBody i slot ih => exact ih (by decide) _
  | compass i p slot ih => exact ih (by decide) _
  | _ => exact nofun

theorem Shifts.ne_done {s s' : State .graphs} {kind : TokenKind} (h : Shifts maxDepth s kind s')
    (gs : List Graph) : s' ≠ done gs := by
  cases h with
  | closeBody => exact fill_ne_done (by decide) _ gs
  | identifier => exact fill_ne_done (by decide) _ gs
  | number => exact fill_ne_done (by decide) _ gs
  | html => exact fill_ne_done (by decide) _ gs
  | _ => exact nofun

theorem Passes.ne_done {s s' : State .graphs} {kind : TokenKind} (h : Passes maxDepth s kind s')
    (hkind : kind ≠ .eof) (gs : List Graph) : s' ≠ done gs := by
  cases h with
  | lastGraph => exact absurd rfl hkind
  | subgraphStmt => exact fill_ne_done (by decide) _ gs
  | noPort => exact fill_ne_done (by decide) _ gs
  | noCompass => exact fill_ne_done (by decide) _ gs
  | lastGroup => exact fill_ne_done (by decide) _ gs
  | lastString => exact fill_ne_done (by decide) _ gs
  | _ => exact nofun

/-- Unless it is finished already, a text finishes only in front of the end of input. -/
theorem left_of_finished {s : State .graphs} {kinds left : List TokenKind} {gs : List Graph}
    (h : s.feed maxDepth kinds = .finished gs left) (hs : ∀ gs, s ≠ done gs) :
    ∃ more, left = .eof :: more := by
  fun_induction feed maxDepth s kinds with
  | case1 s => cases h
  | case2 s kind kinds next hstep ih => exact ih h (Shifts.of_step hstep).ne_done
  | case3 s kind kinds next hstep ih =>
    by_cases hkind : kind = .eof
    · subst hkind
      obtain ⟨before, s', hkinds, hs'⟩ := @feed_left _ maxDepth next (.eof :: kinds)
      rw [h] at hkinds
      cases before with
      | nil => exact ⟨kinds, hkinds.symm⟩
      | cons first before =>
        obtain ⟨rfl, _⟩ := List.cons.inj hkinds
        exact absurd List.mem_cons_self (eof_notMem_of_feed hs')
    · exact ih h ((Passes.of_step hstep).ne_done hkind)
  | case4 s kind kinds value hstep => exact absurd (eq_done_of_finish hstep) (hs value)
  | case5 s kind kinds expected hstep => cases h

/-! ## Texts of tokens -/

theorem feed_of_derivesText {room : Nat} {kinds : List TokenKind} {gs : List Graph}
    (h : DerivesText room kinds gs) (hroom : room ≤ maxDepth) :
    (graph (.nextGraph [] .top)).feed maxDepth kinds = .finished gs [.eof] := by
  obtain ⟨hgs⟩ := h
  exact feed_start hgs hroom

theorem derivesGraphs_of_feed {kinds left : List TokenKind} {gs : List Graph}
    (h : (graph (.nextGraph [] .top)).feed maxDepth kinds = .finished gs left) :
    ∃ taken more, kinds = taken ++ .eof :: more ∧ DerivesGraphs maxDepth taken gs := by
  obtain ⟨more, rfl⟩ := left_of_finished h fun _ => nofun
  obtain ⟨taken, hkinds, htaken⟩ := mem_language_of_feed h nil_mem_before_start
  exact ⟨taken, more, hkinds, htaken⟩

end State

/-- The tokens of a text stand for one list of graphs only. -/
theorem derivesText_unique {room room' : Nat} {kinds : List TokenKind} {gs gs' : List Graph}
    (h : DerivesText room kinds gs) (h' : DerivesText room' kinds gs') : gs = gs' := by
  have hfeed := State.feed_of_derivesText h (Nat.le_max_left room room')
  have hfeed' := State.feed_of_derivesText h' (Nat.le_max_right room room')
  rw [hfeed] at hfeed'
  exact (Outcome.finished.inj hfeed').1

end Parser

open Grammar

theorem derivesText_of_parse {source : String} {options : ParseOptions} {gs : List Graph}
    (h : parse source options = .ok gs) :
    ∃ tokens, Lexer.tokenize source = .ok tokens ∧
      DerivesText options.maxDepth (tokens.map Token.kind) gs := by
  have hexplains := parse_explains source options
  rw [h] at hexplains
  obtain ⟨left, hfeed⟩ := hexplains.eq_finished
  obtain ⟨taken, more, hkinds, htaken⟩ := Parser.State.derivesGraphs_of_feed hfeed
  obtain ⟨rfl, -, last, hending⟩ := Cursor.eq_of_kinds_readAll hkinds
  refine ⟨_, Lexer.tokenize_eq_ok_iff.2 ⟨last, hending, rfl⟩, ?_⟩
  rw [List.map_append, List.map_singleton, Cursor.kind_of_ending hending]
  exact .mk htaken

theorem parse_of_derivesText {source : String} {options : ParseOptions} {gs : List Graph}
    {tokens : List Token} (htokens : Lexer.tokenize source = .ok tokens)
    (h : DerivesText options.maxDepth (tokens.map Token.kind) gs) :
    parse source options = .ok gs := by
  have hexplains := parse_explains source options
  obtain ⟨last, hending, rfl⟩ := Lexer.tokenize_eq_ok_iff.1 htokens
  have hitems : (Lexer.run source).items = (Lexer.run source).tokens ++ [last] := by
    rw [Cursor.Run.items, hending]
  rw [Cursor.Run.kinds, hitems, Parser.State.feed_of_derivesText h (le_refl _)] at hexplains
  exact hexplains.eq_ok

/-- A parse succeeds exactly on the texts of the grammar, and with the graphs that the grammar
relates to their tokens; these are never two different lists of graphs. -/
theorem parse_eq_ok_iff_derives :
    (∀ (source : String) (options : ParseOptions) (gs : List Graph),
      parse source options = .ok gs ↔
        ∃ tokens, Lexer.tokenize source = .ok tokens ∧
          DerivesText options.maxDepth (tokens.map Token.kind) gs) ∧
    ∀ (room room' : Nat) (kinds : List TokenKind) (gs gs' : List Graph),
      DerivesText room kinds gs → DerivesText room' kinds gs' → gs = gs' := by
  refine ⟨fun source options gs => ⟨derivesText_of_parse, ?_⟩, ?_⟩
  · rintro ⟨tokens, htokens, h⟩
    exact parse_of_derivesText htokens h
  · intro room room' kinds gs gs' h h'
    exact Parser.derivesText_unique h h'

end DotLang
