import DotLang.Proofs.Acceptance

/-!
# Texts without separators

Semicolons, commas, the borders between groups of attributes and the kind of the arrows are a
matter of taste: a text without separators, with one group where there were several, and with any
arrows stands for the same graphs.

* `DerivesText.condensed`: leaving out separators and merging groups.
* `DerivesText.of_alike`: other arrows.
-/

namespace DotLang

open Grammar

/-- Whether a token only separates attributes or statements. -/
def TokenKind.isSeparator (kind : TokenKind) : Bool :=
  kind = .symbol .semicolon || kind = .symbol .comma

/-- The tokens that do not only separate others. -/
def withoutSeparators (kinds : List TokenKind) : List TokenKind :=
  kinds.filter fun kind => !kind.isSeparator

/-- Groups of attributes that stand behind each other become one group. -/
def mergeGroups : List TokenKind → List TokenKind
  | .symbol .closeBracket :: .symbol .openBracket :: kinds => mergeGroups kinds
  | kind :: kinds => kind :: mergeGroups kinds
  | [] => []

example :
    mergeGroups (withoutSeparators
      [.symbol .openBracket, .string "a", .symbol .equal, .string "b", .symbol .comma,
        .symbol .closeBracket, .symbol .openBracket, .symbol .closeBracket]) =
      [.symbol .openBracket, .string "a", .symbol .equal, .string "b", .symbol .closeBracket] := by
  decide

/-- The same token, or two arrows. -/
inductive Alike : TokenKind → TokenKind → Prop where
  | same (kind : TokenKind) : Alike kind kind
  | arrow (op op' : EdgeOp) : Alike (.edgeOp op) (.edgeOp op')

/-! ## Leaving out separators and merging groups -/

/-- Without separators and with merged groups. -/
def condensed (kinds : List TokenKind) : List TokenKind := mergeGroups (withoutSeparators kinds)

/-- No further group of attributes begins here. -/
def EndsGroups (rest : List TokenKind) : Prop :=
  (withoutSeparators rest).head? ≠ some (.symbol .openBracket)

section Tokens

variable {kind : TokenKind} {rest : List TokenKind}

theorem withoutSeparators_separator (h : kind.isSeparator = true) :
    withoutSeparators (kind :: rest) = withoutSeparators rest := by
  simp [withoutSeparators, h]

theorem withoutSeparators_cons (h : kind.isSeparator = false) :
    withoutSeparators (kind :: rest) = kind :: withoutSeparators rest := by
  simp [withoutSeparators, h]

theorem endsGroups_cons (h : kind.isSeparator = false) (hopen : kind ≠ .symbol .openBracket) :
    EndsGroups (kind :: rest) := by
  rw [EndsGroups, withoutSeparators_cons h]
  simpa using hopen

theorem mergeGroups_cons {kinds : List TokenKind}
    (h : kind ≠ .symbol .closeBracket ∨ kinds.head? ≠ some (.symbol .openBracket)) :
    mergeGroups (kind :: kinds) = kind :: mergeGroups kinds := by
  rw [mergeGroups]
  rintro kinds' rfl rfl
  simp at h

theorem condensed_cons (hsep : kind.isSeparator = false)
    (h : kind ≠ .symbol .closeBracket ∨ EndsGroups rest) :
    condensed (kind :: rest) = kind :: condensed rest := by
  rw [condensed, withoutSeparators_cons hsep, mergeGroups_cons h, condensed]

theorem condensed_open :
    condensed (.symbol .openBracket :: rest) = .symbol .openBracket :: condensed rest :=
  condensed_cons rfl (.inl nofun)

theorem condensed_close (h : EndsGroups rest) :
    condensed (.symbol .closeBracket :: rest) = .symbol .closeBracket :: condensed rest :=
  condensed_cons rfl (.inr h)

theorem endsGroups_close : EndsGroups (.symbol .closeBracket :: rest) := endsGroups_cons rfl nofun

/-- Between two groups both brackets are left out. -/
theorem condensed_between :
    condensed (.symbol .closeBracket :: .symbol .openBracket :: rest) = condensed rest := by
  rw [condensed, withoutSeparators_cons rfl, withoutSeparators_cons rfl, mergeGroups, condensed]

end Tokens

/-- Where no group follows, the tokens `ks` are condensed to `ks'`. -/
def Condenses (ks ks' : List TokenKind) : Prop :=
  ∀ rest, EndsGroups rest →
    EndsGroups (ks ++ rest) ∧ condensed (ks ++ rest) = ks' ++ condensed rest

/-- Whatever follows, the tokens `ks` are condensed to `ks'`. -/
def Closes (ks ks' : List TokenKind) : Prop :=
  ∀ rest, EndsGroups (ks ++ rest) ∧ condensed (ks ++ rest) = ks' ++ condensed rest

section Parts

variable {ks ks' ls ls' : List TokenKind} {kind : TokenKind}

theorem Closes.condenses (h : Closes ks ks') : Condenses ks ks' := fun rest _ => h rest

theorem Condenses.nil : Condenses [] [] := fun _ h => ⟨h, rfl⟩

theorem Condenses.append (h : Condenses ks ks') (hl : Condenses ls ls') :
    Condenses (ks ++ ls) (ks' ++ ls') := by
  intro rest hrest
  obtain ⟨hends, heq⟩ := hl rest hrest
  rw [List.append_assoc, List.append_assoc, ← heq]
  exact h (ls ++ rest) hends

theorem Condenses.append_closes (h : Condenses ks ks') (hl : Closes ls ls') :
    Closes (ks ++ ls) (ks' ++ ls') := by
  intro rest
  obtain ⟨hends, heq⟩ := hl rest
  rw [List.append_assoc, List.append_assoc, ← heq]
  exact h (ls ++ rest) hends

theorem Closes.append (h : Closes ks ks') (hl : Closes ls ls') : Closes (ks ++ ls) (ks' ++ ls') :=
  h.condenses.append_closes hl

theorem Condenses.separator (h : kind.isSeparator = true) : Condenses [kind] [] := by
  intro rest hrest
  rw [List.singleton_append, EndsGroups, condensed, withoutSeparators_separator h]
  exact ⟨hrest, rfl⟩

theorem Closes.one (hsep : kind.isSeparator = false) (hopen : kind ≠ .symbol .openBracket)
    (hclose : kind ≠ .symbol .closeBracket) : Closes [kind] [kind] :=
  fun _ => ⟨endsGroups_cons hsep hopen, condensed_cons hsep (.inl hclose)⟩

end Parts

namespace Grammar

variable {room : Nat} {ks : List TokenKind}

theorem DerivesString.closes {s : String} (h : DerivesString ks s) : Closes ks ks := by
  induction h with
  | one s => exact .one rfl nofun nofun
  | more t _ ih =>
    have hplus : Closes [.symbol .plus] [.symbol .plus] := .one rfl nofun nofun
    exact ih.append (hplus.append (.one rfl nofun nofun))

theorem DerivesId.closes {i : Id} (h : DerivesId ks i) : Closes ks ks := by
  cases h with
  | string hs => exact hs.closes
  | _ => exact .one rfl nofun nofun

theorem DerivesOptionalId.closes_append {i : Option Id} {ls ls' : List TokenKind}
    (h : DerivesOptionalId ks i) (hls : Closes ls ls') : Closes (ls ++ ks) (ls' ++ ks) := by
  cases h with
  | absent => rwa [List.append_nil, List.append_nil]
  | present hi => exact hls.append hi.closes

theorem DerivesNode.closes {n : NodeId} (h : DerivesNode ks n) : Closes ks ks := by
  have hcolon : Closes [.symbol .colon] [.symbol .colon] := .one rfl nofun nofun
  cases h with
  | id hi => exact hi.closes
  | port hi hp => exact hi.closes.append (hcolon.append hp.closes)
  | compass hi hp hc =>
    exact (hi.closes.append (hcolon.append hp.closes)).append (hcolon.append hc.closes)

theorem DerivesGroup.condenses {as : List Attribute} (h : DerivesGroup ks as) :
    ∃ ks', Condenses ks ks' ∧ DerivesGroup ks' as := by
  have hequal : Closes [.symbol .equal] [.symbol .equal] := .one rfl nofun nofun
  induction h with
  | nil => exact ⟨[], .nil, .nil⟩
  | @cons ks ls sep ms key value as hkey hvalue hsep _ ih =>
    obtain ⟨ms', hms, hderives⟩ := ih
    have hattribute := hkey.closes.append (hequal.append hvalue.closes)
    have hseparator : Condenses sep [] := by
      cases hsep with
      | nothing => exact .nil
      | semicolon => exact .separator rfl
      | comma => exact .separator rfl
    refine ⟨_, (hattribute.condenses.append hseparator).append hms, ?_⟩
    exact .cons hkey hvalue .nothing hderives

/-- Groups are condensed to one group. -/
theorem DerivesGroups.condensed_append {as : List Attribute} (h : DerivesGroups ks as)
    (hne : ks ≠ []) :
    ∃ ks', DerivesGroup ks' as ∧ ∀ rest, EndsGroups rest →
      condensed (ks ++ rest) =
        .symbol .openBracket :: ks' ++ .symbol .closeBracket :: condensed rest := by
  induction h with
  | nil => exact absurd rfl hne
  | @cons ks ls as bs hfirst hmore ih =>
    obtain ⟨ks', hks, hderives⟩ := hfirst.condenses
    have hone (rest : List TokenKind) :
        condensed (.symbol .openBracket :: ks ++ .symbol .closeBracket :: ls ++ rest) =
          .symbol .openBracket :: ks' ++ condensed (.symbol .closeBracket :: (ls ++ rest)) := by
      rw [List.append_assoc, List.cons_append, condensed_open]
      exact congrArg _ (hks _ endsGroups_close).2
    cases hmore with
    | nil =>
      rw [List.append_nil]
      refine ⟨ks', hderives, fun rest hrest => ?_⟩
      rw [hone rest, List.nil_append, condensed_close hrest]
    | @cons ls ms bs cs hls hms =>
      -- the bracket behind the first group and the one in front of the others cancel
      obtain ⟨ls', hmerged, hcondensed⟩ := ih (List.cons_ne_nil _ _)
      refine ⟨ks' ++ ls', hderives.append hmerged, fun rest hrest => ?_⟩
      have hothers := hcondensed rest hrest
      rw [hone rest]
      simp only [List.append_assoc, List.cons_append, condensed_open, condensed_between]
        at hothers ⊢
      rw [(List.cons.inj hothers).2]

theorem DerivesGroups.condenses {as : List Attribute} (h : DerivesGroups ks as) :
    ∃ ks', DerivesGroups ks' as ∧ (ks ≠ [] → ks' ≠ []) ∧
      ∀ {ls ls' : List TokenKind}, Closes ls ls' → Condenses (ls ++ ks) (ls' ++ ks') := by
  by_cases hne : ks = []
  · subst hne
    exact ⟨[], h, id, fun hls => (hls.condenses).append .nil⟩
  · obtain ⟨ks', hgroup, hcondensed⟩ := h.condensed_append hne
    have hgroups := DerivesGroups.cons hgroup .nil
    rw [List.append_nil] at hgroups
    refine ⟨_, hgroups, fun _ => List.cons_ne_nil _ _, fun hls rest hrest => ?_⟩
    obtain ⟨hends, heq⟩ := hls (ks ++ rest)
    rw [List.append_assoc]
    refine ⟨hends, ?_⟩
    rw [heq, hcondensed rest hrest]
    simp

theorem closes_of_target {word : TokenKind} {target : AttributeTarget}
    (h : word.target? = some target) : Closes [word] [word] := by
  refine .one ?_ ?_ ?_
  · cases word <;> first | rfl | exact nomatch h
  · rintro rfl
    exact nomatch h
  · rintro rfl
    exact nomatch h

theorem closes_braces {ks' : List TokenKind} (h : Condenses ks ks') :
    Closes (.symbol .openBrace :: ks ++ [.symbol .closeBrace])
      (.symbol .openBrace :: ks' ++ [.symbol .closeBrace]) := by
  have hopen : Closes [.symbol .openBrace] [.symbol .openBrace] := .one rfl nofun nofun
  have hclose : Closes [.symbol .closeBrace] [.symbol .closeBrace] := .one rfl nofun nofun
  exact hopen.append (h.append_closes hclose)

mutual

theorem DerivesStmt.condenses {room : Nat} {ks : List TokenKind} {s : Stmt}
    (h : DerivesStmt room ks s) : ∃ ks', Condenses ks ks' ∧ DerivesStmt room ks' s :=
  match h with
  | .node hn has => by
    obtain ⟨ls', hls, -, hcondenses⟩ := has.condenses
    exact ⟨_, hcondenses hn.closes, .node hn hls⟩
  | .edge he hl hne has => by
    obtain ⟨ks', hks, hfirst⟩ := he.closes
    obtain ⟨ls', hls, hlater⟩ := hl.closes
    obtain ⟨ms', hms, -, hcondenses⟩ := has.condenses
    exact ⟨_, hcondenses (hlater hks), .edge hfirst hls hne hms⟩
  | .attributes hword has hne => by
    obtain ⟨ls', hls, hne', hcondenses⟩ := has.condenses
    exact ⟨_, hcondenses (closes_of_target hword), .attributes hword hls (hne' hne)⟩
  | .assignment hkey hvalue => by
    have hequal : Closes [.symbol .equal] [.symbol .equal] := .one rfl nofun nofun
    exact ⟨_, (hkey.closes.append (hequal.append hvalue.closes)).condenses,
      .assignment hkey hvalue⟩
  | .subgraph hg => by
    obtain ⟨ks', hks, hsubgraph⟩ := hg.closes
    exact ⟨ks', hks.condenses, .subgraph hsubgraph⟩

theorem DerivesEndpoint.closes {room : Nat} {ks : List TokenKind} {e : Endpoint}
    (h : DerivesEndpoint room ks e) : ∃ ks', Closes ks ks' ∧ DerivesEndpoint room ks' e :=
  match h with
  | .node hn => ⟨_, hn.closes, .node hn⟩
  | .subgraph hg => by
    obtain ⟨ks', hks, hsubgraph⟩ := hg.closes
    exact ⟨ks', hks, .subgraph hsubgraph⟩

theorem DerivesLater.closes {room : Nat} {ks : List TokenKind} {es : List Endpoint}
    (h : DerivesLater room ks es) :
    ∃ ks', DerivesLater room ks' es ∧
      ∀ {ls ls' : List TokenKind}, Closes ls ls' → Closes (ls ++ ks) (ls' ++ ks') :=
  match h with
  | .nil => ⟨[], .nil, fun hls => by rwa [List.append_nil, List.append_nil]⟩
  | @DerivesLater.cons _ op _ _ _ _ he hl => by
    have harrow : Closes [.edgeOp op] [.edgeOp op] := .one rfl nofun nofun
    obtain ⟨ks', hks, hendpoint⟩ := he.closes
    obtain ⟨ls', hls, hlater⟩ := hl.closes
    exact ⟨_, .cons hendpoint hls, fun h => h.append (hlater (harrow.append hks))⟩

theorem DerivesSubgraph.closes {room : Nat} {ks : List TokenKind} {g : Subgraph}
    (h : DerivesSubgraph room ks g) : ∃ ks', Closes ks ks' ∧ DerivesSubgraph room ks' g :=
  match h with
  | .bare hb => by
    obtain ⟨ks', hks, hbody⟩ := hb.condenses
    exact ⟨_, closes_braces hks, .bare hbody⟩
  | .named hi hb => by
    have hword : Closes [.keyword .subgraph] [.keyword .subgraph] := .one rfl nofun nofun
    obtain ⟨ks', hks, hbody⟩ := hb.condenses
    have hsubgraph := DerivesSubgraph.named hi hbody
    rw [List.append_assoc] at hsubgraph ⊢
    exact ⟨_, (hi.closes_append hword).append (closes_braces hks), hsubgraph⟩

theorem DerivesBody.condenses {room : Nat} {ks : List TokenKind} {b : List Stmt}
    (h : DerivesBody room ks b) : ∃ ks', Condenses ks ks' ∧ DerivesBody room ks' b :=
  match h with
  | .nil => ⟨[], .nil, .nil⟩
  | .semicolon hb => by
    obtain ⟨ks', hks, hbody⟩ := hb.condenses
    exact ⟨_, (Condenses.separator rfl).append hks, hbody⟩
  | .cons hs hb => by
    obtain ⟨ks', hks, hstmt⟩ := hs.condenses
    obtain ⟨ls', hls, hbody⟩ := hb.condenses
    exact ⟨_, hks.append hls, .cons hstmt hbody⟩

end

theorem DerivesStrict.closes_append {strict : Bool} {ls : List TokenKind}
    (h : DerivesStrict ks strict) (hls : Closes ls ls) : Closes (ks ++ ls) (ks ++ ls) := by
  have hword : Closes [.keyword .strict] [.keyword .strict] := .one rfl nofun nofun
  cases h with
  | absent => exact hls
  | present => exact hword.append hls

theorem closes_of_graphKind {word : TokenKind} {kind : GraphKind}
    (h : word.graphKind? = some kind) : Closes [word] [word] := by
  refine .one ?_ ?_ ?_
  · cases word <;> first | rfl | exact nomatch h
  · rintro rfl
    exact nomatch h
  · rintro rfl
    exact nomatch h

theorem DerivesGraph.closes {g : Graph} (h : DerivesGraph room ks g) :
    ∃ ks', Closes ks ks' ∧ DerivesGraph room ks' g := by
  obtain ⟨hstrict, hword, hi, hb⟩ := h
  obtain ⟨ks', hks, hbody⟩ := hb.condenses
  have hhead := hstrict.closes_append (hi.closes_append (closes_of_graphKind hword))
  have hgraph := DerivesGraph.mk hstrict hword hi hbody
  rw [List.append_assoc] at hgraph ⊢
  exact ⟨_, hhead.append (closes_braces hks), hgraph⟩

theorem DerivesGraphs.closes {gs : List Graph} (h : DerivesGraphs room ks gs) :
    ∃ ks', Closes ks ks' ∧ DerivesGraphs room ks' gs := by
  induction h with
  | one hg =>
    obtain ⟨ks', hks, hgraph⟩ := hg.closes
    exact ⟨ks', hks, .one hgraph⟩
  | cons hg _ ih =>
    obtain ⟨ks', hks, hgraph⟩ := hg.closes
    obtain ⟨ls', hls, hgraphs⟩ := ih
    exact ⟨_, hks.append hls, .cons hgraph hgraphs⟩

/-- A text without separators and with merged groups stands for the same graphs. -/
theorem DerivesText.condensed {gs : List Graph} (h : DerivesText room ks gs) :
    DerivesText room (condensed ks) gs := by
  obtain ⟨hgs⟩ := h
  obtain ⟨ks', hks, hgraphs⟩ := hgs.closes
  obtain ⟨-, heq⟩ := hks [.eof]
  rw [heq]
  exact .mk hgraphs

end Grammar

/-! ## Other arrows -/

namespace Parser.State

variable {goal : Construct} {maxDepth : Nat}

theorem step_of_alike (s : State goal) {kind kind' : TokenKind} (h : Alike kind kind') :
    s.step maxDepth kind = s.step maxDepth kind' := by
  cases h with
  | same => rfl
  | arrow op op' => cases s <;> rfl

/-- Which arrows there are makes no difference to what is read. -/
theorem feed_alike {s : State goal} {kinds kinds' left : List TokenKind} {value : goal.Value}
    (h : s.feed maxDepth kinds = .finished value left) (halike : kinds.Forall₂ Alike kinds') :
    ∃ left', s.feed maxDepth kinds' = .finished value left' ∧ left.Forall₂ Alike left' := by
  fun_induction feed maxDepth s kinds generalizing kinds' with
  | case1 s => cases h
  | case2 s kind kinds next hstep ih =>
    obtain ⟨kind', kinds', hkind, hkinds, rfl⟩ := List.forall₂_cons_left_iff.1 halike
    rw [step_of_alike s hkind] at hstep
    rw [feed_of_shift hstep]
    exact ih h hkinds
  | case3 s kind kinds next hstep ih =>
    obtain ⟨kind', kinds', hkind, hkinds, rfl⟩ := List.forall₂_cons_left_iff.1 halike
    rw [step_of_alike s hkind] at hstep
    rw [feed_of_pass hstep]
    exact ih h halike
  | case4 s kind kinds value hstep =>
    obtain ⟨rfl, rfl⟩ := Outcome.finished.inj h
    obtain ⟨kind', kinds', hkind, hkinds, rfl⟩ := List.forall₂_cons_left_iff.1 halike
    rw [step_of_alike s hkind] at hstep
    exact ⟨_, feed_of_finish hstep, halike⟩
  | case5 s kind kinds expected hstep => cases h

/-- What is read up to the end of input is a text. -/
theorem derivesText_of_feed {kinds : List TokenKind} {gs : List Graph}
    (h : (graph (.nextGraph [] .top)).feed maxDepth kinds = .finished gs [.eof]) :
    DerivesText maxDepth kinds gs := by
  obtain ⟨taken, rfl, htaken⟩ := mem_language_of_feed h nil_mem_before_start
  exact .mk htaken

end Parser.State

/-- A text with other arrows stands for the same graphs. -/
theorem Grammar.DerivesText.of_alike {room : Nat} {kinds kinds' : List TokenKind} {gs : List Graph}
    (h : DerivesText room kinds gs) (halike : kinds.Forall₂ Alike kinds') :
    DerivesText room kinds' gs := by
  have hfeed := Parser.State.feed_of_derivesText h (Nat.le_refl room)
  obtain ⟨left, hfeed', hleft⟩ := Parser.State.feed_alike hfeed halike
  obtain ⟨_, _, ⟨⟩, ⟨⟩, rfl⟩ := List.forall₂_cons_left_iff.1 hleft
  exact Parser.State.derivesText_of_feed hfeed'

end DotLang
