import DotLang.Proofs.Feed

/-!
# What is derived is read

A state that begins a construct takes the tokens of any derivation of it and goes on with the
state that the construct's slot gives. The constructs that could be longer are told their end by
the token ahead of them.

* `State.feed_body`, `State.feed_graph`: constructs with braces, whatever is ahead.
* `State.feed_stmt`: a statement, in front of a token that does not continue it.
* `State.feed_graphs`: graphs, whatever stands behind them.
-/

namespace DotLang.Parser

open Grammar

/-- The first of some tokens has the property `p`. -/
def Ahead (p : TokenKind → Prop) : List TokenKind → Prop
  | [] => False
  | kind :: _ => p kind

/-- A token in front of which a node ends. -/
structure EndsNode (kind : TokenKind) : Prop where
  ne_plus : kind ≠ .symbol .plus
  ne_colon : kind ≠ .symbol .colon
  ne_equal : kind ≠ .symbol .equal

/-- A token in front of which a statement ends. -/
structure EndsStmt (kind : TokenKind) : Prop extends EndsNode kind where
  ne_openBracket : kind ≠ .symbol .openBracket
  not_isArrow : ¬ kind.isArrow = true

/-- A token that begins a statement. -/
inductive StartsStmt (kind : TokenKind) : Prop where
  | id : kind.startsId = true → StartsStmt kind
  | subgraph : kind.startsSubgraph = true → StartsStmt kind
  | target {t : AttributeTarget} : kind.target? = some t → StartsStmt kind

theorem isArrow_iff {kind : TokenKind} : kind.isArrow = true ↔ ∃ op, kind = .edgeOp op := by
  cases kind <;> simp [TokenKind.isArrow]

namespace StartsStmt

variable {kind : TokenKind}

theorem ne_symbol (h : StartsStmt kind) {sym : Symbol} (hsym : sym ≠ .openBrace) :
    kind ≠ .symbol sym := by
  rintro rfl
  rcases h with h | h | h
  · cases h
  · simp [TokenKind.startsSubgraph, hsym] at h
  · cases h

theorem ne_eof (h : StartsStmt kind) : kind ≠ .eof := by
  rintro rfl
  rcases h with h | h | h <;> exact nomatch h

theorem endsStmt (h : StartsStmt kind) : EndsStmt kind where
  ne_plus := h.ne_symbol (by decide)
  ne_colon := h.ne_symbol (by decide)
  ne_equal := h.ne_symbol (by decide)
  ne_openBracket := h.ne_symbol (by decide)
  not_isArrow harrow := by
    obtain ⟨op, rfl⟩ := isArrow_iff.1 harrow
    rcases h with h | h | h
    · cases h
    · simp [TokenKind.startsSubgraph] at h
    · cases h

end StartsStmt

/-! ## First tokens -/

section First

variable {p q : TokenKind → Prop} {ks rest : List TokenKind}

theorem Ahead.cons {kind : TokenKind} (h : p kind) : Ahead p (kind :: rest) := h

theorem Ahead.imp (h : Ahead p ks) (hpq : ∀ kind, p kind → q kind) : Ahead q ks := by
  cases ks with
  | nil => exact h
  | cons kind ks => exact hpq kind h

theorem Ahead.append (h : Ahead p ks) : Ahead p (ks ++ rest) := by
  cases ks with
  | nil => exact h.elim
  | cons kind ks => exact h

theorem ahead_string {s : String} (h : DerivesString ks s) :
    Ahead (fun kind => kind.startsId = true) ks := by
  induction h with
  | one s => exact rfl
  | more t _ ih => exact ih.append

theorem ahead_id {i : Id} (h : DerivesId ks i) : Ahead (fun kind => kind.startsId = true) ks := by
  cases h with
  | string h => exact ahead_string h
  | _ => exact rfl

theorem ahead_node {n : NodeId} (h : DerivesNode ks n) :
    Ahead (fun kind => kind.startsId = true) ks := by
  cases h with
  | id hi => exact ahead_id hi
  | port hi _ => exact (ahead_id hi).append
  | compass hi _ _ => exact (ahead_id hi).append.append

theorem ahead_groups {as : List Attribute} (h : DerivesGroups ks as)
    (hbracket : p (.symbol .openBracket)) (hrest : Ahead p rest) : Ahead p (ks ++ rest) := by
  cases h with
  | nil => exact hrest
  | cons => exact hbracket

theorem Ahead.groups_endsNode {as : List Attribute} (h : Ahead EndsStmt rest)
    (hks : DerivesGroups ks as) : Ahead EndsNode (ks ++ rest) :=
  ahead_groups hks ⟨nofun, nofun, nofun⟩ (h.imp fun _ h => h.toEndsNode)

theorem Ahead.groups_not_isArrow {as : List Attribute} (h : Ahead EndsStmt rest)
    (hks : DerivesGroups ks as) : Ahead (fun kind => ¬ kind.isArrow = true) (ks ++ rest) :=
  ahead_groups hks nofun (h.imp fun _ h => h.not_isArrow)

theorem ahead_later {room : Nat} {es : List Endpoint} (h : DerivesLater room ks es)
    (harrow : ∀ op, p (.edgeOp op)) (hrest : Ahead p rest) : Ahead p (ks ++ rest) := by
  cases h with
  | nil => exact hrest
  | cons => exact harrow _

theorem ahead_arrow {room : Nat} {es : List Endpoint} (h : DerivesLater room ks es)
    (hne : es ≠ []) : Ahead (fun kind => kind.isArrow = true) (ks ++ rest) := by
  cases h with
  | nil => exact absurd rfl hne
  | cons => exact rfl

theorem ahead_subgraph {room : Nat} {g : Subgraph} (h : DerivesSubgraph room ks g) :
    Ahead (fun kind => kind.startsSubgraph = true) ks := by
  cases h with
  | bare => exact rfl
  | named => exact rfl

theorem ahead_endpoint {room : Nat} {e : Endpoint} (h : DerivesEndpoint room ks e) :
    Ahead StartsStmt ks := by
  cases h with
  | node hn => exact (ahead_node hn).imp fun _ => .id
  | subgraph hg => exact (ahead_subgraph hg).imp fun _ => .subgraph

theorem ahead_stmt {room : Nat} {s : Stmt} (h : DerivesStmt room ks s) : Ahead StartsStmt ks := by
  cases h with
  | node hn _ => exact ((ahead_node hn).imp fun _ => .id).append
  | edge he _ _ _ => exact (ahead_endpoint he).append.append
  | attributes ht _ _ => exact StartsStmt.target ht
  | assignment hi _ => exact ((ahead_id hi).imp fun _ => .id).append
  | subgraph hg => exact (ahead_subgraph hg).imp fun _ => .subgraph

theorem ahead_graph {room : Nat} {g : Graph} (h : DerivesGraph room ks g) :
    Ahead (· ≠ .eof) ks := by
  obtain ⟨hstrict, hword, _, _⟩ := h
  cases hstrict with
  | absent =>
    rintro rfl
    exact nomatch hword
  | present => exact nofun

theorem ahead_graphs {room : Nat} {gs : List Graph} (h : DerivesGraphs room ks gs) :
    Ahead (· ≠ .eof) ks := by
  cases h with
  | one hg => exact ahead_graph hg
  | cons hg _ => exact (ahead_graph hg).append

theorem ahead_body {room : Nat} {b : List Stmt} (h : DerivesBody room ks b) :
    Ahead EndsStmt (ks ++ .symbol .closeBrace :: rest) := by
  cases h with
  | nil => exact ⟨⟨nofun, nofun, nofun⟩, nofun, nofun⟩
  | semicolon => exact ⟨⟨nofun, nofun, nofun⟩, nofun, nofun⟩
  | cons hs _ => exact ((ahead_stmt hs).imp fun _ => StartsStmt.endsStmt).append.append

end First

namespace State

variable {goal : Construct} {maxDepth : Nat} {ks rest : List TokenKind}

/-- The token ahead decides that a state moves on. -/
theorem feed_of_ahead {s s' : State goal} {p : TokenKind → Prop} (h : Ahead p ks)
    (hpass : ∀ kind, p kind → Passes maxDepth s kind s') :
    s.feed maxDepth ks = s'.feed maxDepth ks := by
  cases ks with
  | nil => exact h.elim
  | cons kind ks => exact (hpass kind h).feed_cons

/-! ## Ids and nodes -/

theorem feed_string {slot : Slot goal .id} {s : String} (h : DerivesString ks s) :
    (id slot).feed maxDepth (ks ++ rest) = (string s slot).feed maxDepth rest := by
  induction h generalizing rest with
  | one s => exact Shifts.firstString.feed_cons
  | @more ks s t _ ih =>
    rw [List.append_assoc, ih]
    exact Shifts.plus.feed_cons.trans Shifts.nextString.feed_cons

theorem feed_id {slot : Slot goal .id} {i : Id} (h : DerivesId ks i)
    (hrest : Ahead (· ≠ .symbol .plus) rest) :
    (id slot).feed maxDepth (ks ++ rest) = (slot.fill i).feed maxDepth rest := by
  cases h with
  | identifier s => exact Shifts.identifier.feed_cons
  | number x => exact Shifts.number.feed_cons
  | html s => exact Shifts.html.feed_cons
  | string h =>
    rw [feed_string h]
    exact feed_of_ahead hrest fun _ => .lastString

/-- An id that may be left out in front of a brace. -/
theorem feed_optionalId {s : State goal} {slot : Slot goal .id} {i : Option Id}
    (next : Option Id → State goal)
    (hid : ∀ kind : TokenKind, kind.startsId = true → Passes maxDepth s kind (id slot))
    (hnone : ∀ kind : TokenKind, ¬ kind.startsId = true → Passes maxDepth s kind (next none))
    (hfill : ∀ i, slot.fill i = next (some i)) (h : DerivesOptionalId ks i) :
    s.feed maxDepth (ks ++ .symbol .openBrace :: rest) =
      (next i).feed maxDepth (.symbol .openBrace :: rest) := by
  cases h with
  | absent => exact (hnone (.symbol .openBrace) nofun).feed_cons
  | present hi =>
    have hplus : Ahead (· ≠ .symbol .plus) (.symbol .openBrace :: rest) := nofun
    rw [feed_of_ahead (ahead_id hi).append hid, feed_id hi hplus, hfill]

/-- A state that reads an id as the beginning of a node reads the whole node. -/
theorem feed_node {s : State goal} {slot : Slot goal .nodeId} {n : NodeId}
    (hid : ∀ {ks rest : List TokenKind} {i : Id}, DerivesId ks i →
      Ahead (fun kind => kind ≠ .symbol .plus ∧ kind ≠ .symbol .equal) rest →
        s.feed maxDepth (ks ++ rest) = (nodeId i slot).feed maxDepth rest)
    (h : DerivesNode ks n) (hrest : Ahead EndsNode rest) :
    s.feed maxDepth (ks ++ rest) = (slot.fill n).feed maxDepth rest := by
  cases rest with
  | nil => exact hrest.elim
  | cons kind rest =>
    have hplus : Ahead (· ≠ .symbol .plus) (kind :: rest) := hrest.ne_plus
    have hcolon (ls : List TokenKind) :
        Ahead (fun kind => kind ≠ .symbol .plus ∧ kind ≠ .symbol .equal) (.symbol .colon :: ls) :=
      ⟨nofun, nofun⟩
    cases h with
    | id hi =>
      rw [hid hi (.cons ⟨hrest.ne_plus, hrest.ne_equal⟩)]
      exact (Passes.noPort hrest.ne_colon).feed_cons
    | port hi hp =>
      rw [List.append_assoc, List.cons_append, hid hi (hcolon _), Shifts.port.feed_cons,
        feed_id hp hplus]
      exact (Passes.noCompass hrest.ne_colon).feed_cons
    | compass hi hp hc =>
      rw [List.append_assoc, List.append_assoc, List.cons_append, List.cons_append,
        hid hi (hcolon _), Shifts.port.feed_cons, feed_id hp ((hcolon _).imp fun _ h => h.1),
        Slot.fill, Shifts.compass.feed_cons, feed_id hc hplus, Slot.fill]

/-! ## Attributes -/

theorem feed_separator {slot : Slot goal .attributes} {before : List Attribute}
    (h : Separates ks) (hrest : Ahead (fun kind => ¬ Separates [kind]) rest) :
    (separator before slot).feed maxDepth (ks ++ rest) = (group before slot).feed maxDepth rest := by
  cases h with
  | nothing => exact feed_of_ahead hrest fun _ => .noSeparator
  | semicolon => exact (Shifts.separate .semicolon).feed_cons
  | comma => exact (Shifts.separate .comma).feed_cons

theorem ahead_group {as : List Attribute} (h : DerivesGroup ks as) :
    Ahead (fun kind => ¬ Separates [kind] ∧ kind ≠ .symbol .plus)
      (ks ++ .symbol .closeBracket :: rest) := by
  cases h with
  | nil => exact ⟨nofun, nofun⟩
  | cons hkey _ _ _ =>
    refine (Ahead.imp (ahead_id hkey) fun kind hkind => ⟨?_, ?_⟩).append.append.append.append
    · rintro ⟨⟩ <;> exact nomatch hkind
    · rintro rfl
      exact nomatch hkind

theorem feed_group {slot : Slot goal .attributes} {before as : List Attribute}
    (h : DerivesGroup ks as) :
    (group before slot).feed maxDepth (ks ++ .symbol .closeBracket :: rest) =
      (attributes (as.reverse ++ before) slot).feed maxDepth rest := by
  induction h generalizing before with
  | nil => exact Shifts.closeGroup.feed_cons
  | @cons ks ls sep ms key value as hkey hvalue hsep hms ih =>
    have hstart := @ahead_group _ rest _ hms
    have hend : Ahead (· ≠ .symbol .plus) (sep ++ (ms ++ .symbol .closeBracket :: rest)) := by
      cases hsep with
      | nothing => exact hstart.imp fun _ h => h.2
      | semicolon => exact nofun
      | comma => exact nofun
    have hequal (ls : List TokenKind) : Ahead (· ≠ .symbol .plus) (.symbol .equal :: ls) := nofun
    rw [List.append_assoc, List.append_assoc, List.append_assoc,
      feed_of_ahead (ahead_id hkey).append fun _ => .attributeKey, List.cons_append,
      feed_id hkey (hequal _), Slot.fill, Shifts.equal.feed_cons, feed_id hvalue hend,
      Slot.fill, feed_separator hsep (hstart.imp fun _ h => h.1), ih, List.reverse_cons,
      List.append_assoc]
    rfl

theorem feed_groups {slot : Slot goal .attributes} {before as : List Attribute}
    (h : DerivesGroups ks as) (hrest : Ahead (· ≠ .symbol .openBracket) rest) :
    (attributes before slot).feed maxDepth (ks ++ rest) =
      (slot.fill (before.reverse ++ as)).feed maxDepth rest := by
  induction h generalizing before with
  | nil =>
    rw [List.append_nil]
    exact feed_of_ahead hrest fun _ => .lastGroup
  | @cons ks ls first later hfirst _ ih =>
    rw [List.cons_append, List.cons_append, Shifts.openGroup.feed_cons, List.append_assoc,
      List.cons_append, feed_group hfirst, ih]
    simp

/-! ## Statements and subgraphs -/

theorem feed_stmt_id {slot : Slot goal .stmt} {i : Id} (h : DerivesId ks i)
    (hrest : Ahead (· ≠ .symbol .plus) rest) :
    (stmt slot).feed maxDepth (ks ++ rest) = (afterId i slot).feed maxDepth rest := by
  rw [feed_of_ahead (ahead_id h).append fun _ => .firstId, feed_id h hrest, Slot.fill]

theorem feed_stmt_node {slot : Slot goal .stmt} {n : NodeId} (h : DerivesNode ks n)
    (hrest : Ahead EndsNode rest) :
    (stmt slot).feed maxDepth (ks ++ rest) = (afterNode n slot).feed maxDepth rest := by
  refine @feed_node _ _ _ _ _ (.firstNode slot) _ (fun hi hrest => ?_) h hrest
  rw [feed_stmt_id hi (hrest.imp fun _ h => h.1)]
  exact feed_of_ahead hrest fun _ h => .firstNode h.2

theorem feed_endpoint_node {slot : Slot goal .edge} {before : List Endpoint} {n : NodeId}
    (h : DerivesNode ks n) (hrest : Ahead EndsNode rest) :
    (endpoint before slot).feed maxDepth (ks ++ rest) =
      (edge (.node n :: before) slot).feed maxDepth rest := by
  refine @feed_node _ _ _ _ _ (.nextNode before slot) _ (fun hi hrest => ?_) h hrest
  rw [feed_of_ahead (ahead_id hi).append fun _ => .nextId,
    feed_id hi (hrest.imp fun _ h => h.1), Slot.fill]

theorem endsNode_of_isArrow {kind : TokenKind} (h : kind.isArrow = true) : EndsNode kind := by
  obtain ⟨op, rfl⟩ := isArrow_iff.1 h
  exact ⟨nofun, nofun, nofun⟩

/-- In front of an arrow a state that takes it goes on like any other that does. -/
theorem feed_of_arrow {s s' t : State goal} (h : Ahead (fun kind => kind.isArrow = true) ks)
    (hs : ∀ kind, kind.isArrow = true → Shifts maxDepth s kind t)
    (hs' : ∀ kind, kind.isArrow = true → Shifts maxDepth s' kind t) :
    s.feed maxDepth ks = s'.feed maxDepth ks := by
  cases ks with
  | nil => exact h.elim
  | cons kind ks => rw [(hs kind h).feed_cons, (hs' kind h).feed_cons]

theorem feed_subgraphName {slot : Slot goal .subgraph} {i : Option Id}
    (h : DerivesOptionalId ks i) :
    (subgraphName slot).feed maxDepth (ks ++ .symbol .openBrace :: rest) =
      (openSubgraph i slot).feed maxDepth (.symbol .openBrace :: rest) := by
  refine feed_optionalId (openSubgraph · slot) (fun _ => .subgraphId) (fun _ => .noSubgraphId) ?_ h
  intro i
  rw [Slot.fill]

/-- Where there is room for a subgraph, its body has one room less. -/
theorem depth_subgraphBody {room : Nat} {slot : Slot goal .subgraph}
    (hroom : slot.depth + (room + 1) ≤ maxDepth) (i : Option Id) :
    ¬ maxDepth ≤ slot.depth ∧ (Slot.subgraphBody i slot).depth + room ≤ maxDepth := by
  rw [Slot.depth]
  omega

mutual

theorem feed_stmt {room : Nat} {ks rest : List TokenKind} {s : Stmt} {slot : Slot goal .stmt}
    (h : DerivesStmt room ks s) (hroom : slot.depth + room ≤ maxDepth)
    (hrest : Ahead EndsStmt rest) :
    (stmt slot).feed maxDepth (ks ++ rest) = (slot.fill s).feed maxDepth rest :=
  match h with
  | .node hn hg => by
    rw [List.append_assoc, feed_stmt_node hn (hrest.groups_endsNode hg),
      feed_of_ahead (hrest.groups_not_isArrow hg) fun _ => .nodeAttributes,
      feed_groups hg (hrest.imp fun _ h => h.ne_openBracket)]
    rfl
  | .edge he hl hne hg => by
    rw [List.append_assoc, List.append_assoc, feed_first he hroom (ahead_arrow hl hne),
      feed_later hl hroom (hrest.groups_endsNode hg),
      feed_of_ahead (hrest.groups_not_isArrow hg) fun _ => .edgeAttributes,
      feed_groups hg (hrest.imp fun _ h => h.ne_openBracket), Slot.fill, Slot.fill]
    simp
  | @DerivesStmt.attributes _ _ t ks as ht hg hne => by
    have hgroups : (attributes [] (.targetAttributes t slot)).feed maxDepth (ks ++ rest) = _ :=
      feed_groups hg (hrest.imp fun _ h => h.ne_openBracket)
    rw [List.cons_append, (Shifts.target ht).feed_cons]
    cases hg with
    | nil => exact absurd rfl hne
    | cons hfirst hlater =>
      rw [List.cons_append, List.cons_append, Shifts.openGroup.feed_cons] at hgroups
      rw [List.cons_append, List.cons_append, Shifts.openTarget.feed_cons, hgroups]
      rfl
  | .assignment hkey hvalue => by
    have hequal (ls : List TokenKind) : Ahead (· ≠ .symbol .plus) (.symbol .equal :: ls) := nofun
    rw [List.append_assoc, List.cons_append, feed_stmt_id hkey (hequal _), Shifts.assign.feed_cons,
      feed_id hvalue (hrest.imp fun _ h => h.ne_plus), Slot.fill]
  | .subgraph hg => by
    rw [feed_of_ahead (ahead_subgraph hg).append fun _ => .firstSubgraph,
      feed_subgraph hg hroom, Slot.fill]
    exact feed_of_ahead hrest fun _ h => .subgraphStmt h.not_isArrow

/-- The first endpoint of an edge. -/
theorem feed_first {room : Nat} {ks rest : List TokenKind} {e : Endpoint} {slot : Slot goal .stmt}
    (h : DerivesEndpoint room ks e) (hroom : slot.depth + room ≤ maxDepth)
    (hrest : Ahead (fun kind => kind.isArrow = true) rest) :
    (stmt slot).feed maxDepth (ks ++ rest) = (edge [e] (.edgeStmt slot)).feed maxDepth rest :=
  match h with
  | .node hn => by
    rw [feed_stmt_node hn (hrest.imp fun _ => endsNode_of_isArrow)]
    exact feed_of_arrow hrest (fun _ => .nodeArrow) fun _ => .arrow
  | .subgraph hg => by
    rw [feed_of_ahead (ahead_subgraph hg).append fun _ => .firstSubgraph,
      feed_subgraph hg hroom, Slot.fill]
    exact feed_of_arrow hrest (fun _ => .subgraphArrow) fun _ => .arrow

theorem feed_endpoint {room : Nat} {ks rest : List TokenKind} {e : Endpoint}
    {slot : Slot goal .edge} {before : List Endpoint} (h : DerivesEndpoint room ks e)
    (hroom : slot.depth + room ≤ maxDepth) (hrest : Ahead EndsNode rest) :
    (endpoint before slot).feed maxDepth (ks ++ rest) =
      (edge (e :: before) slot).feed maxDepth rest :=
  match h with
  | .node hn => feed_endpoint_node hn hrest
  | .subgraph hg => by
    rw [feed_of_ahead (ahead_subgraph hg).append fun _ => .nextSubgraph,
      feed_subgraph hg hroom, Slot.fill]

theorem feed_later {room : Nat} {ks rest : List TokenKind} {es : List Endpoint}
    {slot : Slot goal .edge} {before : List Endpoint} (h : DerivesLater room ks es)
    (hroom : slot.depth + room ≤ maxDepth) (hrest : Ahead EndsNode rest) :
    (edge before slot).feed maxDepth (ks ++ rest) =
      (edge (es.reverse ++ before) slot).feed maxDepth rest :=
  match h with
  | .nil => rfl
  | .cons he hl => by
    have hend : Ahead EndsNode _ := ahead_later hl (fun _ => ⟨nofun, nofun, nofun⟩) hrest
    rw [List.append_assoc, List.cons_append, (Shifts.arrow rfl).feed_cons,
      feed_endpoint he hroom hend, feed_later hl hroom hrest, List.reverse_cons,
      List.append_assoc]
    rfl

theorem feed_subgraph {room : Nat} {ks rest : List TokenKind} {g : Subgraph}
    {slot : Slot goal .subgraph} (h : DerivesSubgraph room ks g)
    (hroom : slot.depth + room ≤ maxDepth) :
    (subgraph slot).feed maxDepth (ks ++ rest) = (slot.fill g).feed maxDepth rest :=
  match h with
  | @DerivesSubgraph.bare room ks b hb => by
    obtain ⟨hdepth, hinner⟩ := depth_subgraphBody hroom none
    have hopen : Passes maxDepth (subgraph slot) (.symbol .openBrace) (openSubgraph none slot) :=
      .bareSubgraph hdepth nofun
    rw [List.append_assoc, List.cons_append, hopen.feed_cons, Shifts.openSubgraph.feed_cons,
      List.singleton_append, feed_body hb hinner]
    rfl
  | @DerivesSubgraph.named room is ks i b hi hb => by
    obtain ⟨hdepth, hinner⟩ := depth_subgraphBody hroom i
    rw [List.append_assoc, List.append_assoc, List.cons_append, List.cons_append,
      (Shifts.subgraphWord hdepth).feed_cons, feed_subgraphName hi,
      Shifts.openSubgraph.feed_cons, List.singleton_append, feed_body hb hinner]
    rfl

theorem feed_body {room : Nat} {ks rest : List TokenKind} {b : List Stmt}
    {slot : Slot goal .body} {before : List Stmt} (h : DerivesBody room ks b)
    (hroom : slot.depth + room ≤ maxDepth) :
    (body before slot).feed maxDepth (ks ++ .symbol .closeBrace :: rest) =
      (slot.fill (before.reverse ++ b)).feed maxDepth rest :=
  match h with
  | .nil => by
    rw [List.append_nil]
    exact Shifts.closeBody.feed_cons
  | .semicolon hb => by
    rw [List.cons_append, Shifts.semicolon.feed_cons, feed_body hb hroom]
  | .cons hs hb => by
    have hpass (kind : TokenKind) (h : StartsStmt kind) :
        Passes maxDepth (body before slot) kind (stmt (.nextStmt before slot)) :=
      .nextStmt (h.ne_symbol (by decide)) (h.ne_symbol (by decide)) h.ne_eof
    rw [List.append_assoc, feed_of_ahead (ahead_stmt hs).append hpass,
      feed_stmt hs hroom (ahead_body hb), Slot.fill, feed_body hb hroom, List.reverse_cons,
      List.append_assoc]
    rfl

end

/-! ## Graphs -/

theorem feed_graphName {slot : Slot goal .graph} {kind : GraphKind} {strict : Bool}
    {i : Option Id} (h : DerivesOptionalId ks i) :
    (graphName kind strict slot).feed maxDepth (ks ++ .symbol .openBrace :: rest) =
      (openGraph ⟨kind, strict, i⟩ slot).feed maxDepth (.symbol .openBrace :: rest) := by
  refine feed_optionalId (fun i => openGraph ⟨kind, strict, i⟩ slot) (fun _ => .graphId)
    (fun _ => .noGraphId) ?_ h
  intro i
  rw [Slot.fill]

theorem feed_strict {slot : Slot goal .graph} {strict : Bool} {word : TokenKind}
    {kind : GraphKind} (h : DerivesStrict ks strict) (hword : word.graphKind? = some kind) :
    (graph slot).feed maxDepth (ks ++ word :: rest) =
      (graphName kind strict slot).feed maxDepth rest := by
  cases h with
  | absent => exact (Shifts.graphWord hword).feed_cons
  | present => exact Shifts.strict.feed_cons.trans (Shifts.strictGraphWord hword).feed_cons

theorem feed_graph {room : Nat} {g : Graph} {slot : Slot goal .graph}
    (h : DerivesGraph room ks g) (hroom : slot.depth + room ≤ maxDepth) :
    (graph slot).feed maxDepth (ks ++ rest) = (slot.fill g).feed maxDepth rest := by
  cases h with
  | @mk ss is ks strict word kind i b hstrict hword hi hb =>
    have hinner : (Slot.graphBody ⟨kind, strict, i⟩ slot).depth + room ≤ maxDepth := hroom
    rw [List.append_assoc, List.append_assoc, List.append_assoc, List.cons_append,
      List.cons_append, feed_strict hstrict hword, feed_graphName hi, Shifts.openGraph.feed_cons,
      List.singleton_append, feed_body hb hinner]
    rfl

/-- Graphs are read up to what stands behind them. -/
theorem feed_graphs {room : Nat} {gs before : List Graph} {slot : Slot goal .graphs}
    (h : DerivesGraphs room ks gs) (hroom : slot.depth + room ≤ maxDepth) :
    (graph (.nextGraph before slot)).feed maxDepth (ks ++ rest) =
      (moreGraphs (gs.reverse ++ before) slot).feed maxDepth rest := by
  induction h generalizing before with
  | @one ks g hg =>
    have hinner : (Slot.nextGraph before slot).depth + room ≤ maxDepth := hroom
    rw [feed_graph hg hinner]
    rfl
  | @cons ks ls g gs hg hgs ih =>
    have hinner : (Slot.nextGraph before slot).depth + room ≤ maxDepth := hroom
    rw [List.append_assoc, feed_graph hg hinner, Slot.fill,
      feed_of_ahead (ahead_graphs hgs).append fun _ => .nextGraph, ih, List.reverse_cons,
      List.append_assoc]
    rfl

/-- The graphs of a text are read from the start. -/
theorem feed_start_append {room : Nat} {gs : List Graph} (h : DerivesGraphs room ks gs)
    (hroom : room ≤ maxDepth) :
    (graph (.nextGraph [] .top)).feed maxDepth (ks ++ rest) =
      (moreGraphs gs.reverse .top).feed maxDepth rest := by
  have hdepth : (Slot.top : Slot .graphs .graphs).depth + room ≤ maxDepth := by
    rw [Slot.depth]
    omega
  rw [feed_graphs h hdepth, List.append_nil]

/-- A whole text makes a parse finish in front of the end of input. -/
theorem feed_start {room : Nat} {gs : List Graph} (h : DerivesGraphs room ks gs)
    (hroom : room ≤ maxDepth) :
    (graph (.nextGraph [] .top)).feed maxDepth (ks ++ [.eof]) = .finished gs [.eof] := by
  rw [feed_start_append h hroom, Passes.lastGraph.feed_cons, List.reverse_reverse]
  exact feed_of_finish rfl

end State

end DotLang.Parser
