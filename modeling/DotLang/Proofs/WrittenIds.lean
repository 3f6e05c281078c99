import DotLang.Graph.Contents
import DotLang.Proofs.Acceptance

/-!
# The ids that a text writes down

The ids of the graphs of a text are the ids that its tokens write down, in the same order and each
as often.

* `DerivesStmt.names` and its like: a construct has the ids that its tokens write down.
* `DerivesText.flatMap_ids`: so has a whole text.
-/

namespace DotLang

open Grammar

/-! ## Ids that are written down -/

/-- The ids that tokens write down, in their order. Strings with plus signs between them are one
id. -/
def writtenIds : List TokenKind → List Id
  | .string s :: .symbol .plus :: .string t :: kinds => writtenIds (.string (s ++ t) :: kinds)
  | .identifier s :: kinds => .name s :: writtenIds kinds
  | .string s :: kinds => .name s :: writtenIds kinds
  | .number x :: kinds => .number x :: writtenIds kinds
  | .html s :: kinds => .html s :: writtenIds kinds
  | _ :: kinds => writtenIds kinds
  | [] => []
termination_by kinds => kinds.length

example :
    writtenIds [.string "a", .symbol .plus, .string "b", .symbol .equal, .html "c"] =
      [.name "ab", .html "c"] := by
  cbv

/-- Whatever tokens follow, other than a plus sign, the tokens `kinds` write down `ids` in front of
what those write down. -/
def Names (kinds : List TokenKind) (ids : List Id) : Prop :=
  ∀ rest : List TokenKind, rest.head? ≠ some (.symbol .plus) →
    (kinds ++ rest).head? ≠ some (.symbol .plus) ∧
      writtenIds (kinds ++ rest) = ids ++ writtenIds rest

namespace Names

variable {ks ls : List TokenKind} {is js : List Id} {kind : TokenKind}

theorem nil : Names [] [] := fun _ h => ⟨h, rfl⟩

theorem append (h : Names ks is) (hl : Names ls js) : Names (ks ++ ls) (is ++ js) := by
  intro rest hrest
  obtain ⟨hhead, hids⟩ := hl rest hrest
  obtain ⟨hhead', hids'⟩ := h (ls ++ rest) hhead
  rw [List.append_assoc, List.append_assoc, ← hids]
  exact ⟨hhead', hids'⟩

/-- A token that begins no id and is no plus sign writes down nothing. -/
theorem of_one (hid : ¬ kind.startsId = true) (hplus : kind ≠ .symbol .plus) : Names [kind] [] := by
  intro rest _
  refine ⟨by simpa using hplus, ?_⟩
  cases kind with
  | identifier name => exact absurd rfl hid
  | string value => exact absurd rfl hid
  | html text => exact absurd rfl hid
  | number value => exact absurd rfl hid
  | _ => rw [List.singleton_append, writtenIds] <;> first | rfl | exact nofun

theorem cons (h : Names ks is) (hid : ¬ kind.startsId = true) (hplus : kind ≠ .symbol .plus) :
    Names (kind :: ks) is := (of_one hid hplus).append h

theorem of_arrow (op : EdgeOp) : Names [.edgeOp op] [] := by
  cases op <;> exact of_one (by decide) (by decide)

theorem of_keyword (word : Keyword) : Names [.keyword word] [] := by
  cases word <;> exact of_one (by decide) (by decide)

end Names

namespace Grammar

variable {room : Nat} {ks : List TokenKind}

/-- Strings with plus signs between them write down what one string does. -/
theorem DerivesString.writtenIds_append {s : String} (h : DerivesString ks s) :
    ∀ rest, (ks ++ rest).head? ≠ some (.symbol .plus) ∧
      writtenIds (ks ++ rest) = writtenIds (.string s :: rest) := by
  induction h with
  | one s => exact fun rest => ⟨nofun, rfl⟩
  | more t _ ih =>
    intro rest
    rw [List.append_assoc]
    refine ⟨(ih _).1, ?_⟩
    rw [(ih _).2]
    simp [writtenIds]

theorem DerivesId.names {i : Id} (h : DerivesId ks i) : Names ks [i] := by
  intro rest hrest
  cases h with
  | identifier s => exact ⟨nofun, by rw [List.singleton_append, writtenIds, List.singleton_append]⟩
  | number x => exact ⟨nofun, by rw [List.singleton_append, writtenIds, List.singleton_append]⟩
  | html s => exact ⟨nofun, by rw [List.singleton_append, writtenIds, List.singleton_append]⟩
  | string hs =>
    refine ⟨(hs.writtenIds_append rest).1, ?_⟩
    rw [(hs.writtenIds_append rest).2, writtenIds, List.singleton_append]
    rintro t kinds rfl
    exact hrest rfl

theorem DerivesOptionalId.names {i : Option Id} (h : DerivesOptionalId ks i) :
    Names ks i.toList := by
  cases h with
  | absent => exact .nil
  | present hi => exact hi.names

theorem DerivesNode.names {n : NodeId} (h : DerivesNode ks n) : Names ks n.ids := by
  cases h with
  | id hi => exact hi.names
  | port hi hp => exact hi.names.append (hp.names.cons (by decide) (by decide))
  | compass hi hp hc =>
    exact (hi.names.append (hp.names.cons (by decide) (by decide))).append
      (hc.names.cons (by decide) (by decide))

theorem Separates.names (h : Separates ks) : Names ks [] := by
  cases h with
  | nothing => exact .nil
  | semicolon => exact .of_one (by decide) (by decide)
  | comma => exact .of_one (by decide) (by decide)

theorem DerivesGroup.names {as : List Attribute} (h : DerivesGroup ks as) :
    Names ks (attributeIds as) := by
  induction h with
  | nil => exact .nil
  | cons hkey hvalue hsep _ ih =>
    exact ((hkey.names.append (hvalue.names.cons (by decide) (by decide))).append
      hsep.names).append ih

theorem DerivesGroups.names {as : List Attribute} (h : DerivesGroups ks as) :
    Names ks (attributeIds as) := by
  induction h with
  | nil => exact .nil
  | cons hfirst _ ih =>
    rw [attributeIds, List.flatMap_append]
    exact (hfirst.names.cons (by decide) (by decide)).append (ih.cons (by decide) (by decide))

theorem exists_keyword_of_target? {kind : TokenKind} {target : AttributeTarget}
    (h : kind.target? = some target) : ∃ word, kind = .keyword word := by
  cases kind with
  | keyword word => exact ⟨word, rfl⟩
  | _ => exact nomatch h

theorem exists_keyword_of_graphKind? {kind : TokenKind} {graph : GraphKind}
    (h : kind.graphKind? = some graph) : ∃ word, kind = .keyword word := by
  cases kind with
  | keyword word => exact ⟨word, rfl⟩
  | _ => exact nomatch h

mutual

theorem DerivesStmt.names {room : Nat} {ks : List TokenKind} {s : Stmt}
    (h : DerivesStmt room ks s) : Names ks s.ids :=
  match h with
  | .node hn has => by
    rw [Stmt.ids]
    exact hn.names.append has.names
  | .edge he hl _ has => by
    rw [Stmt.ids, EdgeStmt.ids, endpointIds]
    exact (he.names.append hl.names).append has.names
  | .attributes hword has _ => by
    obtain ⟨word, rfl⟩ := exists_keyword_of_target? hword
    rw [Stmt.ids]
    exact (Names.of_keyword word).append has.names
  | .assignment hkey hvalue => by
    rw [Stmt.ids]
    exact hkey.names.append (hvalue.names.cons (by decide) (by decide))
  | .subgraph hg => by
    rw [Stmt.ids]
    exact hg.names

theorem DerivesEndpoint.names {room : Nat} {ks : List TokenKind} {e : Endpoint}
    (h : DerivesEndpoint room ks e) : Names ks e.ids :=
  match h with
  | .node hn => by
    rw [Endpoint.ids]
    exact hn.names
  | .subgraph hg => by
    rw [Endpoint.ids]
    exact hg.names

theorem DerivesLater.names {room : Nat} {ks : List TokenKind} {es : List Endpoint}
    (h : DerivesLater room ks es) : Names ks (endpointIds es) :=
  match h with
  | .nil => by
    rw [endpointIds]
    exact .nil
  | @DerivesLater.cons _ op _ _ _ _ he hl => by
    rw [endpointIds]
    exact ((Names.of_arrow op).append he.names).append hl.names

theorem DerivesSubgraph.names {room : Nat} {ks : List TokenKind} {g : Subgraph}
    (h : DerivesSubgraph room ks g) : Names ks g.ids :=
  match h with
  | .bare hb => by
    rw [Subgraph.ids, ← List.append_nil (bodyIds _)]
    exact (hb.names.cons (by decide) (by decide)).append (.of_one (by decide) (by decide))
  | .named hi hb => by
    rw [Subgraph.ids, ← List.append_nil (_ ++ bodyIds _)]
    exact ((hi.names.cons (by decide) (by decide)).append
      (hb.names.cons (by decide) (by decide))).append (.of_one (by decide) (by decide))

theorem DerivesBody.names {room : Nat} {ks : List TokenKind} {b : List Stmt}
    (h : DerivesBody room ks b) : Names ks (bodyIds b) :=
  match h with
  | .nil => by
    rw [bodyIds]
    exact .nil
  | .semicolon hb => hb.names.cons (by decide) (by decide)
  | .cons hs hb => by
    rw [bodyIds]
    exact hs.names.append hb.names

end

theorem DerivesStrict.names {strict : Bool} (h : DerivesStrict ks strict) : Names ks [] := by
  cases h with
  | absent => exact .nil
  | present => exact .of_keyword .strict

theorem DerivesGraph.names {g : Graph} (h : DerivesGraph room ks g) : Names ks g.ids := by
  obtain ⟨hstrict, hword, hi, hb⟩ := h
  obtain ⟨word, rfl⟩ := exists_keyword_of_graphKind? hword
  have hhead := hstrict.names.append ((Names.of_keyword word).append hi.names)
  rw [Graph.ids, ← List.append_nil (_ ++ bodyIds _)]
  exact (hhead.append (hb.names.cons (by decide) (by decide))).append
    (.of_one (by decide) (by decide))

theorem DerivesGraphs.names {gs : List Graph} (h : DerivesGraphs room ks gs) :
    Names ks (gs.flatMap Graph.ids) := by
  induction h with
  | one hg =>
    rw [List.flatMap_singleton]
    exact hg.names
  | cons hg _ ih =>
    rw [List.flatMap_cons]
    exact hg.names.append ih

/-- The ids of the graphs of a text are those that its tokens write down. -/
theorem DerivesText.flatMap_ids {gs : List Graph} (h : DerivesText room ks gs) :
    gs.flatMap Graph.ids = writtenIds ks := by
  obtain ⟨hgs⟩ := h
  obtain ⟨-, hids⟩ := hgs.names [.eof] (by decide)
  rw [hids]
  simp [writtenIds]

end Grammar

end DotLang
