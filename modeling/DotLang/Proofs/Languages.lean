import DotLang.Grammar
import DotLang.Parser.State
import Mathlib.Computability.Language
import Mathlib.Order.CompletePartialOrder

/-!
# The tokens of constructs and of their beginnings

`tokens R a` is the language of the token lists that a relation of the grammar relates to `a`.
Products of languages say in which order the parts of a construct stand, and `≤` says that parts
make up a construct. Beginnings that end inside a construct have relations of their own: the head
of a graph or subgraph, a chain of endpoints, attributes whose last group is still open, and any
number of graphs.

* `DerivesBody.append` and its like: what is repeated can be read in several parts.
* `head_mul_body_le` and its like: parts that stand behind each other make up a construct.
-/

namespace DotLang.Grammar

/-- The token lists that `R` relates to `a`. -/
def tokens {α : Type} (R : List TokenKind → α → Prop) (a : α) : Language TokenKind :=
  {ks | R ks a}

/-- The single token `kind`. -/
def one (kind : TokenKind) : Language TokenKind := {[kind]}

section Membership

variable {α : Type} {R : List TokenKind → α → Prop} {a : α} {kind : TokenKind}
  {ks : List TokenKind} {L : Language TokenKind}

theorem mem_tokens : ks ∈ tokens R a ↔ R ks a := Iff.rfl

theorem mem_one : ks ∈ one kind ↔ ks = [kind] := Iff.rfl

theorem le_tokens (h : ∀ ks ∈ L, R ks a) : L ≤ tokens R a := h

theorem one_le_tokens (h : R [kind] a) : one kind ≤ tokens R a := by
  rintro _ rfl
  exact h

end Membership

/-! ## Repeated constructs -/

theorem DerivesGroup.append {ks ls : List TokenKind} {as bs : List Attribute}
    (h : DerivesGroup ks as) (hl : DerivesGroup ls bs) : DerivesGroup (ks ++ ls) (as ++ bs) := by
  induction h with
  | nil => exact hl
  | cons hkey hvalue hsep _ ih =>
    have := DerivesGroup.cons hkey hvalue hsep ih
    simpa using this

theorem DerivesGroups.append {ks ls : List TokenKind} {as bs : List Attribute}
    (h : DerivesGroups ks as) (hl : DerivesGroups ls bs) :
    DerivesGroups (ks ++ ls) (as ++ bs) := by
  induction h with
  | nil => exact hl
  | cons hfirst _ ih =>
    have := DerivesGroups.cons hfirst ih
    simpa using this

theorem DerivesLater.append {room : Nat} {ks ls : List TokenKind} {es fs : List Endpoint}
    (h : DerivesLater room ks es) (hl : DerivesLater room ls fs) :
    DerivesLater room (ks ++ ls) (es ++ fs) :=
  match h with
  | .nil => hl
  | @DerivesLater.cons _ op _ _ _ _ he h => by
    have := @DerivesLater.cons _ op _ _ _ _ he (h.append hl)
    simpa using this

theorem DerivesBody.append {room : Nat} {ks ls : List TokenKind} {b c : List Stmt}
    (h : DerivesBody room ks b) (hl : DerivesBody room ls c) :
    DerivesBody room (ks ++ ls) (b ++ c) :=
  match h with
  | .nil => hl
  | .semicolon h => .semicolon (h.append hl)
  | .cons hs h => by
    have := DerivesBody.cons hs (h.append hl)
    simpa using this

theorem DerivesGraphs.append {room : Nat} {ks ls : List TokenKind} {gs hs : List Graph}
    (h : DerivesGraphs room ks gs) (hl : DerivesGraphs room ls hs) :
    DerivesGraphs room (ks ++ ls) (gs ++ hs) := by
  induction h with
  | one hg => exact .cons hg hl
  | cons hg _ ih =>
    have := DerivesGraphs.cons hg ih
    simpa using this

/-- In front of the end of input stand the graphs. -/
theorem derivesText_append_eof_iff {room : Nat} {kinds : List TokenKind} {gs : List Graph} :
    DerivesText room (kinds ++ [.eof]) gs ↔ DerivesGraphs room kinds gs := by
  refine ⟨fun h => ?_, .mk⟩
  generalize hall : kinds ++ [.eof] = all at h
  obtain ⟨hgs⟩ := h
  rwa [List.append_cancel_right hall]

/-! ## Beginnings -/

/-- What stands in front of the opening brace of a graph. -/
inductive DerivesHead : List TokenKind → GraphHead → Prop where
  | mk {ss is : List TokenKind} {strict : Bool} {word : TokenKind} {kind : GraphKind}
      {id : Option Id} :
      DerivesStrict ss strict → word.graphKind? = some kind → DerivesOptionalId is id →
      DerivesHead (ss ++ word :: is) ⟨kind, strict, id⟩

/-- What stands in front of the opening brace of a subgraph, which takes up one room. -/
inductive DerivesSubgraphHead : Nat → List TokenKind → Option Id → Prop where
  | bare {room : Nat} : DerivesSubgraphHead (room + 1) [] none
  | named {room : Nat} {is : List TokenKind} {id : Option Id} :
      DerivesOptionalId is id →
      DerivesSubgraphHead (room + 1) (.keyword .subgraph :: is) id

/-- The word in front of default attributes. -/
inductive DerivesTarget : List TokenKind → AttributeTarget → Prop where
  | mk {word : TokenKind} {target : AttributeTarget} :
      word.target? = some target → DerivesTarget [word] target

/-- Endpoints with an arrow between each two. -/
inductive DerivesChain : Nat → List TokenKind → List Endpoint → Prop where
  | mk {room : Nat} {ks ls : List TokenKind} {e : Endpoint} {later : List Endpoint} :
      DerivesEndpoint room ks e → DerivesLater room ls later →
      DerivesChain room (ks ++ ls) (e :: later)

/-- Groups of attributes, the last one without its closing bracket. -/
inductive DerivesOpenGroups : List TokenKind → List Attribute → Prop where
  | mk {ks ls : List TokenKind} {as bs : List Attribute} :
      DerivesGroups ks as → DerivesGroup ls bs →
      DerivesOpenGroups (ks ++ .symbol .openBracket :: ls) (as ++ bs)

/-- Groups of attributes up to an attribute, which may still be followed by a separator. -/
def DerivesPending (ks : List TokenKind) (as : List Attribute) : Prop :=
  ∀ sep, Separates sep → DerivesOpenGroups (ks ++ sep) as

/-- Any number of graphs. -/
inductive DerivesFirstGraphs : Nat → List TokenKind → List Graph → Prop where
  | none {room : Nat} : DerivesFirstGraphs room [] []
  | some {room : Nat} {ks : List TokenKind} {gs : List Graph} :
      DerivesGraphs room ks gs → DerivesFirstGraphs room ks gs

/-- An arrow, whichever it is. -/
def arrow : Language TokenKind := {ks | ∃ op, ks = [.edgeOp op]}

/-- The word `subgraph`, where there is room for a subgraph. -/
def subgraphWord (room : Nat) : Language TokenKind := {ks | ks = [.keyword .subgraph] ∧ 0 < room}

/-- At least two endpoints with an arrow between each two. -/
def paths (room : Nat) (es : List Endpoint) : Language TokenKind :=
  {ks | DerivesChain room ks es ∧ 2 ≤ es.length}

/-- At least one group of attributes. -/
def someGroups (as : List Attribute) : Language TokenKind := {ks | DerivesGroups ks as ∧ ks ≠ []}

/-! ## Parts that make up a construct -/

section Parts

variable {room : Nat}

theorem one_le_head {word : TokenKind} {kind : GraphKind} (h : word.graphKind? = some kind) :
    one word ≤ tokens DerivesHead ⟨kind, false, none⟩ := by
  rintro _ rfl
  exact DerivesHead.mk .absent h .absent

theorem strict_mul_one_le_head {word : TokenKind} {kind : GraphKind}
    (h : word.graphKind? = some kind) :
    one (.keyword .strict) * one word ≤ tokens DerivesHead ⟨kind, true, none⟩ := by
  rintro _ ⟨_, rfl, _, rfl, rfl⟩
  exact DerivesHead.mk .present h .absent

theorem head_mul_id_le {kind : GraphKind} {strict : Bool} {i : Id} :
    tokens DerivesHead ⟨kind, strict, none⟩ * tokens DerivesId i ≤
      tokens DerivesHead ⟨kind, strict, some i⟩ := by
  refine le_tokens ?_
  rintro _ ⟨_, ⟨hstrict, hword, hnone⟩, is, hi, rfl⟩
  cases hnone
  have := DerivesHead.mk hstrict hword (.present hi)
  simpa using this

theorem head_mul_body_le {head : GraphHead} {body : List Stmt} :
    tokens DerivesHead head * one (.symbol .openBrace) *
        (tokens (DerivesBody room) body * one (.symbol .closeBrace)) ≤
      tokens (DerivesGraph room) ⟨head, body⟩ := by
  refine le_tokens ?_
  rintro _ ⟨_, ⟨_, ⟨hstrict, hword, hid⟩, _, rfl, rfl⟩, _, ⟨ks, hbody, _, rfl, rfl⟩, rfl⟩
  have := DerivesGraph.mk hstrict hword hid hbody
  simpa using this

theorem firstGraphs_mul_graph_le {gs : List Graph} {g : Graph} :
    tokens (DerivesFirstGraphs room) gs * tokens (DerivesGraph room) g ≤
      tokens (DerivesGraphs room) (gs ++ [g]) := by
  rintro _ ⟨_, hgs | hgs, ks, hg, rfl⟩
  · exact .one hg
  · exact hgs.append (.one hg)

theorem one_le_target {word : TokenKind} {t : AttributeTarget} (h : word.target? = some t) :
    one word ≤ tokens DerivesTarget t := by
  rintro _ rfl
  exact DerivesTarget.mk h

theorem graphs_le_firstGraphs {gs : List Graph} :
    tokens (DerivesGraphs room) gs ≤ tokens (DerivesFirstGraphs room) gs :=
  fun _ h => .some h

theorem body_mul_stmt_le {body : List Stmt} {s : Stmt} :
    tokens (DerivesBody room) body * tokens (DerivesStmt room) s ≤
      tokens (DerivesBody room) (body ++ [s]) := by
  refine le_tokens ?_
  rintro _ ⟨ks, hbody, ls, hs, rfl⟩
  have := hbody.append (.cons hs .nil)
  simpa using this

theorem body_mul_semicolon_le {body : List Stmt} :
    tokens (DerivesBody room) body * one (.symbol .semicolon) ≤ tokens (DerivesBody room) body := by
  refine le_tokens ?_
  rintro _ ⟨ks, hbody, _, rfl, rfl⟩
  have := hbody.append (.semicolon .nil)
  simpa using this

theorem assignment_le {key value : Id} :
    tokens DerivesId key * one (.symbol .equal) * tokens DerivesId value ≤
      tokens (DerivesStmt room) (.assignment ⟨key, value⟩) := by
  refine le_tokens ?_
  rintro _ ⟨_, ⟨ks, hkey, _, rfl, rfl⟩, ls, hvalue, rfl⟩
  have : DerivesStmt room _ _ := .assignment hkey hvalue
  simpa using this

theorem node_mul_groups_le {n : NodeId} {as : List Attribute} :
    tokens DerivesNode n * tokens DerivesGroups as ≤
      tokens (DerivesStmt room) (.node ⟨n, as⟩) := by
  rintro _ ⟨ks, hn, ls, has, rfl⟩
  exact DerivesStmt.node hn has

theorem target_mul_someGroups_le {t : AttributeTarget} {as : List Attribute} :
    tokens DerivesTarget t * someGroups as ≤ tokens (DerivesStmt room) (.attributes ⟨t, as⟩) := by
  rintro _ ⟨_, ⟨hword⟩, ls, ⟨has, hne⟩, rfl⟩
  exact DerivesStmt.attributes hword has hne

theorem subgraph_le_stmt {g : Subgraph} :
    tokens (DerivesSubgraph room) g ≤ tokens (DerivesStmt room) (.subgraph g) :=
  fun _ h => .subgraph h

theorem path_mul_groups_le {es : List Endpoint} {as : List Attribute} :
    paths room es * tokens DerivesGroups as ≤ tokens (DerivesStmt room) (.edge ⟨es, as⟩) := by
  rintro _ ⟨_, ⟨⟨he, hlater⟩, hlen⟩, ls, has, rfl⟩
  refine DerivesStmt.edge he hlater ?_ has
  rintro rfl
  simp at hlen

/-! ### Endpoints -/

theorem node_le_endpoint {n : NodeId} :
    tokens DerivesNode n ≤ tokens (DerivesEndpoint room) (.node n) :=
  fun _ h => .node h

theorem subgraph_le_endpoint {g : Subgraph} :
    tokens (DerivesSubgraph room) g ≤ tokens (DerivesEndpoint room) (.subgraph g) :=
  fun _ h => .subgraph h

theorem endpoint_le_chain {e : Endpoint} :
    tokens (DerivesEndpoint room) e ≤ tokens (DerivesChain room) [e] := by
  refine le_tokens fun ks he => ?_
  have := DerivesChain.mk he .nil
  simpa using this

theorem chain_mul_endpoint_le {es : List Endpoint} {e : Endpoint} :
    tokens (DerivesChain room) es * arrow * tokens (DerivesEndpoint room) e ≤
      paths room (es ++ [e]) := by
  rintro _ ⟨_, ⟨_, ⟨hfirst, hlater⟩, _, ⟨op, rfl⟩, rfl⟩, ks, he, rfl⟩
  have hnext : DerivesLater room (.edgeOp op :: ks) [e] := by
    have := @DerivesLater.cons room op _ _ _ _ he .nil
    simpa using this
  have := DerivesChain.mk hfirst (hlater.append hnext)
  refine ⟨by simpa using this, by simp⟩

theorem path_le_chain {es : List Endpoint} : paths room es ≤ tokens (DerivesChain room) es :=
  fun _ h => h.1

theorem one_le_arrow {kind : TokenKind} (h : kind.isArrow) : one kind ≤ arrow := by
  rintro _ rfl
  cases kind <;> simp [TokenKind.isArrow] at h
  exact ⟨_, rfl⟩

/-! ### Subgraphs -/

theorem one_le_subgraphHead (h : 0 < room) : 1 ≤ tokens (DerivesSubgraphHead room) none := by
  rintro _ rfl
  obtain ⟨n, rfl⟩ := Nat.exists_eq_succ_of_ne_zero (Nat.ne_of_gt h)
  exact DerivesSubgraphHead.bare

theorem one_le_subgraphWord (h : 0 < room) : one (.keyword .subgraph) ≤ subgraphWord room := by
  rintro _ rfl
  exact ⟨rfl, h⟩

theorem subgraphWord_mul_optionalId_le {i : Option Id} :
    subgraphWord room * tokens DerivesOptionalId i ≤ tokens (DerivesSubgraphHead room) i := by
  rintro _ ⟨_, ⟨rfl, h⟩, is, hi, rfl⟩
  obtain ⟨n, rfl⟩ := Nat.exists_eq_succ_of_ne_zero (Nat.ne_of_gt h)
  exact DerivesSubgraphHead.named hi

theorem subgraphHead_mul_body_le {i : Option Id} {body : List Stmt} :
    tokens (DerivesSubgraphHead room) i * one (.symbol .openBrace) *
        (tokens (DerivesBody (room - 1)) body * one (.symbol .closeBrace)) ≤
      tokens (DerivesSubgraph room) ⟨i, body⟩ := by
  refine le_tokens ?_
  rintro _ ⟨_, ⟨_, hhead, _, rfl, rfl⟩, _, ⟨ks, hbody, _, rfl, rfl⟩, rfl⟩
  cases hhead with
  | bare =>
    have := DerivesSubgraph.bare hbody
    simpa using this
  | named hi =>
    have := DerivesSubgraph.named hi hbody
    simpa using this

/-! ### Ids, nodes and attributes -/

theorem id_le_optionalId {i : Id} : tokens DerivesId i ≤ tokens DerivesOptionalId (some i) :=
  fun _ h => .present h

theorem id_le_node {i : Id} : tokens DerivesId i ≤ tokens DerivesNode ⟨i, none⟩ :=
  fun _ h => .id h

theorem port_le_node {i p : Id} :
    tokens DerivesId i * one (.symbol .colon) * tokens DerivesId p ≤
      tokens DerivesNode ⟨i, some ⟨p, none⟩⟩ := by
  refine le_tokens ?_
  rintro _ ⟨_, ⟨ks, hi, _, rfl, rfl⟩, ls, hp, rfl⟩
  have := DerivesNode.port hi hp
  simpa using this

theorem compass_le_node {i p c : Id} :
    tokens DerivesId i * one (.symbol .colon) * tokens DerivesId p * one (.symbol .colon) *
        tokens DerivesId c ≤ tokens DerivesNode ⟨i, some ⟨p, some c⟩⟩ := by
  refine le_tokens ?_
  rintro _ ⟨_, ⟨_, ⟨_, ⟨ks, hi, _, rfl, rfl⟩, ls, hp, rfl⟩, _, rfl, rfl⟩, ms, hc, rfl⟩
  have := DerivesNode.compass hi hp hc
  simpa using this

theorem string_mul_string_le {s t : String} :
    tokens DerivesString s * one (.symbol .plus) * one (.string t) ≤
      tokens DerivesString (s ++ t) := by
  refine le_tokens ?_
  rintro _ ⟨_, ⟨ks, hs, _, rfl, rfl⟩, _, rfl, rfl⟩
  have := DerivesString.more t hs
  simpa using this

theorem string_le_id {s : String} : tokens DerivesString s ≤ tokens DerivesId (.name s) :=
  fun _ h => .string h

theorem one_le_openGroups : one (.symbol .openBracket) ≤ tokens DerivesOpenGroups [] := by
  rintro _ rfl
  exact DerivesOpenGroups.mk .nil .nil

theorem groups_mul_openBracket_le {as : List Attribute} :
    tokens DerivesGroups as * one (.symbol .openBracket) ≤ tokens DerivesOpenGroups as := by
  refine le_tokens ?_
  rintro _ ⟨ks, has, _, rfl, rfl⟩
  have := DerivesOpenGroups.mk has .nil
  simpa using this

theorem openGroups_mul_closeBracket_le {as : List Attribute} :
    tokens DerivesOpenGroups as * one (.symbol .closeBracket) ≤ someGroups as := by
  rintro _ ⟨_, ⟨hbefore, hlast⟩, _, rfl, rfl⟩
  have := hbefore.append (.cons hlast .nil)
  exact ⟨by simpa using this, by simp⟩

theorem openGroups_mul_attribute_le {as : List Attribute} {key value : Id} :
    tokens DerivesOpenGroups as * tokens DerivesId key * one (.symbol .equal) *
        tokens DerivesId value ≤ tokens DerivesPending (as ++ [⟨key, value⟩]) := by
  refine le_tokens ?_
  rintro _ ⟨_, ⟨_, ⟨_, ⟨hbefore, hlast⟩, ks, hkey, rfl⟩, _, rfl, rfl⟩, ls, hvalue, rfl⟩ sep hsep
  have := DerivesOpenGroups.mk hbefore (hlast.append (.cons hkey hvalue hsep .nil))
  simpa using this

theorem pending_le_openGroups {as : List Attribute} :
    tokens DerivesPending as ≤ tokens DerivesOpenGroups as := by
  refine le_tokens fun ks h => ?_
  have := h [] .nothing
  simpa using this

theorem pending_mul_separator_le {as : List Attribute} {kind : TokenKind}
    (h : Separates [kind]) : tokens DerivesPending as * one kind ≤ tokens DerivesOpenGroups as := by
  rintro _ ⟨ks, has, _, rfl, rfl⟩
  exact has _ h

end Parts

end DotLang.Grammar
