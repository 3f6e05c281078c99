import DotLang.Proofs.Feed
import DotLang.Proofs.Languages

/-!
# What is read is derived

The invariant of a parse says which tokens can have been read when it is in a state. `Slot.before`
is the language of the tokens in front of the construct that goes into a slot, and `State.before`
the language of the tokens in front of a state. One step multiplies the language by the token that
is taken; so what is read when the goal is finished is derived from the grammar.

* `State.Shifts.before_mul_one_le`, `State.Passes.before_le`: the invariant is kept by one move.
* `State.mem_before_of_feed`: the invariant is kept by any number of tokens.
* `State.mem_language_of_feed`: what is read as the goal is derived as the goal.
-/

namespace DotLang.Parser

open Grammar

/-- The tokens of a construct with a given value, with room for `room` subgraphs inside each
other. The body of a graph ends with its closing brace. -/
def Construct.language (room : Nat) : (c : Construct) → c.Value → Language TokenKind
  | .id, i => tokens DerivesId i
  | .nodeId, n => tokens DerivesNode n
  | .attributes, as => tokens DerivesGroups as
  | .edge, e => tokens (DerivesStmt room) (.edge e)
  | .stmt, s => tokens (DerivesStmt room) s
  | .body, b => tokens (DerivesBody room) b * one (.symbol .closeBrace)
  | .subgraph, g => tokens (DerivesSubgraph room) g
  | .graph, g => tokens (DerivesGraph room) g
  | .graphs, gs => tokens (DerivesGraphs room) gs

namespace Slot

variable {goal c : Construct} {maxDepth : Nat}

/-- How many subgraphs may still be opened inside each other in a slot. -/
def room (maxDepth : Nat) (slot : Slot goal c) : Nat := maxDepth - slot.depth

/-- The tokens of a construct that goes into a slot: a word for default attributes demands a
group. -/
def language (maxDepth : Nat) : {c : Construct} → Slot goal c → c.Value → Language TokenKind
  | _, targetAttributes _ _, as => someGroups as
  | c, slot, value => c.language (slot.room maxDepth) value

/-- The tokens in front of the construct that goes into a slot. -/
def before (maxDepth : Nat) {c : Construct} : Slot goal c → Language TokenKind
  | top => 1
  | nextGraph gs slot =>
    slot.before maxDepth * tokens (DerivesFirstGraphs (slot.room maxDepth)) gs.reverse
  | graphName kind strict slot =>
    slot.before maxDepth * tokens DerivesHead ⟨kind, strict, none⟩
  | graphBody head slot =>
    slot.before maxDepth * (tokens DerivesHead head * one (.symbol .openBrace))
  | nextStmt body slot =>
    slot.before maxDepth * tokens (DerivesBody (slot.room maxDepth)) body.reverse
  | firstId slot => slot.before maxDepth
  | assigned key slot => slot.before maxDepth * (tokens DerivesId key * one (.symbol .equal))
  | firstNode slot => slot.before maxDepth
  | nodeAttributes node slot => slot.before maxDepth * tokens DerivesNode node
  | targetAttributes target slot => slot.before maxDepth * tokens DerivesTarget target
  | firstSubgraph slot => slot.before maxDepth
  | edgeStmt slot => slot.before maxDepth
  | nextId es slot =>
    slot.before maxDepth * (tokens (DerivesChain (slot.room maxDepth)) es.reverse * arrow)
  | nextNode es slot =>
    slot.before maxDepth * (tokens (DerivesChain (slot.room maxDepth)) es.reverse * arrow)
  | nextSubgraph es slot =>
    slot.before maxDepth * (tokens (DerivesChain (slot.room maxDepth)) es.reverse * arrow)
  | edgeAttributes es slot => slot.before maxDepth * paths (slot.room maxDepth) es.reverse
  | subgraphName slot => slot.before maxDepth * subgraphWord (slot.room maxDepth)
  | subgraphBody i slot =>
    slot.before maxDepth *
      (tokens (DerivesSubgraphHead (slot.room maxDepth)) i * one (.symbol .openBrace))
  | port i slot => slot.before maxDepth * (tokens DerivesId i * one (.symbol .colon))
  | compass i p slot =>
    slot.before maxDepth *
      (tokens DerivesId i * one (.symbol .colon) * tokens DerivesId p * one (.symbol .colon))
  | attributeKey as slot => slot.before maxDepth * tokens DerivesOpenGroups as.reverse
  | attributeValue as key slot =>
    slot.before maxDepth *
      (tokens DerivesOpenGroups as.reverse * tokens DerivesId key * one (.symbol .equal))

theorem language_eq (hc : c ≠ .attributes) (slot : Slot goal c) (value : c.Value) :
    slot.language maxDepth value = c.language (slot.room maxDepth) value := by
  cases slot <;> first | rfl | exact absurd rfl hc

theorem language_le_groups (slot : Slot goal .attributes) (as : List Attribute) :
    slot.language maxDepth as ≤ tokens DerivesGroups as := by
  cases slot with
  | targetAttributes target slot => exact fun _ h => h.1
  | _ => exact le_refl _

theorem someGroups_le_language (slot : Slot goal .attributes) (as : List Attribute) :
    someGroups as ≤ slot.language maxDepth as := by
  cases slot with
  | targetAttributes target slot => exact le_refl _
  | _ => exact fun _ h => h.1

end Slot

namespace State

variable {goal : Construct} {maxDepth : Nat}

/-- The tokens in front of a state. -/
def before (maxDepth : Nat) : State goal → Language TokenKind
  | done value => goal.language maxDepth value
  | moreGraphs gs slot =>
    slot.before maxDepth * tokens (DerivesGraphs (slot.room maxDepth)) gs.reverse
  | graph slot => slot.before maxDepth
  | strictGraph slot => slot.before maxDepth * one (.keyword .strict)
  | graphName kind strict slot => slot.before maxDepth * tokens DerivesHead ⟨kind, strict, none⟩
  | openGraph head slot => slot.before maxDepth * tokens DerivesHead head
  | body b slot => slot.before maxDepth * tokens (DerivesBody (slot.room maxDepth)) b.reverse
  | stmt slot => slot.before maxDepth
  | target t slot => slot.before maxDepth * tokens DerivesTarget t
  | afterId i slot => slot.before maxDepth * tokens DerivesId i
  | afterNode node slot => slot.before maxDepth * tokens DerivesNode node
  | afterSubgraph g slot =>
    slot.before maxDepth * tokens (DerivesSubgraph (slot.room maxDepth)) g
  | edge es slot => slot.before maxDepth * paths (slot.room maxDepth) es.reverse
  | endpoint es slot =>
    slot.before maxDepth * (tokens (DerivesChain (slot.room maxDepth)) es.reverse * arrow)
  | subgraph slot => slot.before maxDepth
  | subgraphName slot => slot.before maxDepth * subgraphWord (slot.room maxDepth)
  | openSubgraph i slot =>
    slot.before maxDepth * tokens (DerivesSubgraphHead (slot.room maxDepth)) i
  | nodeId i slot => slot.before maxDepth * tokens DerivesId i
  | afterPort i p slot =>
    slot.before maxDepth * (tokens DerivesId i * one (.symbol .colon) * tokens DerivesId p)
  | attributes as slot => slot.before maxDepth * slot.language maxDepth as.reverse
  | group as slot => slot.before maxDepth * tokens DerivesOpenGroups as.reverse
  | equals as key slot =>
    slot.before maxDepth * (tokens DerivesOpenGroups as.reverse * tokens DerivesId key)
  | separator as slot => slot.before maxDepth * tokens DerivesPending as.reverse
  | id slot => slot.before maxDepth
  | string value slot => slot.before maxDepth * tokens DerivesString value
  | plus value slot =>
    slot.before maxDepth * (tokens DerivesString value * one (.symbol .plus))

/-! ## Putting a construct into its slot -/

/-- What stands behind `L` makes up what stands behind a longer beginning. -/
theorem mul_assoc_le {L M N K : Language TokenKind} (h : M * N ≤ K) : L * M * N ≤ L * K := by
  rw [mul_assoc]
  exact mul_le_mul' (le_refl L) h

theorem before_mul_language_le {c : Construct} (slot : Slot goal c) (value : c.Value) :
    slot.before maxDepth * slot.language maxDepth value ≤ (slot.fill value).before maxDepth := by
  induction slot with
  | top => exact (one_mul (goal.language maxDepth value)).le
  | nextGraph gs slot ih =>
    rw [Slot.fill, before, List.reverse_cons]
    exact mul_assoc_le firstGraphs_mul_graph_le
  | graphName kind strict slot ih => exact mul_assoc_le head_mul_id_le
  | graphBody head slot ih =>
    have hfill := ih ⟨head, value⟩
    rw [Slot.language_eq (by decide)] at hfill
    exact le_trans (mul_assoc_le head_mul_body_le) hfill
  | nextStmt body slot ih =>
    rw [Slot.fill, before, List.reverse_cons]
    exact mul_assoc_le body_mul_stmt_le
  | firstId slot ih => exact le_refl _
  | assigned key slot ih =>
    have hfill := ih (.assignment ⟨key, value⟩)
    rw [Slot.language_eq (by decide)] at hfill
    exact le_trans (mul_assoc_le assignment_le) hfill
  | firstNode slot ih => exact le_refl _
  | nodeAttributes node slot ih =>
    have hfill := ih (.node ⟨node, value⟩)
    rw [Slot.language_eq (by decide)] at hfill
    exact le_trans (mul_assoc_le node_mul_groups_le) hfill
  | targetAttributes target slot ih =>
    have hfill := ih (.attributes ⟨target, value⟩)
    rw [Slot.language_eq (by decide)] at hfill
    exact le_trans (mul_assoc_le target_mul_someGroups_le) hfill
  | firstSubgraph slot ih => exact le_refl _
  | edgeStmt slot ih =>
    have hfill := ih (.edge value)
    rw [Slot.language_eq (by decide)] at hfill
    exact hfill
  | nextId es slot ih => exact le_refl _
  | nextNode es slot ih =>
    rw [Slot.fill, before, List.reverse_cons]
    exact mul_assoc_le (le_trans (mul_le_mul' (le_refl _) node_le_endpoint) chain_mul_endpoint_le)
  | nextSubgraph es slot ih =>
    rw [Slot.fill, before, List.reverse_cons]
    exact mul_assoc_le
      (le_trans (mul_le_mul' (le_refl _) subgraph_le_endpoint) chain_mul_endpoint_le)
  | edgeAttributes es slot ih =>
    have hfill := ih ⟨es.reverse, value⟩
    rw [Slot.language_eq (by decide)] at hfill
    exact le_trans (mul_assoc_le path_mul_groups_le) hfill
  | subgraphName slot ih =>
    exact mul_assoc_le
      (le_trans (mul_le_mul' (le_refl _) id_le_optionalId) subgraphWord_mul_optionalId_le)
  | subgraphBody i slot ih =>
    have hfill := ih ⟨i, value⟩
    rw [Slot.language_eq (by decide)] at hfill
    exact le_trans (mul_assoc_le subgraphHead_mul_body_le) hfill
  | port i slot ih => exact mul_assoc_le (le_refl _)
  | compass i p slot ih =>
    have hfill := ih ⟨i, some ⟨p, some value⟩⟩
    rw [Slot.language_eq (by decide)] at hfill
    exact le_trans (mul_assoc_le compass_le_node) hfill
  | attributeKey as slot ih => exact mul_assoc_le (le_refl _)
  | attributeValue as key slot ih =>
    rw [Slot.fill, before, List.reverse_cons]
    exact mul_assoc_le openGroups_mul_attribute_le

theorem before_mul_le_fill {c : Construct} {slot : Slot goal c} {value : c.Value}
    {L : Language TokenKind} (hc : c ≠ .attributes)
    (h : L ≤ c.language (slot.room maxDepth) value) :
    slot.before maxDepth * L ≤ (slot.fill value).before maxDepth := by
  refine le_trans (mul_le_mul' (le_refl _) ?_) (before_mul_language_le slot value)
  rw [Slot.language_eq hc]
  exact h

/-! ## One step -/

theorem le_mul_tokens {α : Type} {R : List TokenKind → α → Prop} {a : α}
    (L : Language TokenKind) (h : R [] a) : L ≤ L * tokens R a := by
  intro ks hks
  have := Language.append_mem_mul hks (mem_tokens.2 h)
  rwa [List.append_nil] at this

theorem room_pos {slot : Slot goal .subgraph} (h : ¬ maxDepth ≤ slot.depth) :
    0 < slot.room maxDepth := Nat.sub_pos_of_lt (Nat.lt_of_not_le h)

/-- A token that is taken stands behind what is read before it. -/
theorem Shifts.before_mul_one_le {s s' : State goal} {kind : TokenKind}
    (h : Shifts maxDepth s kind s') : s.before maxDepth * one kind ≤ s'.before maxDepth := by
  cases h with
  | strict => exact le_refl _
  | graphWord hk => exact mul_le_mul' (le_refl _) (one_le_head hk)
  | strictGraphWord hk => exact mul_assoc_le (strict_mul_one_le_head hk)
  | openGraph => exact le_trans (mul_assoc_le (le_refl _)) (le_mul_tokens _ .nil)
  | semicolon => exact mul_assoc_le body_mul_semicolon_le
  | @closeBody body slot =>
    rw [before, mul_assoc]
    exact before_mul_le_fill (by decide) (le_refl _)
  | target ht => exact mul_le_mul' (le_refl _) (one_le_target ht)
  | openTarget => exact mul_le_mul' (le_refl _) (one_le_openGroups)
  | assign => exact mul_assoc_le (le_refl _)
  | nodeArrow h =>
    exact mul_assoc_le (mul_le_mul' (le_trans node_le_endpoint endpoint_le_chain) (one_le_arrow h))
  | subgraphArrow h =>
    exact mul_assoc_le
      (mul_le_mul' (le_trans subgraph_le_endpoint endpoint_le_chain) (one_le_arrow h))
  | arrow h => exact mul_assoc_le (mul_le_mul' path_le_chain (one_le_arrow h))
  | subgraphWord h => exact mul_le_mul' (le_refl _) (one_le_subgraphWord (room_pos h))
  | openSubgraph => exact le_trans (mul_assoc_le (le_refl _)) (le_mul_tokens _ .nil)
  | port => exact mul_assoc_le (le_refl _)
  | compass => exact mul_assoc_le (le_refl _)
  | @openGroup as slot =>
    exact mul_assoc_le (le_trans (mul_le_mul' (slot.language_le_groups _) (le_refl _))
      groups_mul_openBracket_le)
  | @closeGroup as slot =>
    exact mul_assoc_le (le_trans openGroups_mul_closeBracket_le (slot.someGroups_le_language _))
  | equal => exact mul_assoc_le (le_refl _)
  | separate h => exact mul_assoc_le (pending_mul_separator_le h)
  | identifier => exact before_mul_le_fill (by decide) (one_le_tokens (.identifier _))
  | number => exact before_mul_le_fill (by decide) (one_le_tokens (.number _))
  | html => exact before_mul_le_fill (by decide) (one_le_tokens (.html _))
  | firstString => exact mul_le_mul' (le_refl _) (one_le_tokens (.one _))
  | plus => exact mul_assoc_le (le_refl _)
  | nextString => exact mul_assoc_le string_mul_string_le

/-- Moving on keeps what is read. -/
theorem Passes.before_le {s s' : State goal} {kind : TokenKind}
    (h : Passes maxDepth s kind s') : s.before maxDepth ≤ s'.before maxDepth := by
  cases h with
  | lastGraph => exact before_mul_le_fill (by decide) (le_refl _)
  | nextGraph h => exact mul_le_mul' (le_refl _) graphs_le_firstGraphs
  | graphId h => exact le_refl _
  | noGraphId h => exact le_refl _
  | nextStmt hsemi hclose heof => exact le_refl _
  | firstSubgraph h => exact le_refl _
  | firstId h => exact le_refl _
  | firstNode h => exact le_refl _
  | nodeAttributes h => exact le_mul_tokens _ .nil
  | subgraphStmt h => exact before_mul_le_fill (by decide) subgraph_le_stmt
  | edgeAttributes h => exact le_mul_tokens _ .nil
  | nextSubgraph h => exact le_refl _
  | nextId h => exact le_refl _
  | bareSubgraph hdepth hne =>
    exact le_trans (mul_one _).ge (mul_le_mul' (le_refl _) (one_le_subgraphHead (room_pos hdepth)))
  | subgraphId h => exact le_refl _
  | noSubgraphId h =>
    refine mul_le_mul' (le_refl _) (le_trans (le_mul_tokens _ DerivesOptionalId.absent) ?_)
    exact subgraphWord_mul_optionalId_le
  | noPort h => exact before_mul_le_fill (by decide) id_le_node
  | noCompass h => exact before_mul_le_fill (by decide) port_le_node
  | lastGroup h => exact before_mul_language_le _ _
  | attributeKey h => exact le_refl _
  | noSeparator h => exact mul_le_mul' (le_refl _) pending_le_openGroups
  | lastString h => exact before_mul_le_fill (by decide) string_le_id

/-! ## Several tokens -/

/-- In front of the first graph nothing is read. -/
theorem nil_mem_before_start :
    [] ∈ (graph (.nextGraph [] .top) : State .graphs).before maxDepth :=
  Language.append_mem_mul ((Language.mem_one []).2 rfl) DerivesFirstGraphs.none

/-- Tokens that are taken stand behind what is read before them. -/
theorem mem_before_of_feed {s s' : State goal} {kinds done : List TokenKind}
    (h : s.feed maxDepth kinds = .waiting s') (hdone : done ∈ s.before maxDepth) :
    done ++ kinds ∈ s'.before maxDepth := by
  fun_induction feed maxDepth s kinds generalizing done with
  | case1 s =>
    obtain rfl := Outcome.waiting.inj h
    rwa [List.append_nil]
  | case2 s kind kinds next hstep ih =>
    have hnext := (Shifts.of_step hstep).before_mul_one_le (Language.append_mem_mul hdone rfl)
    have := ih h hnext
    rwa [List.append_assoc] at this
  | case3 s kind kinds next hstep ih => exact ih h ((Passes.of_step hstep).before_le hdone)
  | case4 s kind kinds value hstep => cases h
  | case5 s kind kinds expected hstep => cases h

/-- The tokens up to where the goal is read are derived as the goal. -/
theorem mem_language_of_feed {s : State goal} {kinds done left : List TokenKind}
    {value : goal.Value} (h : s.feed maxDepth kinds = .finished value left)
    (hdone : done ∈ s.before maxDepth) :
    ∃ taken, kinds = taken ++ left ∧ done ++ taken ∈ goal.language maxDepth value := by
  fun_induction feed maxDepth s kinds generalizing done with
  | case1 s => cases h
  | case2 s kind kinds next hstep ih =>
    have hnext := (Shifts.of_step hstep).before_mul_one_le (Language.append_mem_mul hdone rfl)
    obtain ⟨taken, rfl, htaken⟩ := ih h hnext
    exact ⟨kind :: taken, rfl, by rwa [List.append_assoc] at htaken⟩
  | case3 s kind kinds next hstep ih => exact ih h ((Passes.of_step hstep).before_le hdone)
  | case4 s kind kinds value hstep =>
    obtain ⟨rfl, rfl⟩ := Outcome.finished.inj h
    obtain rfl := eq_done_of_finish hstep
    exact ⟨[], rfl, by rwa [List.append_nil]⟩
  | case5 s kind kinds expected hstep => cases h

end State

end DotLang.Parser
