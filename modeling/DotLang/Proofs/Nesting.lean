import DotLang.Grammar

/-!
# How deep subgraphs are nested

`Graph.nesting` is the greatest number of subgraphs of a graph that are inside each other. A graph
can be derived with any room that holds its subgraphs, and with no other.

* `DerivesGraphs.nesting_le`: a derivation finds room for all subgraphs.
* `DerivesGraphs.of_nesting_le`: any room that holds them will do.
-/

namespace DotLang

mutual

/-- How many subgraphs of a statement are inside each other, at most. -/
def Stmt.nesting : Stmt → Nat
  | .edge e => e.nesting
  | .subgraph g => g.nesting
  | _ => 0

def EdgeStmt.nesting : EdgeStmt → Nat
  | ⟨endpoints, _⟩ => endpointsNesting endpoints

def Endpoint.nesting : Endpoint → Nat
  | .node _ => 0
  | .subgraph g => g.nesting

def Subgraph.nesting : Subgraph → Nat
  | ⟨_, body⟩ => bodyNesting body + 1

def endpointsNesting : List Endpoint → Nat
  | [] => 0
  | e :: rest => max e.nesting (endpointsNesting rest)

def bodyNesting : List Stmt → Nat
  | [] => 0
  | s :: rest => max s.nesting (bodyNesting rest)

end

/-- How many subgraphs of a graph are inside each other, at most. -/
def Graph.nesting (g : Graph) : Nat := bodyNesting g.body

namespace Grammar

variable {room room' : Nat} {ks : List TokenKind}

/-! ## There is room for all subgraphs -/

mutual

theorem DerivesStmt.nesting_le {room : Nat} {ks : List TokenKind} {s : Stmt}
    (h : DerivesStmt room ks s) : s.nesting ≤ room :=
  match h with
  | .node _ _ => Nat.zero_le _
  | .edge he hl _ _ => by
    rw [Stmt.nesting, EdgeStmt.nesting, endpointsNesting]
    exact Nat.max_le.2 ⟨he.nesting_le, hl.nesting_le⟩
  | .attributes _ _ _ => Nat.zero_le _
  | .assignment _ _ => Nat.zero_le _
  | .subgraph hg => by
    rw [Stmt.nesting]
    exact hg.nesting_le

theorem DerivesEndpoint.nesting_le {room : Nat} {ks : List TokenKind} {e : Endpoint}
    (h : DerivesEndpoint room ks e) : e.nesting ≤ room :=
  match h with
  | .node _ => Nat.zero_le _
  | .subgraph hg => by
    rw [Endpoint.nesting]
    exact hg.nesting_le

theorem DerivesLater.nesting_le {room : Nat} {ks : List TokenKind} {es : List Endpoint}
    (h : DerivesLater room ks es) : endpointsNesting es ≤ room :=
  match h with
  | .nil => Nat.zero_le _
  | .cons he hl => by
    rw [endpointsNesting]
    exact Nat.max_le.2 ⟨he.nesting_le, hl.nesting_le⟩

theorem DerivesSubgraph.nesting_le {room : Nat} {ks : List TokenKind} {g : Subgraph}
    (h : DerivesSubgraph room ks g) : g.nesting ≤ room :=
  match h with
  | .bare hb => by
    rw [Subgraph.nesting]
    exact Nat.succ_le_succ hb.nesting_le
  | .named _ hb => by
    rw [Subgraph.nesting]
    exact Nat.succ_le_succ hb.nesting_le

theorem DerivesBody.nesting_le {room : Nat} {ks : List TokenKind} {b : List Stmt}
    (h : DerivesBody room ks b) : bodyNesting b ≤ room :=
  match h with
  | .nil => Nat.zero_le _
  | .semicolon hb => hb.nesting_le
  | .cons hs hb => by
    rw [bodyNesting]
    exact Nat.max_le.2 ⟨hs.nesting_le, hb.nesting_le⟩

end

theorem DerivesGraph.nesting_le {g : Graph} (h : DerivesGraph room ks g) : g.nesting ≤ room := by
  obtain ⟨_, _, _, hb⟩ := h
  exact hb.nesting_le

/-- A derivation finds room for all subgraphs. -/
theorem DerivesGraphs.nesting_le {gs : List Graph} (h : DerivesGraphs room ks gs) :
    ∀ g ∈ gs, g.nesting ≤ room := by
  induction h with
  | one hg =>
    rw [List.forall_mem_singleton]
    exact hg.nesting_le
  | cons hg _ ih =>
    rw [List.forall_mem_cons]
    exact ⟨hg.nesting_le, ih⟩

/-! ## Any room that holds them will do -/

mutual

theorem DerivesStmt.of_nesting_le {room room' : Nat} {ks : List TokenKind} {s : Stmt}
    (h : DerivesStmt room ks s) (hroom : s.nesting ≤ room') : DerivesStmt room' ks s :=
  match h with
  | .node hn has => .node hn has
  | .edge he hl hne has => by
    rw [Stmt.nesting, EdgeStmt.nesting, endpointsNesting, Nat.max_le] at hroom
    exact .edge (he.of_nesting_le hroom.1) (hl.of_nesting_le hroom.2) hne has
  | .attributes ht has hne => .attributes ht has hne
  | .assignment hkey hvalue => .assignment hkey hvalue
  | .subgraph hg => by
    rw [Stmt.nesting] at hroom
    exact .subgraph (hg.of_nesting_le hroom)

theorem DerivesEndpoint.of_nesting_le {room room' : Nat} {ks : List TokenKind} {e : Endpoint}
    (h : DerivesEndpoint room ks e) (hroom : e.nesting ≤ room') : DerivesEndpoint room' ks e :=
  match h with
  | .node hn => .node hn
  | .subgraph hg => by
    rw [Endpoint.nesting] at hroom
    exact .subgraph (hg.of_nesting_le hroom)

theorem DerivesLater.of_nesting_le {room room' : Nat} {ks : List TokenKind} {es : List Endpoint}
    (h : DerivesLater room ks es) (hroom : endpointsNesting es ≤ room') :
    DerivesLater room' ks es :=
  match h with
  | .nil => .nil
  | .cons he hl => by
    rw [endpointsNesting, Nat.max_le] at hroom
    exact .cons (he.of_nesting_le hroom.1) (hl.of_nesting_le hroom.2)

theorem DerivesSubgraph.of_nesting_le {room room' : Nat} {ks : List TokenKind} {g : Subgraph}
    (h : DerivesSubgraph room ks g) (hroom : g.nesting ≤ room') : DerivesSubgraph room' ks g :=
  match h with
  | .bare hb => by
    rw [Subgraph.nesting] at hroom
    obtain ⟨n, rfl⟩ := Nat.exists_eq_add_of_le' (Nat.le_of_add_left_le hroom)
    exact .bare (hb.of_nesting_le (Nat.le_of_succ_le_succ hroom))
  | .named hi hb => by
    rw [Subgraph.nesting] at hroom
    obtain ⟨n, rfl⟩ := Nat.exists_eq_add_of_le' (Nat.le_of_add_left_le hroom)
    exact .named hi (hb.of_nesting_le (Nat.le_of_succ_le_succ hroom))

theorem DerivesBody.of_nesting_le {room room' : Nat} {ks : List TokenKind} {b : List Stmt}
    (h : DerivesBody room ks b) (hroom : bodyNesting b ≤ room') : DerivesBody room' ks b :=
  match h with
  | .nil => .nil
  | .semicolon hb => .semicolon (hb.of_nesting_le hroom)
  | .cons hs hb => by
    rw [bodyNesting, Nat.max_le] at hroom
    exact .cons (hs.of_nesting_le hroom.1) (hb.of_nesting_le hroom.2)

end

theorem DerivesGraph.of_nesting_le {g : Graph} (h : DerivesGraph room ks g)
    (hroom : g.nesting ≤ room') : DerivesGraph room' ks g := by
  obtain ⟨hstrict, hword, hi, hb⟩ := h
  exact .mk hstrict hword hi (hb.of_nesting_le hroom)

/-- A graph can be derived with any room that holds its subgraphs. -/
theorem DerivesGraphs.of_nesting_le {gs : List Graph} (h : DerivesGraphs room ks gs)
    (hroom : ∀ g ∈ gs, g.nesting ≤ room') : DerivesGraphs room' ks gs := by
  induction h with
  | one hg =>
    rw [List.forall_mem_singleton] at hroom
    exact .one (hg.of_nesting_le hroom)
  | cons hg _ ih =>
    rw [List.forall_mem_cons] at hroom
    exact .cons (hg.of_nesting_le hroom.1) (ih hroom.2)

/-- A text of the grammar is one with another room iff that room holds its subgraphs. -/
theorem DerivesText.iff_nesting_le {gs : List Graph} (h : DerivesText room ks gs) :
    DerivesText room' ks gs ↔ ∀ g ∈ gs, g.nesting ≤ room' := by
  constructor
  · rintro ⟨h'⟩
    exact h'.nesting_le
  · intro hroom
    obtain ⟨hgs⟩ := h
    exact .mk (hgs.of_nesting_le hroom)

end Grammar

end DotLang
