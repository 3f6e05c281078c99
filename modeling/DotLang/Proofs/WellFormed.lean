import DotLang.Grammar
import DotLang.Proofs.Spelling

/-!
# Well-formed graphs

What every graph of a text satisfies: an edge has two endpoints at least, subgraphs are nested at
most as deep as there is room for them, and each id has a value that some token has.

* `Lexeme.Html.balanced_iff_nested`: the brackets that an html string may hold.
* `Lexeme.wellFormed_of_spells`: tokens that are spelled have well-formed values.
* `Grammar.DerivesGraphs.wellFormed`: what is derived from such tokens is well formed.
-/

namespace DotLang

/-! ## Values of tokens -/

/-- Each backslash, paired with the character behind it from the left on, stands in front of
neither a quote nor a line feed. -/
inductive Lexeme.Quoted.Value : List Char → Prop where
  | nil : Value []
  | plain {c : Char} {text : List Char} : c ≠ '\\' → Value text → Value (c :: text)
  | pair {c : Char} {text : List Char} :
      c ≠ '"' → c ≠ '\n' → Value text → Value ('\\' :: c :: text)

/-- Brackets are balanced: as many close as open, and never more of them up to any place. -/
structure Lexeme.Html.Balanced (text : List Char) : Prop where
  count_eq : text.count '>' = text.count '<'
  count_le : ∀ start, start <+: text → start.count '>' ≤ start.count '<'

namespace Lexeme

theorem Quoted.Value.append {s t : List Char} (hs : Value s) (ht : Value t) :
    Value (s ++ t) := by
  induction hs with
  | nil => exact ht
  | plain hc _ ih => exact .plain hc ih
  | pair hquote hfeed _ ih => exact .pair hquote hfeed ih

/-- A text without backslashes. -/
theorem Quoted.Value.of_forall {s : List Char} (h : ∀ c ∈ s, c ≠ '\\') : Value s := by
  induction s with
  | nil => exact .nil
  | cons c s ih =>
    exact .plain (h c List.mem_cons_self) (ih fun d hd => h d (List.mem_cons_of_mem _ hd))

theorem Quoted.Body.of_pair {c : Char} {body : List Char} (h : Body ('\\' :: c :: body)) :
    Body body := by
  cases h with
  | pair h => exact h
  | plain _ hback => exact absurd rfl hback

theorem Quoted.Body.of_plain {c : Char} {body : List Char} (hc : c ≠ '\\')
    (h : Body (c :: body)) : Body body := by
  cases h with
  | pair => exact absurd rfl hc
  | plain _ _ h => exact h

theorem Quoted.value_decode {body : List Char} (h : Body body) : Value (decode body) := by
  fun_induction decode body with
  | case1 rest ih => exact .plain (by decide) (ih h.of_pair)
  | case2 rest ih => exact ih h.of_pair
  | case3 rest ih => exact ih (h.of_pair.of_plain (by decide))
  | case4 c rest hquote hfeed hreturn ih => exact .pair hquote hfeed (ih h.of_pair)
  | case5 c rest h1 h2 h3 h4 ih =>
    -- a backslash is never the last character
    have hc : c ≠ '\\' := by
      rintro rfl
      cases h with
      | pair => exact h4 _ _ rfl rfl
      | plain _ hback => exact hback rfl
    exact .plain hc (ih (h.of_plain hc))
  | case6 => exact .nil

/-- Brackets are balanced behind `depth` open ones that are all closed. -/
structure Html.Closing (depth : Nat) (text : List Char) : Prop where
  count_eq : text.count '>' = text.count '<' + depth
  count_le : ∀ start, start <+: text → start.count '>' ≤ start.count '<' + depth

namespace Html

variable {depth : Nat} {c : Char} {text : List Char}

theorem closing_nil_iff : Closing depth [] ↔ depth = 0 := by
  constructor
  · intro h
    simpa using h.count_eq.symm
  · rintro rfl
    refine ⟨rfl, fun start hs => ?_⟩
    rw [List.prefix_nil.1 hs]
    exact Nat.zero_le _

theorem closing_cons_iff :
    Closing depth (c :: text) ↔ (c :: text).count '>' = (c :: text).count '<' + depth ∧
      ∀ start, start <+: text → (c :: start).count '>' ≤ (c :: start).count '<' + depth := by
  constructor
  · intro h
    exact ⟨h.count_eq, fun start hs => h.count_le _ (List.cons_prefix_cons.2 ⟨rfl, hs⟩)⟩
  · rintro ⟨heq, hle⟩
    refine ⟨heq, fun start hs => ?_⟩
    cases start with
    | nil => exact Nat.zero_le _
    | cons d start =>
      obtain ⟨rfl, hstart⟩ := List.cons_prefix_cons.1 hs
      exact hle start hstart

theorem closing_open_iff : Closing depth ('<' :: text) ↔ Closing (depth + 1) text := by
  have hopen (t : List Char) : ('<' :: t).count '<' = t.count '<' + 1 := List.count_cons_self
  have hclose (t : List Char) : ('<' :: t).count '>' = t.count '>' :=
    List.count_cons_of_ne (by decide)
  simp only [closing_cons_iff, hopen, hclose, Nat.add_assoc, Nat.add_comm 1 depth]
  exact ⟨fun h => ⟨h.1, h.2⟩, fun h => ⟨h.count_eq, h.count_le⟩⟩

theorem closing_close_iff :
    Closing depth ('>' :: text) ↔ ∃ d, depth = d + 1 ∧ Closing d text := by
  have hopen (t : List Char) : ('>' :: t).count '<' = t.count '<' :=
    List.count_cons_of_ne (by decide)
  have hclose (t : List Char) : ('>' :: t).count '>' = t.count '>' + 1 := List.count_cons_self
  simp only [closing_cons_iff, hopen, hclose]
  constructor
  · rintro ⟨heq, hle⟩
    have hpos : 1 ≤ depth := by simpa using hle [] List.nil_prefix
    obtain ⟨d, rfl⟩ := Nat.exists_eq_add_of_le' hpos
    exact ⟨d, rfl, Nat.succ.inj heq, fun start hs => Nat.le_of_succ_le_succ (hle start hs)⟩
  · rintro ⟨d, rfl, h⟩
    exact ⟨congrArg Nat.succ h.count_eq, fun start hs => Nat.succ_le_succ (h.count_le start hs)⟩

theorem closing_plain_iff (hopen : c ≠ '<') (hclose : c ≠ '>') :
    Closing depth (c :: text) ↔ Closing depth text := by
  simp only [closing_cons_iff, List.count_cons_of_ne hopen, List.count_cons_of_ne hclose]
  exact ⟨fun h => ⟨h.1, h.2⟩, fun h => ⟨h.count_eq, h.count_le⟩⟩

theorem nested_nil_iff : Nested depth [] ↔ depth = 0 := by
  constructor
  · rintro ⟨⟩
    rfl
  · rintro rfl
    exact .nil

theorem nested_open_iff : Nested depth ('<' :: text) ↔ Nested (depth + 1) text := by
  refine ⟨fun h => ?_, .open⟩
  cases h with
  | «open» h => exact h
  | plain hopen => exact absurd rfl hopen

theorem nested_close_iff :
    Nested depth ('>' :: text) ↔ ∃ d, depth = d + 1 ∧ Nested d text := by
  constructor
  · intro h
    cases h with
    | close h => exact ⟨_, rfl, h⟩
    | plain _ hclose => exact absurd rfl hclose
  · rintro ⟨d, rfl, h⟩
    exact .close h

theorem nested_plain_iff (hopen : c ≠ '<') (hclose : c ≠ '>') :
    Nested depth (c :: text) ↔ Nested depth text := by
  refine ⟨fun h => ?_, .plain hopen hclose⟩
  cases h with
  | «open» => exact absurd rfl hopen
  | close => exact absurd rfl hclose
  | plain _ _ h => exact h

/-- The counts of both brackets say whether what is open is closed again. -/
theorem nested_iff_closing : Nested depth text ↔ Closing depth text := by
  induction text generalizing depth with
  | nil => rw [nested_nil_iff, closing_nil_iff]
  | cons c text ih =>
    by_cases hopen : c = '<'
    · rw [hopen, nested_open_iff, closing_open_iff, ih]
    · by_cases hclose : c = '>'
      · rw [hclose, nested_close_iff, closing_close_iff]
        exact exists_congr fun d => and_congr_right fun _ => ih
      · rw [nested_plain_iff hopen hclose, closing_plain_iff hopen hclose, ih]

theorem balanced_iff_nested : Balanced text ↔ Nested 0 text := by
  rw [nested_iff_closing]
  exact ⟨fun h => ⟨h.count_eq, h.count_le⟩, fun h => ⟨h.count_eq, h.count_le⟩⟩

end Html

end Lexeme

open Lexeme

/-! ## Well-formed parts of graphs -/

/-- The values of tokens that some text spells. -/
def TokenKind.WellFormed : TokenKind → Prop
  | .identifier name => Quoted.Value name.toList
  | .string value => Quoted.Value value.toList
  | .html text => Html.Balanced text.toList
  | .number value => value.isFinite = true
  | _ => True

def Id.WellFormed : Id → Prop
  | .name text => Quoted.Value text.toList
  | .number value => value.isFinite = true
  | .html text => Html.Balanced text.toList

def Attribute.WellFormed (a : Attribute) : Prop := a.key.WellFormed ∧ a.value.WellFormed

/-- All ids of a node are well formed. -/
def NodeId.WellFormed (n : NodeId) : Prop :=
  n.id.WellFormed ∧ ∀ port ∈ n.port, port.id.WellFormed ∧ ∀ c ∈ port.compass, c.WellFormed

mutual

/-- A statement that opens at most `room` subgraphs inside each other. -/
inductive Stmt.WellFormed : Nat → Stmt → Prop where
  | node {room : Nat} {n : NodeId} {as : List Attribute} :
      n.WellFormed → (∀ a ∈ as, a.WellFormed) → Stmt.WellFormed room (.node ⟨n, as⟩)
  | edge {room : Nat} {es : List Endpoint} {as : List Attribute} :
      2 ≤ es.length → (∀ e ∈ es, Endpoint.WellFormed room e) → (∀ a ∈ as, a.WellFormed) →
      Stmt.WellFormed room (.edge ⟨es, as⟩)
  | attributes {room : Nat} {target : AttributeTarget} {as : List Attribute} :
      (∀ a ∈ as, a.WellFormed) → Stmt.WellFormed room (.attributes ⟨target, as⟩)
  | assignment {room : Nat} {key value : Id} :
      key.WellFormed → value.WellFormed → Stmt.WellFormed room (.assignment ⟨key, value⟩)
  | subgraph {room : Nat} {g : Subgraph} :
      Subgraph.WellFormed room g → Stmt.WellFormed room (.subgraph g)

inductive Endpoint.WellFormed : Nat → Endpoint → Prop where
  | node {room : Nat} {n : NodeId} : n.WellFormed → Endpoint.WellFormed room (.node n)
  | subgraph {room : Nat} {g : Subgraph} :
      Subgraph.WellFormed room g → Endpoint.WellFormed room (.subgraph g)

/-- A subgraph takes up one room. -/
inductive Subgraph.WellFormed : Nat → Subgraph → Prop where
  | mk {room : Nat} {id : Option Id} {body : List Stmt} :
      (∀ i ∈ id, i.WellFormed) → (∀ s ∈ body, Stmt.WellFormed room s) →
      Subgraph.WellFormed (room + 1) ⟨id, body⟩

end

/-- A graph whose subgraphs are nested at most `room` deep. -/
structure Graph.WellFormed (room : Nat) (g : Graph) : Prop where
  id : ∀ i ∈ g.id, i.WellFormed
  body : ∀ s ∈ g.body, Stmt.WellFormed room s

/-! ## Tokens that are spelled -/

namespace Lexeme

theorem isFinite_of_value? {n : Numeral} {value : Binary64} (h : n.value? = some value) :
    value.isFinite = true := by
  rw [Numeral.value?] at h
  split at h
  · cases h
  · split at h
    · rename_i hfinite
      obtain rfl := Option.some.inj h
      exact hfinite
    · cases h

theorem Quoted.value_of_name {name : List Char} (h : ∀ c ∈ name, isNameChar c = true) :
    Value name := by
  refine .of_forall ?_
  rintro c hc rfl
  exact absurd (h _ hc) (by decide)

theorem Spelling.wellFormed {kind : TokenKind} {text : List Char} (h : Spelling kind text) :
    kind.WellFormed := by
  cases h with
  | symbol s => trivial
  | arrow op => trivial
  | quoted hbody =>
    rw [TokenKind.WellFormed, String.toList_ofList]
    exact Quoted.value_decode hbody
  | html hbody =>
    rw [TokenKind.WellFormed, String.toList_ofList, Html.balanced_iff_nested]
    exact hbody
  | numeral hn hvalue => exact isFinite_of_value? hvalue
  | keyword hc htail hword => trivial
  | identifier hc htail hword =>
    rw [TokenKind.WellFormed, String.toList_ofList]
    exact Quoted.value_of_name (forall_isNameChar_cons hc htail)

/-- A token that is spelled has a well-formed value. -/
theorem wellFormed_of_spells {kind : TokenKind} {text : List Char} (h : Spells kind text) :
    kind.WellFormed :=
  (spells_iff_spelling.1 h).wellFormed

end Lexeme

/-! ## What is derived -/

namespace Grammar

variable {ks : List TokenKind}

theorem DerivesString.wellFormed {s : String} (h : DerivesString ks s)
    (hks : ∀ k ∈ ks, k.WellFormed) : Quoted.Value s.toList := by
  induction h with
  | one s => exact hks _ List.mem_cons_self
  | @more ks s t _ ih =>
    rw [List.forall_mem_append] at hks
    rw [String.toList_append]
    exact (ih hks.1).append (hks.2 (.string t) (by simp))

theorem DerivesId.wellFormed {i : Id} (h : DerivesId ks i) (hks : ∀ k ∈ ks, k.WellFormed) :
    i.WellFormed := by
  cases h with
  | identifier s => exact hks _ List.mem_cons_self
  | string h => exact h.wellFormed hks
  | number x => exact hks _ List.mem_cons_self
  | html s => exact hks _ List.mem_cons_self

theorem DerivesOptionalId.wellFormed {i : Option Id} (h : DerivesOptionalId ks i)
    (hks : ∀ k ∈ ks, k.WellFormed) : ∀ j ∈ i, j.WellFormed := by
  cases h with
  | absent => exact nofun
  | present h =>
    rintro _ ⟨rfl⟩
    exact h.wellFormed hks

theorem DerivesNode.wellFormed {n : NodeId} (h : DerivesNode ks n)
    (hks : ∀ k ∈ ks, k.WellFormed) : n.WellFormed := by
  cases h with
  | id hi => exact ⟨hi.wellFormed hks, nofun⟩
  | port hi hp =>
    rw [List.forall_mem_append, List.forall_mem_cons] at hks
    refine ⟨hi.wellFormed hks.1, ?_⟩
    rintro _ ⟨rfl⟩
    exact ⟨hp.wellFormed hks.2.2, nofun⟩
  | compass hi hp hc =>
    rw [List.forall_mem_append, List.forall_mem_append, List.forall_mem_cons,
      List.forall_mem_cons] at hks
    obtain ⟨⟨hki, _, hkp⟩, _, hkc⟩ := hks
    refine ⟨hi.wellFormed hki, ?_⟩
    rintro _ ⟨rfl⟩
    refine ⟨hp.wellFormed hkp, ?_⟩
    rintro _ ⟨rfl⟩
    exact hc.wellFormed hkc

theorem DerivesGroup.wellFormed {as : List Attribute} (h : DerivesGroup ks as)
    (hks : ∀ k ∈ ks, k.WellFormed) : ∀ a ∈ as, a.WellFormed := by
  induction h with
  | nil => exact nofun
  | cons hkey hvalue hsep hms ih =>
    rw [List.forall_mem_append, List.forall_mem_append, List.forall_mem_append,
      List.forall_mem_cons] at hks
    obtain ⟨⟨⟨hkkey, _, hkvalue⟩, _⟩, hkms⟩ := hks
    rw [List.forall_mem_cons]
    exact ⟨⟨hkey.wellFormed hkkey, hvalue.wellFormed hkvalue⟩, ih hkms⟩

theorem DerivesGroups.wellFormed {as : List Attribute} (h : DerivesGroups ks as)
    (hks : ∀ k ∈ ks, k.WellFormed) : ∀ a ∈ as, a.WellFormed := by
  induction h with
  | nil => exact nofun
  | cons hfirst hlater ih =>
    rw [List.forall_mem_append, List.forall_mem_cons, List.forall_mem_cons] at hks
    obtain ⟨⟨_, hkfirst⟩, _, hklater⟩ := hks
    rw [List.forall_mem_append]
    exact ⟨hfirst.wellFormed hkfirst, ih hklater⟩

mutual

theorem DerivesStmt.wellFormed {room : Nat} {ks : List TokenKind} {s : Stmt}
    (h : DerivesStmt room ks s) (hks : ∀ k ∈ ks, k.WellFormed) : Stmt.WellFormed room s :=
  match h with
  | .node hn has => by
    rw [List.forall_mem_append] at hks
    exact .node (hn.wellFormed hks.1) (has.wellFormed hks.2)
  | .edge he hl hne has => by
    rw [List.forall_mem_append, List.forall_mem_append] at hks
    refine .edge ?_ ?_ (has.wellFormed hks.2)
    · have := List.length_pos_iff.2 hne
      rw [List.length_cons]
      omega
    · rw [List.forall_mem_cons]
      exact ⟨he.wellFormed hks.1.1, hl.wellFormed hks.1.2⟩
  | .attributes ht has hne => by
    rw [List.forall_mem_cons] at hks
    exact .attributes (has.wellFormed hks.2)
  | .assignment hkey hvalue => by
    rw [List.forall_mem_append, List.forall_mem_cons] at hks
    exact .assignment (hkey.wellFormed hks.1) (hvalue.wellFormed hks.2.2)
  | .subgraph hg => .subgraph (hg.wellFormed hks)

theorem DerivesEndpoint.wellFormed {room : Nat} {ks : List TokenKind} {e : Endpoint}
    (h : DerivesEndpoint room ks e) (hks : ∀ k ∈ ks, k.WellFormed) :
    Endpoint.WellFormed room e :=
  match h with
  | .node hn => .node (hn.wellFormed hks)
  | .subgraph hg => .subgraph (hg.wellFormed hks)

theorem DerivesLater.wellFormed {room : Nat} {ks : List TokenKind} {es : List Endpoint}
    (h : DerivesLater room ks es) (hks : ∀ k ∈ ks, k.WellFormed) :
    ∀ e ∈ es, Endpoint.WellFormed room e :=
  match h with
  | .nil => nofun
  | .cons he hl => by
    rw [List.forall_mem_append, List.forall_mem_cons] at hks
    rw [List.forall_mem_cons]
    exact ⟨he.wellFormed hks.1.2, hl.wellFormed hks.2⟩

theorem DerivesSubgraph.wellFormed {room : Nat} {ks : List TokenKind} {g : Subgraph}
    (h : DerivesSubgraph room ks g) (hks : ∀ k ∈ ks, k.WellFormed) :
    Subgraph.WellFormed room g :=
  match h with
  | .bare hb => by
    rw [List.forall_mem_append, List.forall_mem_cons] at hks
    exact .mk nofun (hb.wellFormed hks.1.2)
  | .named hi hb => by
    rw [List.forall_mem_append, List.forall_mem_append, List.forall_mem_cons,
      List.forall_mem_cons] at hks
    obtain ⟨⟨⟨_, hki⟩, _, hkb⟩, _⟩ := hks
    exact .mk (hi.wellFormed hki) (hb.wellFormed hkb)

theorem DerivesBody.wellFormed {room : Nat} {ks : List TokenKind} {b : List Stmt}
    (h : DerivesBody room ks b) (hks : ∀ k ∈ ks, k.WellFormed) :
    ∀ s ∈ b, Stmt.WellFormed room s :=
  match h with
  | .nil => nofun
  | .semicolon hb => hb.wellFormed fun k hk => hks k (List.mem_cons_of_mem _ hk)
  | .cons hs hb => by
    rw [List.forall_mem_append] at hks
    rw [List.forall_mem_cons]
    exact ⟨hs.wellFormed hks.1, hb.wellFormed hks.2⟩

end

theorem DerivesGraph.wellFormed {room : Nat} {g : Graph} (h : DerivesGraph room ks g)
    (hks : ∀ k ∈ ks, k.WellFormed) : g.WellFormed room := by
  obtain ⟨hstrict, hword, hi, hb⟩ := h
  rw [List.forall_mem_append, List.forall_mem_append, List.forall_mem_append,
    List.forall_mem_cons, List.forall_mem_cons] at hks
  obtain ⟨⟨⟨_, _, hki⟩, _, hkb⟩, _⟩ := hks
  exact ⟨hi.wellFormed hki, hb.wellFormed hkb⟩

/-- What is derived from tokens with well-formed values is well formed. -/
theorem DerivesGraphs.wellFormed {room : Nat} {gs : List Graph} (h : DerivesGraphs room ks gs)
    (hks : ∀ k ∈ ks, k.WellFormed) : gs ≠ [] ∧ ∀ g ∈ gs, g.WellFormed room := by
  induction h with
  | one hg =>
    refine ⟨List.cons_ne_nil _ _, ?_⟩
    rw [List.forall_mem_singleton]
    exact hg.wellFormed hks
  | cons hg hgs ih =>
    rw [List.forall_mem_append] at hks
    refine ⟨List.cons_ne_nil _ _, ?_⟩
    rw [List.forall_mem_cons]
    exact ⟨hg.wellFormed hks.1, (ih hks.2).2⟩

end Grammar

end DotLang
