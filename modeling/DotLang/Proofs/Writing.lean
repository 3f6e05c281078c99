import DotLang.Proofs.Acceptance
import DotLang.Proofs.Reformatting
import DotLang.Proofs.Rounding
import DotLang.Proofs.WellFormed

/-!
# Every well-formed graph can be written

For each well-formed value there is a token with this value and a text that spells it, and from
these the constructs of the grammar are put together. A text with a blank in front of each token
is then read as the graphs.

* `Lexeme.Quoted.decode_encode`: a quoted string for each value.
* `Decimal.value?_numeral`: a numeral for each finite number.
* `Grammar.writable_stmt`: the tokens of a well-formed statement.
* `exists_parse_eq_ok_iff`: the graphs that texts stand for are the well-formed ones.
-/

namespace DotLang

/-- Some text spells the token. -/
def TokenKind.Spellable (kind : TokenKind) : Prop := ∃ text, Lexeme.Spells kind text

/-! ## Strings -/

namespace Lexeme.Quoted

/-- The text between the quotes for a value. Two lines are joined behind a backslash and a carriage
return, so that no line feed can stand right behind these. -/
def encode : List Char → List Char
  | '\\' :: '\r' :: rest => '\\' :: '\r' :: '\\' :: '\n' :: encode rest
  | '\\' :: c :: rest => '\\' :: c :: encode rest
  | '"' :: rest => '\\' :: '"' :: encode rest
  | c :: rest => c :: encode rest
  | [] => []

theorem encode_pair {c : Char} {rest : List Char} (hc : c ≠ '\r') :
    encode ('\\' :: c :: rest) = '\\' :: c :: encode rest := by
  rw [encode]
  exact hc

theorem encode_plain {c : Char} {rest : List Char} (hback : c ≠ '\\') (hquote : c ≠ '"') :
    encode (c :: rest) = c :: encode rest := by
  rw [encode]
  · exact fun _ h _ => hback h
  · exact fun _ _ h _ => hback h
  · exact hquote

/-- A backslash stays in front of a carriage return too, if no line feed follows. -/
theorem decode_pair {c : Char} {rest : List Char} (hquote : c ≠ '"') (hfeed : c ≠ '\n')
    (hreturn : ∀ tail, c = '\r' → rest ≠ '\n' :: tail) :
    decode ('\\' :: c :: rest) = '\\' :: c :: decode rest := by
  rw [decode]
  · exact hquote
  · exact hfeed
  · exact hreturn

theorem decode_plain {c : Char} {rest : List Char} (hback : c ≠ '\\') :
    decode (c :: rest) = c :: decode rest := by
  rw [decode]
  · exact fun _ h _ => hback h
  · exact fun _ h _ => hback h
  · exact fun _ h _ => hback h
  · exact fun _ _ h _ => hback h

theorem body_encode {value : List Char} (h : Value value) : Body (encode value) := by
  induction h with
  | nil => exact .nil
  | @plain c rest hback _ ih =>
    by_cases hquote : c = '"'
    · subst hquote
      exact .pair ih
    · rw [encode_plain hback hquote]
      exact .plain hquote hback ih
  | @pair c rest hquote hfeed _ ih =>
    by_cases hreturn : c = '\r'
    · subst hreturn
      exact .pair (.pair ih)
    · rw [encode_pair hreturn]
      exact .pair ih

theorem decode_encode {value : List Char} (h : Value value) : decode (encode value) = value := by
  induction h with
  | nil => rfl
  | @plain c rest hback _ ih =>
    by_cases hquote : c = '"'
    · subst hquote
      exact congrArg ('"' :: ·) ih
    · rw [encode_plain hback hquote, decode_plain hback, ih]
  | @pair c rest hquote hfeed _ ih =>
    by_cases hreturn : c = '\r'
    · subst hreturn
      exact congrArg ('\\' :: '\r' :: ·) ih
    · rw [encode_pair hreturn, decode_pair hquote hfeed fun _ h => absurd h hreturn, ih]

end Lexeme.Quoted

/-! ## Numerals -/

/-- A decimal without a positive exponent as a numeral. Zeros in front leave room for the point. -/
def Decimal.numeral (negative : Bool) (d : Decimal) : Numeral :=
  let places := (-d.exponent).toNat
  let digits := List.replicate places '0' ++ d.digitChars
  ⟨negative, digits.take (digits.length - places), some (digits.drop (digits.length - places))⟩

namespace Decimal

theorem exponent_ofCode_le (code : Nat) : (ofCode code).exponent ≤ 0 := by
  unfold ofCode
  simp only []
  split
  · exact le_refl _
  · exact (Int.lt_of_not_ge ‹_›).le

theorem digits_numeral (negative : Bool) (d : Decimal) :
    (d.numeral negative).digits = List.replicate (-d.exponent).toNat '0' ++ d.digitChars :=
  List.take_append_drop _ _

theorem digital_numeral (negative : Bool) (d : Decimal) : (d.numeral negative).Digital := by
  have hall : ∀ c ∈ List.replicate (-d.exponent).toNat '0' ++ d.digitChars,
      c.isDigit = true := by
    intro c hc
    rcases List.mem_append.1 hc with hc | hc
    · rw [List.eq_of_mem_replicate hc]
      rfl
    · exact Nat.isDigit_of_mem_toDigits (by decide) (by decide) hc
  refine ⟨fun c hc => hall c (List.mem_of_mem_take hc), ?_⟩
  rintro digits ⟨rfl⟩ c hc
  exact hall c (List.mem_of_mem_drop hc)

/-- Zeros in front do not change the number that digits stand for. -/
theorem ofDigits_numeral (negative : Bool) (d : Decimal) :
    Numeral.ofDigits (d.numeral negative).digits = d.digits := by
  rw [digits_numeral]
  have hzeros : Nat.ofDigitChars 10 (List.replicate (-d.exponent).toNat '0' ++ d.digitChars) 0 =
      d.digits := by
    rw [Nat.ofDigitChars_append, Nat.ofDigitChars_replicate_zero, Nat.mul_zero]
    exact Nat.ofDigitChars_ten_toDigits
  exact hzeros

theorem length_fraction_numeral (negative : Bool) (d : Decimal) :
    ((d.numeral negative).fraction.getD []).length = (-d.exponent).toNat := by
  rw [numeral, Option.getD_some, List.length_drop, List.length_append, List.length_replicate]
  omega

/-- The numeral of an exact decimal value is read as the number. -/
theorem value?_numeral {x : Binary64} (hx : x.isFinite = true) :
    ((ofCode x.code).numeral x.negative).value? = some x := by
  have hcode : x.code < Binary64.infinityCode := of_decide_eq_true hx
  have hread : Binary64.codeOfDecimal (ofCode x.code).digits (ofCode x.code).exponent = x.code :=
    readsAs_ofCode x.code
  have hexponent : (-((-(ofCode x.code).exponent).toNat : Int)) = (ofCode x.code).exponent := by
    have := exponent_ofCode_le x.code
    omega
  have hnearest : ((ofCode x.code).numeral x.negative).nearest = x := by
    rw [Numeral.nearest, ofDigits_numeral, length_fraction_numeral, hexponent, hread]
    obtain ⟨negative, code, hlt⟩ := x
    have hmin : min code Binary64.infinityCode = code := Nat.min_eq_left (Nat.le_of_lt hcode)
    simp [Binary64.ofCode, numeral, hmin]
  have hdigits : ((ofCode x.code).numeral x.negative).digits ≠ [] := by
    rw [digits_numeral]
    exact List.append_ne_nil_of_right_ne_nil _ Nat.toDigits_ne_nil
  rw [Numeral.value?, if_neg hdigits, hnearest, if_pos hx]

end Decimal

/-! ## Tokens -/

namespace TokenKind

theorem spellable_symbol (s : Symbol) : (symbol s).Spellable := ⟨_, Lexeme.spells_symbol s⟩

theorem spellable_edgeOp (op : EdgeOp) : (edgeOp op).Spellable := ⟨_, Lexeme.spells_arrow op⟩

theorem spellable_keyword (word : Keyword) : (keyword word).Spellable := by
  have hname (c : Char) (tail : List Char) (hc : Lexeme.isNameStart c = true)
      (htail : tail.all Lexeme.isNameChar = true)
      (hword : Keyword.ofName? (c :: tail) = some word) : (keyword word).Spellable :=
    ⟨_, Lexeme.spells_keyword hc (List.all_eq_true.1 htail) hword⟩
  cases word with
  | graph => exact hname 'g' ['r', 'a', 'p', 'h'] rfl rfl rfl
  | digraph => exact hname 'd' ['i', 'g', 'r', 'a', 'p', 'h'] rfl rfl rfl
  | subgraph => exact hname 's' ['u', 'b', 'g', 'r', 'a', 'p', 'h'] rfl rfl rfl
  | node => exact hname 'n' ['o', 'd', 'e'] rfl rfl rfl
  | edge => exact hname 'e' ['d', 'g', 'e'] rfl rfl rfl
  | strict => exact hname 's' ['t', 'r', 'i', 'c', 't'] rfl rfl rfl

theorem spellable_string {value : String} (h : Lexeme.Quoted.Value value.toList) :
    (string value).Spellable := by
  have hspells := Lexeme.spells_quoted (Lexeme.Quoted.body_encode h)
  rw [Lexeme.Quoted.decode_encode h, String.ofList_toList] at hspells
  exact ⟨_, hspells⟩

theorem spellable_html {text : String} (h : Lexeme.Html.Balanced text.toList) :
    (html text).Spellable := by
  have hspells := Lexeme.spells_html (Lexeme.Html.balanced_iff_nested.1 h)
  rw [String.ofList_toList] at hspells
  exact ⟨_, hspells⟩

theorem spellable_number {value : Binary64} (h : value.isFinite = true) :
    (number value).Spellable :=
  ⟨_, Lexeme.spells_numeral (Decimal.digital_numeral _ _) (Decimal.value?_numeral h)⟩

end TokenKind

/-! ## Constructs -/

namespace Grammar

/-- Some tokens of the language can all be spelled. -/
def Writable (L : Language TokenKind) : Prop := ∃ ks ∈ L, ∀ k ∈ ks, k.Spellable

theorem Writable.mono {L M : Language TokenKind} (h : Writable L) (hle : L ≤ M) : Writable M := by
  obtain ⟨ks, hks, hspell⟩ := h
  exact ⟨ks, hle hks, hspell⟩

theorem Writable.mul {L M : Language TokenKind} (hL : Writable L) (hM : Writable M) :
    Writable (L * M) := by
  obtain ⟨ks, hks, hspell⟩ := hL
  obtain ⟨ls, hls, hspell'⟩ := hM
  exact ⟨ks ++ ls, Language.append_mem_mul hks hls, List.forall_mem_append.2 ⟨hspell, hspell'⟩⟩

theorem writable_one {kind : TokenKind} (h : kind.Spellable) : Writable (one kind) :=
  ⟨[kind], rfl, List.forall_mem_singleton.2 h⟩

theorem writable_symbol (s : Symbol) : Writable (one (.symbol s)) :=
  writable_one (TokenKind.spellable_symbol s)

theorem writable_keyword (word : Keyword) : Writable (one (.keyword word)) :=
  writable_one (TokenKind.spellable_keyword word)

/-- What may be left out is written without any token. -/
theorem writable_of_nil {α : Type} {R : List TokenKind → α → Prop} {a : α} (h : R [] a) :
    Writable (tokens R a) :=
  ⟨[], h, nofun⟩

variable {room : Nat}

theorem writable_id {i : Id} (h : i.WellFormed) : Writable (tokens DerivesId i) := by
  cases i with
  | name text =>
    exact (writable_one (TokenKind.spellable_string h)).mono (one_le_tokens (.string (.one _)))
  | number value =>
    exact (writable_one (TokenKind.spellable_number h)).mono (one_le_tokens (.number _))
  | html text => exact (writable_one (TokenKind.spellable_html h)).mono (one_le_tokens (.html _))

theorem writable_optionalId {i : Option Id} (h : ∀ j ∈ i, j.WellFormed) :
    Writable (tokens DerivesOptionalId i) := by
  cases i with
  | none => exact writable_of_nil .absent
  | some i => exact (writable_id (h i rfl)).mono id_le_optionalId

theorem writable_node {n : NodeId} (h : n.WellFormed) : Writable (tokens DerivesNode n) := by
  obtain ⟨i, port⟩ := n
  have hid : Writable (tokens DerivesId i) := writable_id h.1
  cases port with
  | none => exact hid.mono id_le_node
  | some port =>
    obtain ⟨p, compass⟩ := port
    obtain ⟨hp, hc⟩ := h.2 _ rfl
    have hport := (hid.mul (writable_symbol .colon)).mul (writable_id hp)
    cases compass with
    | none => exact hport.mono port_le_node
    | some c =>
      exact ((hport.mul (writable_symbol .colon)).mul (writable_id (hc c rfl))).mono compass_le_node

/-- Attributes are written inside one pair of brackets. -/
theorem writable_openGroups {as : List Attribute} (h : ∀ a ∈ as, a.WellFormed) :
    Writable (tokens DerivesOpenGroups as) := by
  induction as using List.reverseRecOn with
  | nil => exact (writable_symbol .openBracket).mono one_le_openGroups
  | append_singleton as a ih =>
    rw [List.forall_mem_append, List.forall_mem_singleton] at h
    obtain ⟨has, hkey, hvalue⟩ := h
    have hpending := (((ih has).mul (writable_id hkey)).mul (writable_symbol .equal)).mul
      (writable_id hvalue)
    exact (hpending.mono openGroups_mul_attribute_le).mono pending_le_openGroups

theorem writable_someGroups {as : List Attribute} (h : ∀ a ∈ as, a.WellFormed) :
    Writable (someGroups as) :=
  ((writable_openGroups h).mul (writable_symbol .closeBracket)).mono openGroups_mul_closeBracket_le

theorem writable_groups {as : List Attribute} (h : ∀ a ∈ as, a.WellFormed) :
    Writable (tokens DerivesGroups as) :=
  (writable_someGroups h).mono fun _ h => h.1

theorem writable_target (t : AttributeTarget) : Writable (tokens DerivesTarget t) := by
  cases t with
  | graph => exact (writable_keyword .graph).mono (one_le_target rfl)
  | node => exact (writable_keyword .node).mono (one_le_target rfl)
  | edge => exact (writable_keyword .edge).mono (one_le_target rfl)

theorem writable_arrow : Writable arrow :=
  (writable_one (TokenKind.spellable_edgeOp .directed)).mono (one_le_arrow rfl)

theorem writable_chain {es : List Endpoint} (hne : es ≠ [])
    (h : ∀ e ∈ es, Writable (tokens (DerivesEndpoint room) e)) :
    Writable (tokens (DerivesChain room) es) := by
  induction es using List.reverseRecOn with
  | nil => exact absurd rfl hne
  | append_singleton es e ih =>
    rw [List.forall_mem_append, List.forall_mem_singleton] at h
    by_cases hes : es = []
    · rw [hes]
      exact h.2.mono endpoint_le_chain
    · have hchain := ((ih hes h.1).mul writable_arrow).mul h.2
      exact (hchain.mono chain_mul_endpoint_le).mono path_le_chain

theorem writable_paths {es : List Endpoint} (hlen : 2 ≤ es.length)
    (h : ∀ e ∈ es, Writable (tokens (DerivesEndpoint room) e)) : Writable (paths room es) := by
  have hne : es ≠ [] := by
    rintro rfl
    simp at hlen
  obtain ⟨ks, hks, hspell⟩ := writable_chain hne h
  exact ⟨ks, ⟨hks, hlen⟩, hspell⟩

theorem writable_body {body : List Stmt}
    (h : ∀ s ∈ body, Writable (tokens (DerivesStmt room) s)) :
    Writable (tokens (DerivesBody room) body) := by
  induction body using List.reverseRecOn with
  | nil => exact writable_of_nil .nil
  | append_singleton body s ih =>
    rw [List.forall_mem_append, List.forall_mem_singleton] at h
    exact ((ih h.1).mul h.2).mono body_mul_stmt_le

theorem writable_braces {body : List Stmt}
    (h : ∀ s ∈ body, Writable (tokens (DerivesStmt room) s)) :
    Writable (tokens (DerivesBody room) body * one (.symbol .closeBrace)) :=
  (writable_body h).mul (writable_symbol .closeBrace)

/-- A subgraph is written with its keyword, whether or not it has an id. -/
theorem writable_subgraphHead {i : Option Id} (h : ∀ j ∈ i, j.WellFormed) :
    Writable (tokens (DerivesSubgraphHead (room + 1)) i) := by
  have hword : Writable (subgraphWord (room + 1)) :=
    (writable_keyword .subgraph).mono (one_le_subgraphWord (Nat.succ_pos room))
  exact (hword.mul (writable_optionalId h)).mono subgraphWord_mul_optionalId_le

mutual

theorem writable_stmt {room : Nat} {s : Stmt} (h : Stmt.WellFormed room s) :
    Writable (tokens (DerivesStmt room) s) :=
  match h with
  | .node hn has => ((writable_node hn).mul (writable_groups has)).mono node_mul_groups_le
  | .edge hlen hes has => by
    have hpath := writable_paths hlen fun e he => writable_endpoint (hes e he)
    exact (hpath.mul (writable_groups has)).mono path_mul_groups_le
  | .attributes has =>
    ((writable_target _).mul (writable_someGroups has)).mono target_mul_someGroups_le
  | .assignment hkey hvalue =>
    (((writable_id hkey).mul (writable_symbol .equal)).mul (writable_id hvalue)).mono assignment_le
  | .subgraph hg => (writable_subgraph hg).mono subgraph_le_stmt

theorem writable_endpoint {room : Nat} {e : Endpoint} (h : Endpoint.WellFormed room e) :
    Writable (tokens (DerivesEndpoint room) e) :=
  match h with
  | .node hn => (writable_node hn).mono node_le_endpoint
  | .subgraph hg => (writable_subgraph hg).mono subgraph_le_endpoint

theorem writable_subgraph {room : Nat} {g : Subgraph} (h : Subgraph.WellFormed room g) :
    Writable (tokens (DerivesSubgraph room) g) :=
  match h with
  | @Subgraph.WellFormed.mk room i _ hi hbody => by
    have hhead : Writable (tokens (DerivesSubgraphHead (room + 1)) i) := writable_subgraphHead hi
    have hinner := writable_braces fun s hs => writable_stmt (hbody s hs)
    exact ((hhead.mul (writable_symbol .openBrace)).mul hinner).mono subgraphHead_mul_body_le

end

theorem writable_head {head : GraphHead} (h : ∀ i ∈ head.id, i.WellFormed) :
    Writable (tokens DerivesHead head) := by
  obtain ⟨kind, strict, i⟩ := head
  obtain ⟨word, hword⟩ : ∃ word : Keyword, (TokenKind.keyword word).graphKind? = some kind := by
    cases kind with
    | undirected => exact ⟨.graph, rfl⟩
    | directed => exact ⟨.digraph, rfl⟩
  have hplain : Writable (tokens DerivesHead ⟨kind, strict, none⟩) := by
    cases strict with
    | false => exact (writable_keyword word).mono (one_le_head hword)
    | true =>
      exact ((writable_keyword .strict).mul (writable_keyword word)).mono
        (strict_mul_one_le_head hword)
  cases i with
  | none => exact hplain
  | some i => exact (hplain.mul (writable_id (h i rfl))).mono head_mul_id_le

theorem writable_graph {g : Graph} (h : g.WellFormed room) :
    Writable (tokens (DerivesGraph room) g) := by
  have hhead := (writable_head h.id).mul (writable_symbol .openBrace)
  have hinner := writable_braces fun s hs => writable_stmt (h.body s hs)
  exact (hhead.mul hinner).mono head_mul_body_le

theorem writable_firstGraphs {gs : List Graph} (h : ∀ g ∈ gs, g.WellFormed room) :
    Writable (tokens (DerivesFirstGraphs room) gs) := by
  induction gs using List.reverseRecOn with
  | nil => exact writable_of_nil .none
  | append_singleton gs g ih =>
    rw [List.forall_mem_append, List.forall_mem_singleton] at h
    have hgraphs := ((ih h.1).mul (writable_graph h.2)).mono firstGraphs_mul_graph_le
    exact hgraphs.mono graphs_le_firstGraphs

theorem writable_graphs {gs : List Graph} (hne : gs ≠ []) (h : ∀ g ∈ gs, g.WellFormed room) :
    Writable (tokens (DerivesGraphs room) gs) := by
  obtain ⟨ks, hks, hspell⟩ := writable_firstGraphs h
  rcases hks with _ | hks
  · exact absurd rfl hne
  · exact ⟨ks, hks, hspell⟩

end Grammar

/-! ## Texts -/

open Grammar

theorem exists_words {ks : List TokenKind} (h : ∀ k ∈ ks, k.Spellable) :
    ∃ words : List (TokenKind × List Char), words.map Prod.fst = ks ∧
      ∀ w ∈ words, Lexeme.Spells w.1 w.2 := by
  induction ks with
  | nil => exact ⟨[], rfl, nofun⟩
  | cons k ks ih =>
    rw [List.forall_mem_cons] at h
    obtain ⟨text, htext⟩ := h.1
    obtain ⟨words, rfl, hwords⟩ := ih h.2
    exact ⟨(k, text) :: words, rfl, List.forall_mem_cons.2 ⟨htext, hwords⟩⟩

/-- Tokens that can be spelled are the tokens of some text. -/
theorem exists_tokenize_eq {ks : List TokenKind} (h : ∀ k ∈ ks, k.Spellable) :
    ∃ source tokens, Lexer.tokenize source = .ok tokens ∧
      tokens.map Token.kind = ks ++ [.eof] := by
  obtain ⟨words, rfl, hwords⟩ := exists_words h
  have hlength : (List.replicate words.length [' ']).length = words.length :=
    List.length_replicate
  have hgaps : ∀ g ∈ List.replicate words.length [' '], Trivia.Separation g := by
    intro g hg
    rw [List.eq_of_mem_replicate hg]
    exact ⟨.blank rfl .nil, List.cons_ne_nil _ _⟩
  obtain ⟨htokens, place, hending⟩ := run_written hlength hgaps hwords .nil
  refine ⟨_, _, Lexer.tokenize_eq_ok_iff.2 ⟨_, hending, rfl⟩, ?_⟩
  have hkinds := congrArg (List.map Prod.fst) htokens
  rw [List.map_map] at hkinds
  rw [List.map_append, List.map_singleton]
  exact congrArg (· ++ [.eof]) hkinds

/-- The end of input, or a token that can be written. -/
def TokenKind.Occurs (kind : TokenKind) : Prop := kind = .eof ∨ kind.Spellable

theorem occurs_of_tokenize {source : String} {tokens : List Token}
    (h : Lexer.tokenize source = .ok tokens) : ∀ k ∈ tokens.map Token.kind, k.Occurs := by
  obtain ⟨last, hending, rfl⟩ := Lexer.tokenize_eq_ok_iff.1 h
  intro k hk
  obtain ⟨token, htoken, rfl⟩ := List.mem_map.1 hk
  rcases List.mem_append.1 htoken with htoken | htoken
  · exact .inr ⟨_, Cursor.spells_of_mem_tokens htoken⟩
  · rw [List.mem_singleton.1 htoken]
    exact .inl (Cursor.kind_of_ending hending)

theorem wellFormed_of_parse {source : String} {options : ParseOptions} {gs : List Graph}
    (h : parse source options = .ok gs) :
    gs ≠ [] ∧ ∀ g ∈ gs, g.WellFormed options.maxDepth := by
  obtain ⟨tokens, htokens, hderives⟩ := derivesText_of_parse h
  obtain ⟨last, hending, rfl⟩ := Lexer.tokenize_eq_ok_iff.1 htokens
  rw [List.map_append, List.map_singleton, Cursor.kind_of_ending hending,
    derivesText_append_eof_iff] at hderives
  refine hderives.wellFormed fun k hk => ?_
  obtain ⟨token, htoken, rfl⟩ := List.mem_map.1 hk
  exact Lexeme.wellFormed_of_spells (Cursor.spells_of_mem_tokens htoken)

/-- The graphs that some text stands for are the well-formed ones. -/
theorem exists_parse_eq_ok_iff (options : ParseOptions) (gs : List Graph) :
    (∃ source, parse source options = .ok gs) ↔
      gs ≠ [] ∧ ∀ g ∈ gs, g.WellFormed options.maxDepth := by
  constructor
  · rintro ⟨source, h⟩
    exact wellFormed_of_parse h
  · rintro ⟨hne, h⟩
    obtain ⟨ks, hks, hspell⟩ := writable_graphs hne h
    obtain ⟨source, tokens, htokens, hkinds⟩ := exists_tokenize_eq hspell
    refine ⟨source, parse_of_derivesText htokens ?_⟩
    rw [hkinds]
    exact .mk hks

end DotLang
