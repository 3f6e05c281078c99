import DotLang.Proofs.BoundedRuns
import DotLang.Proofs.Places
import DotLang.Proofs.Standing

/-!
# Errors under their source lines

The line of an error is told twice, by the place of the error and by the lines of the source. Both
agree: the source has the line, and in it stands, at the column of the error, the first character
of the token that the error reports. Only the end of input stands behind the last line.

* `Text.drop_lines`: the lines of a text from the end of a beginning of it on.
* `Position.Shows.exists_line`: what stands at a place stands in a line of the source.
* `annotate_of_parse`: what an annotated error shows.
-/

namespace DotLang

/-! ## Lines -/

namespace Text

/-- Puts a text in front of the first line. -/
def joinFirst (text : List Char) : List (List Char) → List (List Char)
  | [] => [text]
  | line :: rest => (text ++ line) :: rest

theorem joinFirst_nil {ls : List (List Char)} (h : ls ≠ []) : joinFirst [] ls = ls := by
  cases ls with
  | nil => exact absurd rfl h
  | cons line rest => rfl

theorem joinFirst_consFirst (text : List Char) (c : Char) (ls : List (List Char)) :
    joinFirst text (consFirst c ls) = joinFirst (text ++ [c]) ls := by
  cases ls <;> simp [joinFirst, consFirst]

/-- Behind a beginning of a text its last line goes on. -/
theorem drop_lines (before rest : List Char) :
    (lines (before ++ rest)).drop (before.count '\n') =
      joinFirst (before.rtakeWhile (· ≠ '\n')) (lines rest) := by
  induction before using List.reverseRecOn generalizing rest with
  | nil => rw [List.nil_append, List.rtakeWhile_nil, joinFirst_nil (lines_ne_nil rest)]; rfl
  | append_singleton before c ih =>
    have hdrop := ih (c :: rest)
    rw [List.append_assoc, List.singleton_append, List.count_append]
    by_cases hc : c = '\n'
    · subst hc
      have hrest := congrArg List.tail hdrop
      rw [List.tail_drop, lines, if_pos rfl] at hrest
      rw [List.rtakeWhile_concat_neg _ _ _ (by decide), joinFirst_nil (lines_ne_nil rest)]
      exact hrest
    · have hcount : [c].count '\n' = 0 := List.count_eq_zero_of_not_mem (by simpa using Ne.symm hc)
      rw [hcount, Nat.add_zero, hdrop, List.rtakeWhile_concat_pos _ _ _ (by simpa using hc),
        lines, if_neg hc, joinFirst_consFirst]

theorem head?_lines (text : List Char) :
    (lines text).head? = some (text.takeWhile (· ≠ '\n')) := by
  fun_induction lines text with
  | case1 => rfl
  | case2 => rfl
  | case3 c cs hc ih =>
    cases hlines : lines cs with
    | nil => exact absurd hlines (lines_ne_nil cs)
    | cons line rest =>
      rw [hlines] at ih
      simp [consFirst, hc, Option.some.inj ih]

/-- The line that a beginning of a text ends in. -/
theorem getElem?_lines (before rest : List Char) :
    (lines (before ++ rest))[before.count '\n']? =
      some (before.rtakeWhile (· ≠ '\n') ++ rest.takeWhile (· ≠ '\n')) := by
  have hhead := head?_lines rest
  rw [← List.head?_drop, drop_lines]
  cases hlines : lines rest with
  | nil => exact absurd hlines (lines_ne_nil rest)
  | cons line more =>
    rw [hlines] at hhead
    obtain rfl := Option.some.inj hhead
    rfl

end Text

/-! ## Places in their lines -/

/-- The index of a place in its line. A byte-order mark in front of the source takes no column, but
it is a character of the first line. -/
def Position.index (source : List Char) (p : Position) : Nat :=
  if p.line = 1 ∧ source.head? = some '\ufeff' then p.col else p.col - 1

example : Position.start.index ['\ufeff', ';'] = 1 := by decide

/-- The byte-order mark in front of a text that has one. -/
def Text.mark (text : List Char) : List Char :=
  if text.head? = some '\ufeff' then ['\ufeff'] else []

theorem Text.mark_append_dropMark (text : List Char) : mark text ++ Lexer.dropMark text = text := by
  unfold mark
  split
  · rename_i hmark
    obtain ⟨rest, rfl⟩ := List.head?_eq_some_iff.1 hmark
    rfl
  · rename_i hmark
    exact Lexer.dropMark_of_head hmark

/-- A character in front of a text goes on with its last line if the text has no line feed. -/
theorem Text.length_rtakeWhile_cons {c : Char} (hc : c ≠ '\n') (text : List Char) :
    ((c :: text).rtakeWhile (· ≠ '\n')).length =
      (text.rtakeWhile (· ≠ '\n')).length + if text.count '\n' = 0 then 1 else 0 := by
  induction text using List.reverseRecOn with
  | nil => simp [List.rtakeWhile, hc]
  | append_singleton text d ih =>
    rw [← List.cons_append]
    by_cases hd : d = '\n'
    · subst hd
      rw [List.rtakeWhile_concat_neg _ _ _ (by decide),
        List.rtakeWhile_concat_neg _ _ _ (by decide)]
      simp
    · rw [List.rtakeWhile_concat_pos _ _ _ (by simpa using hd),
        List.rtakeWhile_concat_pos _ _ _ (by simpa using hd), List.length_append, ih]
      have hcount : (text ++ [d]).count '\n' = text.count '\n' := by
        simp [List.count_cons_of_ne hd]
      rw [hcount, List.length_append]
      omega

/-- The characters in front of a place in its line, the mark included. -/
theorem Position.index_after (source before : List Char) :
    (start.after before).index source =
      ((Text.mark source ++ before).rtakeWhile (· ≠ '\n')).length := by
  obtain ⟨hline, hcol⟩ := isBehind_after before
  rw [index, hline, hcol]
  unfold Text.mark
  by_cases hmark : source.head? = some '\ufeff'
  · have hlength := @Text.length_rtakeWhile_cons '\ufeff' (by decide) before
    rw [if_pos hmark, List.singleton_append, hlength]
    simp only [hmark, and_true, Nat.add_eq_right]
    split <;> omega
  · rw [if_neg hmark, if_neg (fun h => hmark h.2), List.nil_append, Nat.add_sub_cancel]

/-- A line that goes on with what is no line feed goes on with its first character. -/
theorem Text.head?_takeWhile {rest : List Char} (h : rest.head? ≠ some '\n') :
    (rest.takeWhile (· ≠ '\n'))[0]? = rest.head? := by
  cases rest with
  | nil => rfl
  | cons c rest =>
    have hc : c ≠ '\n' := fun hc => h (congrArg some hc)
    simp [hc]

/-- What stands at a place of the text without a mark stands in a line of the source. -/
theorem Position.Shows.exists_line {source : List Char} {p : Position} {first? : Option Char}
    (h : p.Shows (Lexer.dropMark source) first?) :
    0 < p.line ∧ 0 < p.col ∧ ∃ row, (Text.lines source)[p.line - 1]? = some row ∧
      row[p.index source]? = first? ∧
      (first? = none → p.line = (Text.lines source).length ∧ p.index source = row.length) := by
  obtain ⟨before, rest, htext, rfl, rfl, hne⟩ := h
  have hsource := Text.mark_append_dropMark source
  have hmark : (Text.mark source).count '\n' = 0 := by
    unfold Text.mark
    split <;> rfl
  have hindex := Position.index_after source before
  rw [htext, ← List.append_assoc] at hsource
  generalize Text.mark source = mark at hsource hmark hindex
  obtain ⟨hline, hcol⟩ := Position.isBehind_after before
  have hcount : (mark ++ before).count '\n' = before.count '\n' := by
    rw [List.count_append, hmark, Nat.zero_add]
  have hlines := Text.getElem?_lines (mark ++ before) rest
  rw [hsource, hcount] at hlines
  refine ⟨by omega, by omega,
    (mark ++ before).rtakeWhile (· ≠ '\n') ++ rest.takeWhile (· ≠ '\n'), ?_, ?_, ?_⟩
  · rw [hline, Nat.add_sub_cancel]
    exact hlines
  · rw [hindex, List.getElem?_append_right (Nat.le_refl _), Nat.sub_self]
    exact Text.head?_takeWhile hne
  · intro hnone
    obtain rfl := List.head?_eq_none_iff.1 hnone
    rw [List.append_nil] at hsource
    refine ⟨?_, ?_⟩
    · rw [Text.length_lines, ← hsource, hcount, hline]
    · rw [hindex, List.takeWhile_nil, List.append_nil]

/-! ## Errors -/

/-- Only the end of input is described as such. -/
theorem TokenKind.describe_eq_iff {kind : TokenKind} :
    kind.describe = "end of input" ↔ kind = .eof := by
  refine ⟨fun h => ?_, ?_⟩
  · -- every other description begins with another character
    have hhead := congrArg (fun s => s.toList.head?) h
    cases kind with
    | eof => rfl
    | _ => simp [describe, Symbol.quoted] at hhead
  · rintro rfl
    rfl

theorem Error.annotate_eq {e : Error} {source : String} {row : List Char}
    (h : (Text.lines source.toList)[e.pos.line - 1]? = some row) :
    e.annotate source =
      String.ofList (Text.stripReturn row) ++ "\n" ++
        String.ofList (List.replicate (e.pos.col - 1) ' ') ++ "^\n" ++ "Error: " ++ e.message := by
  rw [annotate, h]
  rfl

/-- An annotated error shows what it reports. The source has the line of its place, and the message
stands below that line with a caret below the column. In the line there stands, at the column, the
first character of what is malformed, or of the token that the parser looks at; only the end of
input stands behind the last line. -/
theorem annotate_of_parse {source : String} {options : ParseOptions} {e : Error}
    (h : parse source options = .error e) :
    0 < e.pos.line ∧ 0 < e.pos.col ∧
      ∃ row, (Text.lines source.toList)[e.pos.line - 1]? = some row ∧
        e.annotate source =
          String.ofList (Text.stripReturn row) ++ "\n" ++
            String.ofList (List.replicate (e.pos.col - 1) ' ') ++ "^\n" ++ "Error: " ++ e.message ∧
        match e with
        | .lexical e =>
          ∃ c, e.fault.first? = some c ∧ row[e.pos.index source.toList]? = some c
        | .grammatical e =>
          let current := (Parser.ofString source options).readGraphs.2.current
          e.found = current.kind.describe ∧ e.pos = current.pos ∧
            if e.found = "end of input" then
              e.pos.line = (Text.lines source.toList).length ∧
                e.pos.index source.toList = row.length
            else ∃ c, current.first? = some c ∧ row[e.pos.index source.toList]? = some c := by
  have haccurate := accurate_of_parse h
  cases e with
  | lexical e =>
    obtain ⟨hshows, hsome⟩ := haccurate
    obtain ⟨c, hc⟩ := Option.ne_none_iff_exists'.1 hsome
    obtain ⟨hline, hcol, row, hlines, hfirst, -⟩ := hshows.exists_line
    rw [hc] at hfirst
    exact ⟨hline, hcol, row, hlines, Error.annotate_eq hlines, c, hc, hfirst⟩
  | grammatical e =>
    obtain ⟨hfound, hpos, hshows, heof⟩ := haccurate
    obtain ⟨hline, hcol, row, hlines, hfirst, hend⟩ := hshows.exists_line
    rw [← hpos] at hline hcol hlines hfirst hend
    refine ⟨hline, hcol, row, hlines, Error.annotate_eq hlines, hfound, hpos, ?_⟩
    rw [hfound]
    split
    · rename_i hdescribe
      exact hend (heof.1 (TokenKind.describe_eq_iff.1 hdescribe))
    · rename_i hdescribe
      have hsome : Token.first? _ ≠ none :=
        fun hnone => hdescribe (TokenKind.describe_eq_iff.2 (heof.2 hnone))
      obtain ⟨c, hc⟩ := Option.ne_none_iff_exists'.1 hsome
      rw [hc] at hfirst
      exact ⟨c, hc, hfirst⟩

/-- A semicolon in place of the second endpoint of an edge. -/
theorem annotate_of_parse_edge : ∃ e row c,
    parse "graph\x7b\na--;" ⟨128⟩ = .error e ∧
      e.annotate "graph\x7b\na--;" =
        "a--;\n   ^\nError: 2:4: expected one of identifier, '\x7b', 'subgraph', found ';'" ∧
      (Text.lines "graph\x7b\na--;".toList)[1]? = some row ∧ row[3]? = some c ∧
      (Parser.ofString "graph\x7b\na--;" ⟨128⟩).readGraphs.2.current.first? = some c := by
  have h : parse "graph\x7b\na--;" ⟨128⟩ =
      .error (.grammatical ⟨["identifier", "'\x7b'", "'subgraph'"], "';'", ⟨2, 4⟩⟩) :=
    parse_eq_of_within 40 rfl rfl
  obtain ⟨-, -, row, hrow, -, -, -, hfirst⟩ := annotate_of_parse h
  rw [if_neg (by decide)] at hfirst
  obtain ⟨c, hc, hindex⟩ := hfirst
  exact ⟨_, row, c, h, by decide, hrow, hindex, hc⟩

end DotLang
