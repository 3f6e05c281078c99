import DotLang.CommandLine

/-!
# Files in a tree

A file that is put into a tree is what its path leads to there, and what was found in the tree
apart from it is found as before. So the program answers to a file as to its text, whatever other
files there are.

* `follow_eq_ok_iff`: one step along a path.
* `follow_insert`, `follow_insert_of_apart`: what is found in a tree into which a file has been put.
* `Leads`, `find_of_leads`: paths that lead along names only, and what they name.
* `answerIn_insert`, `answerIn_insert_of_apart`: what the program answers there.
-/

namespace DotLang.CommandLine

namespace FileTree

/-- A part of a path that is the name of an entry and nothing else. -/
structure IsName (part : String) : Prop where
  ne_empty : part ≠ ""
  ne_here : part ≠ "."
  ne_up : part ≠ ".."
  size_le : part.utf8ByteSize ≤ maxNameSize

variable {tree root place : FileTree} {above : List FileTree}
  {names others rest : List String}

/-! ## One entry -/

theorem child?_setEntry (tree : FileTree) (name : String) (entry : FileTree) :
    (tree.setEntry name entry).child? name = some entry := by
  cases tree with
  | file _ => exact List.lookup_cons_self
  | directory entries => exact List.lookup_cons_self

theorem lookup_filter_of_ne {name other : String} (h : other ≠ name)
    (entries : List (String × FileTree)) :
    (entries.filter fun e => e.1 ≠ name).lookup other = entries.lookup other := by
  induction entries with
  | nil => rfl
  | cons e entries ih =>
    obtain ⟨key, entry⟩ := e
    by_cases hkey : key = name
    · have hother : (other == key) = false := by simpa [hkey] using h
      rw [List.filter_cons_of_neg (by simp [hkey]), List.lookup_cons, hother]
      exact ih
    · rw [List.filter_cons_of_pos (by simp [hkey]), List.lookup_cons, List.lookup_cons, ih]

theorem child?_setEntry_of_ne {name other : String} (h : other ≠ name) (tree entry : FileTree) :
    (tree.setEntry name entry).child? other = tree.child? other := by
  have hother : (other == name) = false := by simpa using h
  cases tree with
  | file _ => simp [setEntry, child?, List.lookup_cons, hother]
  | directory entries =>
    simp only [setEntry, child?, List.lookup_cons, hother]
    exact lookup_filter_of_ne h entries

/-- A name leads to its entry. -/
theorem follow_eq_ok_iff {name : String} (h : IsName name) :
    tree.follow above (name :: rest) = .ok place ↔
      ∃ entry, tree.child? name = some entry ∧ entry.follow (tree :: above) rest = .ok place := by
  cases tree with
  | file _ => simp [follow, child?]
  | directory entries =>
    have hsize := Nat.not_lt.2 h.size_le
    simp only [follow, h.ne_empty, h.ne_here, h.ne_up, hsize, child?, decide_false, Bool.or_self,
      Bool.false_eq_true, if_false]
    cases entries.lookup name with
    | none => simp
    | some entry => simp

/-! ## A file that is put into a tree -/

/-- No name leads out of a directory, so it does not matter where the directory is. -/
theorem follow_above (hnames : ∀ name ∈ names, IsName name)
    (h : tree.follow above names = .ok place) (above' : List FileTree) :
    tree.follow above' names = .ok place := by
  induction names generalizing tree above above' with
  | nil => exact h
  | cons name rest ih =>
    obtain ⟨hname, hrest⟩ := List.forall_mem_cons.1 hnames
    obtain ⟨entry, hentry, hfound⟩ := (follow_eq_ok_iff hname).1 h
    exact (follow_eq_ok_iff hname).2 ⟨entry, hentry, ih hrest hfound _⟩

/-- The names along which a file has been put into a tree lead to this file. -/
theorem follow_insert (hnames : ∀ name ∈ names, IsName name) (tree : FileTree)
    (content : ByteArray) (above : List FileTree) :
    (tree.insert content names).follow above names = .ok (file content) := by
  induction names generalizing tree above with
  | nil => rfl
  | cons name rest ih =>
    obtain ⟨hname, hrest⟩ := List.forall_mem_cons.1 hnames
    exact (follow_eq_ok_iff hname).2 ⟨_, child?_setEntry _ _ _, ih hrest _ _⟩

/-- What other names lead to stays where it is, unless the file is put inside it or in its way. -/
theorem follow_insert_of_apart (hothers : ∀ name ∈ others, IsName name)
    (hinside : ¬ others <+: names) (hway : ¬ names <+: others)
    (h : tree.follow above others = .ok place) (content : ByteArray) :
    (tree.insert content names).follow above others = .ok place := by
  induction names generalizing tree above others with
  | nil => exact absurd ⟨others, rfl⟩ hway
  | cons name names ih =>
    cases others with
    | nil => exact absurd ⟨name :: names, rfl⟩ hinside
    | cons other others =>
      obtain ⟨hother, hrest⟩ := List.forall_mem_cons.1 hothers
      obtain ⟨entry, hentry, hfound⟩ := (follow_eq_ok_iff hother).1 h
      refine (follow_eq_ok_iff hother).2 ?_
      by_cases hne : other = name
      · subst hne
        rw [List.prefix_cons_inj] at hinside hway
        have hentryD : tree.entryD other = entry := by rw [entryD, hentry, Option.getD_some]
        refine ⟨_, child?_setEntry _ _ _, ?_⟩
        rw [hentryD]
        exact ih hrest hinside hway (follow_above hrest hfound _)
      · refine ⟨entry, ?_, follow_above hrest hfound _⟩
        exact (child?_setEntry_of_ne hne _ _).trans hentry

/-! ## Paths -/

/-- The path leads along these names from the root on. -/
structure Leads (working : List String) (path : String) (names : List String) : Prop where
  isName : ∀ name ∈ names, IsName name
  ne_nil : names ≠ []
  size_le : path.utf8ByteSize ≤ maxPathSize
  parts_eq : parts path = "" :: names ∨ working ++ parts path = names

variable {working : List String} {path : String}

theorem Leads.empty_notMem (h : Leads working path names) : "" ∉ names :=
  fun hname => (h.isName "" hname).ne_empty rfl

theorem Leads.path_ne (h : Leads working path names) : path ≠ "" := by
  rintro rfl
  have hparts : parts "" = [""] := by decide
  rcases h.parts_eq with heq | heq
  · rw [hparts] at heq
    exact h.ne_nil (List.cons.inj heq).2.symm
  · rw [hparts] at heq
    exact h.empty_notMem (heq ▸ List.mem_append_right _ List.mem_cons_self)

/-- What a path names is what its names lead to. -/
theorem find_of_leads (h : Leads working path names) (root : FileTree) :
    root.find working path = root.follow [] names := by
  rw [find, if_neg h.path_ne, if_neg (Nat.not_lt.2 h.size_le)]
  rcases h.parts_eq with heq | heq
  · rw [heq, List.head?_cons, if_pos rfl]
    obtain ⟨name, rest, rfl⟩ := List.exists_cons_of_ne_nil h.ne_nil
    cases root with
    | file _ => rfl
    | directory entries => rfl
  · rw [if_neg, heq]
    intro hhead
    have hmem : "" ∈ parts path := List.mem_of_mem_head? hhead
    exact h.empty_notMem (heq ▸ List.mem_append_right _ hmem)

theorem parts_intercalate (hslash : ∀ name ∈ names, '/' ∉ name.toList) (hne : names ≠ []) :
    parts ("/".intercalate names) = names := by
  have hparts : ∀ part ∈ names.map String.toList, '/' ∉ part := by
    intro part hpart
    obtain ⟨name, hname, rfl⟩ := List.mem_map.1 hpart
    exact hslash name hname
  have htext : ("/".intercalate names).toList = ['/'].intercalate (names.map String.toList) :=
    String.toList_intercalate
  rw [parts, htext, List.splitOn_intercalate '/' hparts (by simpa using hne)]
  simp

/-- Names with slashes between them lead along the names of the directory first. -/
theorem leads_relative (hnames : ∀ name ∈ working ++ names, IsName name)
    (hslash : ∀ name ∈ names, '/' ∉ name.toList) (hne : names ≠ [])
    (hsize : ("/".intercalate names).utf8ByteSize ≤ maxPathSize) :
    Leads working ("/".intercalate names) (working ++ names) :=
  ⟨hnames, List.append_ne_nil_of_right_ne_nil _ hne, hsize,
    .inr (by rw [parts_intercalate hslash hne])⟩

/-- With a slash in front they lead along no others. -/
theorem leads_absolute (hnames : ∀ name ∈ names, IsName name)
    (hslash : ∀ name ∈ names, '/' ∉ name.toList) (hne : names ≠ [])
    (hsize : ("/".intercalate ("" :: names)).utf8ByteSize ≤ maxPathSize) :
    Leads working ("/".intercalate ("" :: names)) names := by
  refine ⟨hnames, hne, hsize, .inl (parts_intercalate ?_ (List.cons_ne_nil _ _))⟩
  exact List.forall_mem_cons.2 ⟨by decide, hslash⟩

/-- A path names the file that has been put where it leads. -/
theorem find_insert (h : Leads working path names) (root : FileTree) (content : ByteArray) :
    (root.insert content names).find working path = .ok (file content) := by
  rw [find_of_leads h]
  exact follow_insert h.isName root content []

/-- A path that leads elsewhere names what it has named before. -/
theorem find_insert_of_apart (h : Leads working path others) (hinside : ¬ others <+: names)
    (hway : ¬ names <+: others) (hfound : root.find working path = .ok place)
    (content : ByteArray) : (root.insert content names).find working path = .ok place := by
  rw [find_of_leads h] at hfound ⊢
  exact follow_insert_of_apart h.isName hinside hway hfound content

end FileTree

/-! ## The program in a tree of files -/

section Answers

open FileTree

variable {root place : FileTree} {working args names others : List String} {r : Request}

theorem answerIn_of_request (h : Invocation.ofArgs args = .request r) (root : FileTree) :
    answerIn root working args = r.answer (root.read working r.input) := by
  rw [answerIn, answer, h]
  rfl

/-- To a file that has been put into the tree the program answers as to its text. -/
theorem answerIn_insert (hargs : Invocation.ofArgs args = .request r)
    (hinput : Leads working r.input names) (root : FileTree) (content : ByteArray) :
    answerIn (root.insert content names) working args = r.answer (decodeFile content) := by
  rw [answerIn_of_request hargs, FileTree.read, find_insert hinput]

/-- Its answer is not changed by a file elsewhere. -/
theorem answerIn_insert_of_apart (hargs : Invocation.ofArgs args = .request r)
    (hinput : Leads working r.input others) (hinside : ¬ others <+: names)
    (hway : ¬ names <+: others) (hfound : root.find working r.input = .ok place)
    (content : ByteArray) :
    answerIn (root.insert content names) working args = answerIn root working args := by
  have hkept := find_insert_of_apart hinput hinside hway hfound content
  rw [answerIn_of_request hargs, answerIn_of_request hargs, FileTree.read, FileTree.read, hkept,
    hfound]

end Answers

end DotLang.CommandLine
