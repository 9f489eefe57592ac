import TrustPortal.GitSources.LocalDirectory

/-!
# `TrustPortal.Proofs.GitSources.Patterns`: the two readings of a pattern

`compile` reads a pattern character by character, `patternParts` part by part.
`matched_prefix` relates them: a path that a pattern matches starts with the pattern's leading
parts without wildcards. Where the pattern has no wildcard at all, the path is these parts, a
file named by a line break in the directory of that name, or the same path with a line break
at its end, which the `$` of the compiled pattern lets through.
-/

set_option autoImplicit false

namespace TrustPortal.Proofs.GitSources

open TrustPortal.GitSources

/-- The components of a path as texts. -/
def components (path : List Name) : List (List Char) := path.map Subtype.val

section
variable {tokens : List Token} {text part rest : List Char} {path names : List Name}
  {parts : List (List Char)}

/-! ## Names -/

theorem name_ne_nil (name : Name) : name.val ≠ [] := by
  have h := name.property
  simp only [isName, Bool.and_eq_true, decide_eq_true_eq] at h
  exact h.1.1.1

theorem name_not_slash (name : Name) : '/' ∉ name.val := by
  have h := name.property
  simp only [isName, Bool.and_eq_true, List.all_eq_true, decide_eq_true_eq] at h
  intro hmem
  exact (h.2 '/' hmem).1 rfl

theorem name_ne_dot (name : Name) : name.val ≠ ['.'] := by
  have h := name.property
  simp only [isName, Bool.and_eq_true, decide_eq_true_eq] at h
  exact h.1.1.2

/-- The path of some parts goes on after the first one. -/
theorem pathText_cons (part : List Char) (parts : List (List Char)) :
    pathText (part :: parts) = part ++ (if parts = [] then [] else '/' :: pathText parts) := by
  cases parts with
  | nil => simp [pathText]
  | cons second rest =>
    rw [if_neg (List.cons_ne_nil _ _), pathText, pathText, List.intercalate_cons_cons,
      List.append_assoc]
    rfl

/-- The parts of a path are read off its text. -/
theorem splitOn_pathText (hne : parts ≠ []) (h : ∀ part ∈ parts, '/' ∉ part) :
    (pathText parts).splitOn '/' = parts :=
  List.splitOn_intercalate '/' h hne

theorem components_not_slash (path : List Name) : ∀ part ∈ components path, '/' ∉ part := by
  intro part hpart
  obtain ⟨name, _, rfl⟩ := List.mem_map.mp hpart
  exact name_not_slash name

theorem components_ne_nil (h : path ≠ []) : components path ≠ [] :=
  fun hnil => h (List.map_eq_nil_iff.mp hnil)

/-- A text is the path of its parts. -/
theorem pathText_splitOn (text : List Char) : pathText (text.splitOn '/') = text :=
  List.intercalate_splitOn '/'

theorem not_slash_of_mem_splitOn {text part : List Char} (h : part ∈ text.splitOn '/') :
    '/' ∉ part := by
  induction text generalizing part with
  | nil =>
    rw [List.splitOn_nil, List.mem_singleton] at h
    subst h
    nofun
  | cons c rest ih =>
    rw [List.splitOn_cons_eq_if_modifyHead] at h
    split_ifs at h with hc
    · rcases List.mem_cons.mp h with rfl | h
      · nofun
      · exact ih h
    · cases hsplit : rest.splitOn '/' with
      | nil => exact absurd hsplit (List.splitOn_ne_nil _ _)
      | cons head parts =>
        rw [hsplit] at h ih
        rw [List.modifyHead_cons] at h
        rcases List.mem_cons.mp h with rfl | h
        · intro hmem
          rcases List.mem_cons.mp hmem with rfl | hmem
          · simp at hc
          · exact ih List.mem_cons_self hmem
        · exact ih (List.mem_cons_of_mem _ h)

theorem splitOn_append (hpart : '/' ∉ part) (rest : List Char) :
    (part ++ '/' :: rest).splitOn '/' = part :: rest.splitOn '/' := by
  rw [List.splitOn, List.splitOnP_append_cons_of_forall_mem _ _ (by simp)]
  · rfl
  · intro c hc
    simpa using fun heq : c = '/' => hpart (heq ▸ hc)

/-- A path and a text with the same first part. -/
theorem pathText_split (hne : parts ≠ []) (hparts : ∀ part ∈ parts, '/' ∉ part)
    (hpart : '/' ∉ part) (h : pathText parts = part ++ '/' :: rest) :
    ∃ later, parts = part :: later ∧ later ≠ [] ∧ rest = pathText later := by
  have hsplit := splitOn_pathText hne hparts
  rw [h, splitOn_append hpart] at hsplit
  exact ⟨rest.splitOn '/', hsplit.symm, List.splitOn_ne_nil _ _, (pathText_splitOn rest).symm⟩

theorem pathText_eq_append {name : Name} (hpart : '/' ∉ part)
    (h : pathText (components (name :: names)) = part ++ '/' :: rest) :
    name.val = part ∧ names ≠ [] ∧ rest = pathText (components names) := by
  obtain ⟨later, hlater, hne, hrest⟩ := pathText_split (components_ne_nil (List.cons_ne_nil _ _))
    (components_not_slash (name :: names)) hpart h
  obtain ⟨hname, rfl⟩ := List.cons.inj hlater
  refine ⟨hname, ?_, hrest⟩
  rintro rfl
  exact hne rfl

theorem mem_pathText {c : Char} {parts : List (List Char)} (h : c ∈ pathText parts) :
    c = '/' ∨ ∃ part ∈ parts, c ∈ part := by
  induction parts with
  | nil => cases h
  | cons part parts ih =>
    rw [pathText_cons, List.mem_append] at h
    rcases h with h | h
    · exact .inr ⟨part, List.mem_cons_self, h⟩
    · split_ifs at h
      · cases h
      · rcases List.mem_cons.mp h with rfl | h
        · exact .inl rfl
        · rcases ih h with rfl | ⟨later, hlater, hc⟩
          · exact .inl rfl
          · exact .inr ⟨later, List.mem_cons_of_mem _ hlater, hc⟩

/-! ## Literals -/

/-- A part without wildcards stands for itself. -/
theorem compile_literal (hpart : isWild part = false) (rest : List Char) :
    compile (part ++ rest) = part.map Token.literal ++ compile rest := by
  induction part with
  | nil => rfl
  | cons c part ih =>
    rw [isWild, List.any_cons, Bool.or_eq_false_iff] at hpart
    obtain ⟨hc, hpart⟩ := hpart
    simp only [Bool.or_eq_false_iff, decide_eq_false_iff_not] at hc
    rw [List.cons_append, compile.eq_5, ih hpart]
    · rfl
    · rintro _ rfl
      exact absurd rfl hc.1.1
    · rintro _ rfl
      exact absurd rfl hc.1.1
    · rintro rfl
      exact absurd rfl hc.1.1
    · rintro rfl
      exact absurd rfl hc.1.2

/-- A text that literals match starts with them. -/
theorem matchTokens_literal
    (h : matchTokens (part.map Token.literal ++ tokens) text = true) :
    ∃ rest, text = part ++ rest ∧ matchTokens tokens rest = true := by
  induction part generalizing text with
  | nil => exact ⟨text, rfl, h⟩
  | cons c part ih =>
    rw [List.map_cons, List.cons_append, matchTokens, List.any_eq_true] at h
    obtain ⟨rest, hrest, hmatch⟩ := h
    cases text with
    | nil => cases hrest
    | cons d text =>
      rw [Token.rests] at hrest
      split_ifs at hrest with hd
      · rw [List.mem_singleton] at hrest
        subst hrest hd
        obtain ⟨after, rfl, hafter⟩ := ih hmatch
        exact ⟨after, rfl, hafter⟩
      · cases hrest

/-! ## Parts -/

/-- The first part of a pattern and what follows it. -/
theorem pattern_cases (pattern : List Char) :
    ∃ part, '/' ∉ part ∧ (pattern = part ∨ ∃ rest, pattern = part ++ '/' :: rest) := by
  refine ⟨pattern.takeWhile fun c => c ≠ '/', ?_, ?_⟩
  · intro hmem
    have h := List.mem_takeWhile_imp hmem
    simp at h
  · have happend := List.takeWhile_append_dropWhile (p := fun c => decide (c ≠ '/')) (l := pattern)
    cases hrest : pattern.dropWhile fun c => decide (c ≠ '/') with
    | nil =>
      rw [hrest, List.append_nil] at happend
      exact .inl happend.symm
    | cons c rest =>
      have hc := List.head?_dropWhile_not (fun c => decide (c ≠ '/')) pattern
      rw [hrest, List.head?_cons] at hc
      obtain rfl : c = '/' := by simpa using hc
      rw [hrest] at happend
      exact .inr ⟨rest, happend.symm⟩

theorem patternParts_last (hpart : '/' ∉ part) :
    patternParts part = if part = [] then [] else [part] := by
  have hsplit : part.splitOn '/' = [part] := by
    have h := @splitOn_pathText [part] (List.cons_ne_nil _ _) (by simpa using hpart)
    rwa [pathText, List.intercalate_singleton] at h
  rw [patternParts, hsplit]
  split_ifs with hnil <;> simp [hnil]

theorem patternParts_append (hpart : '/' ∉ part) (rest : List Char) :
    patternParts (part ++ '/' :: rest)
      = (if part = [] then [] else [part]) ++ patternParts rest := by
  rw [patternParts, splitOn_append hpart, List.filter_cons, patternParts]
  split_ifs with h1 h2 h3 <;> simp_all

/-- What a matched path has to do with the pattern's leading parts without wildcards. -/
def Follows (pattern : List Char) (path : List Name) : Prop :=
  if (literalParts pattern).length = (patternParts pattern).length then
    components path = literalParts pattern
      ∨ (∃ name, components path = literalParts pattern ++ [name])
      ∨ literalParts pattern ≠ []
        ∧ pathText (components path) = pathText (literalParts pattern) ++ ['\n']
  else ∃ below, below ≠ [] ∧ components path = literalParts pattern ++ below

/-- The leading parts of a pattern whose first part has no wildcard. -/
theorem literalParts_append (hpart : '/' ∉ part) (hne : part ≠ []) (hliteral : isWild part = false)
    (rest : List Char) : literalParts (part ++ '/' :: rest) = part :: literalParts rest := by
  rw [literalParts, patternParts_append hpart, if_neg hne, List.singleton_append,
    List.takeWhile_cons_of_pos (by simp [hliteral])]
  rfl

/-- A pattern whose first part has a wildcard has no leading parts. -/
theorem literalParts_wild (hpart : '/' ∉ part) (hwild : isWild part = true) {pattern : List Char}
    (h : pattern = part ∨ ∃ rest, pattern = part ++ '/' :: rest) :
    literalParts pattern = [] ∧ patternParts pattern ≠ [] := by
  have hne : part ≠ [] := by
    rintro rfl
    cases hwild
  have hparts : ∃ others, patternParts pattern = part :: others := by
    rcases h with rfl | ⟨rest, rfl⟩
    · exact ⟨[], by rw [patternParts_last hpart, if_neg hne]⟩
    · exact ⟨_, by rw [patternParts_append hpart, if_neg hne, List.singleton_append]⟩
  obtain ⟨others, hparts⟩ := hparts
  rw [literalParts, hparts, List.takeWhile_cons_of_neg (by simp [hwild])]
  exact ⟨rfl, List.cons_ne_nil _ _⟩

private theorem components_of_text (hpath : path ≠ []) (htext : '/' ∉ text)
    (h : pathText (components path) = text) : components path = [text] := by
  have hsplit := splitOn_pathText (components_ne_nil hpath) (components_not_slash path)
  have hone : text.splitOn '/' = [text] := by
    have hjoin := @splitOn_pathText [text] (List.cons_ne_nil _ _) (by simpa using htext)
    rwa [pathText, List.intercalate_singleton] at hjoin
  rw [← hsplit, h, hone]

/-- **The readings agree.** A path that a pattern matches follows the pattern's leading parts. -/
theorem matched_prefix {pattern : List Char} (hpath : path ≠ [])
    (h : matchTokens (compile pattern) (pathText (components path)) = true) :
    Follows pattern path := by
  -- By induction on the length: a part without wildcards is the path's first name.
  induction hlength : pattern.length using Nat.strongRecOn generalizing pattern path with
  | ind length ih =>
    obtain ⟨part, hpart, hpattern⟩ := pattern_cases pattern
    cases hwild : isWild part with
    | true =>
      obtain ⟨hliteral, hparts⟩ := literalParts_wild hpart hwild hpattern
      rw [Follows, hliteral, if_neg]
      · exact ⟨components path, components_ne_nil hpath, rfl⟩
      · exact fun heq => hparts (List.eq_nil_of_length_eq_zero heq.symm)
    | false =>
      rcases hpattern with rfl | ⟨rest, rfl⟩
      · have hcompile := compile_literal hwild []
        rw [List.append_nil] at hcompile
        rw [hcompile] at h
        obtain ⟨after, htext, hafter⟩ := matchTokens_literal h
        rw [compile, matchTokens, Bool.or_eq_true, decide_eq_true_eq, decide_eq_true_eq] at hafter
        have hliteral : literalParts pattern = patternParts pattern := by
          rw [literalParts, patternParts_last hpart]
          split_ifs
          · rfl
          · rw [List.takeWhile_cons_of_pos (by simp [hwild])]
            rfl
        rw [Follows, hliteral, if_pos rfl, patternParts_last hpart]
        rcases hafter with rfl | rfl
        · rw [List.append_nil] at htext
          have hcomponents := components_of_text hpath hpart htext
          split_ifs with hnil
          · exact .inr (.inl ⟨pattern, hcomponents⟩)
          · exact .inl hcomponents
        · split_ifs with hnil
          · rw [hnil] at htext
            exact .inr (.inl ⟨['\n'], components_of_text hpath (by decide) htext⟩)
          · refine .inr (.inr ⟨List.cons_ne_nil _ _, ?_⟩)
            rw [htext, pathText, List.intercalate_singleton]
      · obtain ⟨name, names, rfl⟩ := List.exists_cons_of_ne_nil hpath
        rw [compile_literal hwild] at h
        obtain ⟨after, htext, hafter⟩ := matchTokens_literal h
        have hslash : compile ('/' :: rest) = .literal '/' :: compile rest := rfl
        rw [hslash] at hafter
        obtain ⟨below, rfl, hbelow⟩ := @matchTokens_literal _ _ ['/'] hafter
        obtain ⟨hname, hnames, rfl⟩ := pathText_eq_append hpart htext
        have hne : part ≠ [] := hname ▸ name_ne_nil name
        have hfollows := ih rest.length (by rw [← hlength]; simp; omega) hnames hbelow rfl
        have hcomponents : components (name :: names) = part :: components names := by
          rw [← hname]
          rfl
        rw [Follows] at hfollows
        rw [Follows, literalParts_append hpart hne hwild, patternParts_append hpart, if_neg hne,
          List.singleton_append, List.length_cons, List.length_cons, hcomponents]
        split_ifs at hfollows with hsame
        · rw [if_pos (by rw [hsame])]
          rcases hfollows with hfollows | ⟨last, hfollows⟩ | ⟨hliteral, hfollows⟩
          · exact .inl (by rw [hfollows])
          · exact .inr (.inl ⟨last, by rw [hfollows, List.cons_append]⟩)
          · refine .inr (.inr ⟨List.cons_ne_nil _ _, ?_⟩)
            rw [pathText_cons, pathText_cons, if_neg (components_ne_nil hnames), if_neg hliteral,
              hfollows, List.append_assoc, List.cons_append]
        · rw [if_neg (by omega)]
          obtain ⟨below, hbelow, hfollows⟩ := hfollows
          exact ⟨below, hbelow, by rw [hfollows, List.cons_append]⟩

end

end TrustPortal.Proofs.GitSources
