import TrustPortal.Proofs.GitSources.Patterns

/-!
# `TrustPortal.Proofs.GitSources.LocalWalk`: which mapped files a scan lists

`LocalDirectoryProvider` walks what its plan says and nothing else, so a mapped file is listed
when some pattern's part of the plan walks it. `listed_iff` says which files a plan walks and
`complete_iff` when these are all the mapped ones. The plan takes a pattern of one part for one
about the root's own files. `**` is such a pattern, and it matches every file.
-/

set_option autoImplicit false

namespace TrustPortal.Proofs.GitSources

open TrustPortal.GitSources

/-! ## What the walk is for -/

/-- A path where the provider reads a file: one in a real directory, or there a symbolic link to a
file in the root, outside `.git`. -/
def IsFile (root : Entries) (path : List Name) : Prop :=
  match Node.get (.directory root) path with
  | some (.file _) => True
  | some (.link (some names)) =>
    (∃ content, Node.get (.directory root) names = some (.file content))
      ∧ ∀ name ∈ names, isGitComponent name.val = false
  | _ => False

/-- A path outside `.git` and the skipped names. -/
def Outside (path : List Name) : Prop := ∀ name ∈ path, skip name.val = false

/-- The pattern of some mapping matches a path. -/
def Mapped (patterns : List String) (path : List Name) : Prop :=
  ∃ pattern ∈ patterns, pathMatches (String.ofList (pathText (components path))) pattern = true

/-- The manifest of a scan has a path. -/
def Listed (digest : List UInt8 → String) (root : Entries) (patterns : List String)
    (rel : List Char) : Prop :=
  rel ∈ (scan digest root (some patterns)).map Prod.fst

/-- No mapped file is missing from the manifest, and every path in the manifest is a file's. -/
def Complete (digest : List UInt8 → String) (root : Entries) (patterns : List String) : Prop :=
  (∀ path, IsFile root path → Outside path → Mapped patterns path →
    Listed digest root patterns (pathText (components path)))
  ∧ ∀ rel, Listed digest root patterns rel → ∃ content, safePath root rel = some content

/-! ## What a pattern walks -/

/-- The parts that are left of a path when its `.` parts go. -/
def dotless (parts : List (List Char)) : List (List Char) := parts.filter fun part => part ≠ ['.']

/-- The pattern has no wildcard. -/
abbrev IsLiteral (pattern : List Char) : Prop :=
  (literalParts pattern).length = (patternParts pattern).length

/-- The paths that are walked for a pattern. Without wildcards these are its own path and the
files of the directory of that name, with leading parts all that is below these, and with a
wildcard in its only part the root's own files. -/
def Walks (pattern : List Char) (path : List Name) : Prop :=
  if IsLiteral pattern then
    components path = literalParts pattern
      ∨ ∃ name, components path = dotless (literalParts pattern) ++ [name]
  else if literalParts pattern ≠ [] then
    components path = literalParts pattern
      ∨ ∃ below, below ≠ [] ∧ components path = dotless (literalParts pattern) ++ below
  else (patternParts pattern).length = 1 → path.length = 1

/-- The paths that a pattern may match and does not walk. It has a wildcard in its only part and
the path has a directory, or it has no wildcard and the path is its own with a line break. -/
def Slips (pattern : List Char) (path : List Name) : Prop :=
  if IsLiteral pattern then
    pathText (components path) = pathText (literalParts pattern) ++ ['\n']
  else literalParts pattern = [] ∧ (patternParts pattern).length = 1 ∧ path.length ≠ 1

section
variable {root : Entries} {path names below : List Name} {node : Node} {recursive : Bool}
  {digest : List UInt8 → String} {patterns : List String} {rel : List Char}
  {manifest : Manifest}

/-! ## Paths in a tree -/

theorem get_append (node : Node) (names below : List Name) :
    node.get (names ++ below) = (node.get names).bind fun found => found.get below := by
  induction names generalizing node with
  | nil => rfl
  | cons name names ih =>
    show (node.child name.val).bind _ = ((node.child name.val).bind _).bind _
    rw [Option.bind_assoc]
    congr 1
    funext entry
    exact ih entry.2

/-- The entry of a directory has the name that it is looked up by. -/
theorem child_name {name : Name} {entry : Name × Node} (h : node.child name.val = some entry) :
    entry.1 = name := by
  cases node with
  | directory entries => exact Subtype.ext (by simpa using List.find?_some h)
  | file content => cases h
  | link target => cases h

/-- A path through real directories resolves to itself. -/
theorem resolve_steps {here : List Name × Node} (hget : here.2.get names = some node)
    (hlink : ∀ target, node ≠ .link target) :
    (components names).foldlM (resolveStep root) here = some (here.1 ++ names, node) := by
  induction names generalizing here with
  | nil =>
    obtain ⟨at_, found⟩ := here
    cases hget
    rw [List.append_nil]
    rfl
  | cons name names ih =>
    obtain ⟨entry, hchild, hbelow⟩ := Option.bind_eq_some_iff.mp hget
    obtain rfl := child_name hchild
    have hstep : resolveStep root here entry.1.val = some (here.1 ++ [entry.1], entry.2) := by
      obtain ⟨name, found⟩ := entry
      cases found with
      | file content => rw [resolveStep, hchild]
      | directory entries => rw [resolveStep, hchild]
      | link target =>
        -- A link is the end of the path, and the path does not end in one.
        cases names with
        | nil =>
          cases hbelow
          exact absurd rfl (hlink target)
        | cons _ _ => cases hbelow
    show (resolveStep root here entry.1.val).bind _ = _
    rw [hstep]
    show (components names).foldlM (resolveStep root) (here.1 ++ [entry.1], entry.2) = _
    rw [@ih (here.1 ++ [entry.1], entry.2) hbelow, List.append_assoc, List.singleton_append]

theorem resolve_get (hget : Node.get (.directory root) names = some node)
    (hlink : ∀ target, node ≠ .link target) :
    resolve root (components names) = some (names, node) :=
  @resolve_steps root names node ([], .directory root) hget hlink

/-- A symbolic link resolves to what it stands for. -/
theorem resolve_link {target : List Name}
    (hget : Node.get (.directory root) path = some (.link (some target)))
    (htarget : Node.get (.directory root) target = some node) :
    resolve root (components path) = some (target, node) := by
  rcases List.eq_nil_or_concat path with rfl | ⟨init, last, hpath⟩
  · cases hget
  · rw [List.concat_eq_append] at hpath
    subst hpath
    rw [get_append] at hget
    obtain ⟨parent, hinit, hlast⟩ := Option.bind_eq_some_iff.mp hget
    obtain ⟨entry, hchild, hentry⟩ := Option.bind_eq_some_iff.mp hlast
    obtain ⟨name, found⟩ := entry
    cases hentry
    have hparent : ∀ target, parent ≠ .link target := by
      rintro target rfl
      cases hchild
    rw [resolve, components, List.map_append, List.foldlM_append]
    show (resolve root (components init)).bind _ = _
    rw [resolve_get hinit hparent]
    show (resolveStep root (init, parent) last.val).bind _ = _
    rw [resolveStep, hchild]
    show ((Node.get (.directory root) target).map _).bind _ = _
    rw [htarget]
    rfl

/-! ## Files -/

theorem isFile_ne_nil (hfile : IsFile root path) : path ≠ [] := by
  rintro rfl
  exact hfile

theorem isGit_of_skip {name : List Char} (h : skip name = false) : isGitComponent name = false := by
  rw [skip, Bool.or_eq_false_iff] at h
  exact h.1

/-- The path of names is one that the provider takes. -/
theorem isRepoPath_components (hne : path ≠ []) :
    isRepoPath (pathText (components path)) = true := by
  have hnames : ∀ part ∈ components path, isName part = true := by
    intro part hpart
    obtain ⟨name, _, rfl⟩ := List.mem_map.mp hpart
    exact name.property
  obtain ⟨name, names, rfl⟩ := List.exists_cons_of_ne_nil hne
  have hcons : pathText (components (name :: names)) = name.val
      ++ (if components names = [] then [] else '/' :: pathText (components names)) :=
    pathText_cons name.val (components names)
  obtain ⟨c, rest, hname⟩ := List.exists_cons_of_ne_nil (name_ne_nil name)
  rw [isRepoPath, splitOn_pathText (components_ne_nil hne) (components_not_slash _)]
  simp only [Bool.and_eq_true, decide_eq_true_eq, Bool.not_eq_true', List.all_eq_true]
  refine ⟨⟨⟨?_, ?_⟩, ?_⟩, ?_⟩
  · rw [hcons, hname]
    exact List.cons_ne_nil _ _
  · rw [List.contains_eq_mem, decide_eq_false_iff_not]
    intro hmem
    rcases mem_pathText hmem with heq | ⟨part, hpart, hc⟩
    · cases heq
    · have h := hnames part hpart
      simp only [isName, Bool.and_eq_true, List.all_eq_true, decide_eq_true_eq] at h
      exact (h.2 _ hc).2 rfl
  · rw [hcons, hname, List.cons_append, List.head?_cons]
    intro heq
    cases heq
    exact name_not_slash name (hname ▸ List.mem_cons_self)
  · intro part hpart
    have h := hnames part hpart
    simp only [isName, Bool.and_eq_true, decide_eq_true_eq] at h
    exact ⟨⟨h.1.1.1, h.1.1.2⟩, h.1.2⟩

/-- What is at such a path is a file or a link that is not to a directory. -/
theorem get_isFile (hfile : IsFile root path) :
    ∃ node, Node.get (.directory root) path = some node
      ∧ ((∃ content, node = .file content)
        ∨ ∃ target, node = .link target ∧ isDirectoryLink root target = false) := by
  rw [IsFile] at hfile
  split at hfile
  · rename_i content hget
    exact ⟨_, hget, .inl ⟨content, rfl⟩⟩
  · rename_i target hget
    obtain ⟨⟨content, htarget⟩, _⟩ := hfile
    refine ⟨_, hget, .inr ⟨_, rfl, ?_⟩⟩
    rw [isDirectoryLink, Option.bind_some, htarget]
  · exact hfile.elim

/-- Such a path resolves to a file in the root, outside `.git`. -/
theorem resolve_isFile (hfile : IsFile root path) :
    ∃ names content, resolve root (components path) = some (names, .file content)
      ∧ (Outside path → ∀ name ∈ names, isGitComponent name.val = false) := by
  rw [IsFile] at hfile
  split at hfile
  · rename_i content hget
    exact ⟨path, content, resolve_get hget (by nofun),
      fun hout name hname => isGit_of_skip (hout name hname)⟩
  · rename_i target hget
    obtain ⟨⟨content, htarget⟩, hnames⟩ := hfile
    exact ⟨target, content, resolve_link hget htarget, fun _ => hnames⟩
  · exact hfile.elim

/-- A node with something below it is a directory. -/
theorem directory_of_get {found : Node} (hne : names ≠ []) (h : node.get names = some found) :
    ∃ entries, node = .directory entries := by
  cases names with
  | nil => exact absurd rfl hne
  | cons name names =>
    cases node with
    | directory entries => exact ⟨entries, rfl⟩
    | file content => cases h
    | link target => cases h

/-- The provider reads every such file. -/
theorem safePath_isFile (hfile : IsFile root path) (hout : Outside path) :
    ∃ content, safePath root (pathText (components path)) = some content := by
  have hne := isFile_ne_nil hfile
  have hsplit : (pathText (components path)).splitOn '/' = components path :=
    splitOn_pathText (components_ne_nil hne) (components_not_slash path)
  have hgit : (components path).any isGitComponent = false := by
    rw [List.any_eq_false]
    intro part hpart
    obtain ⟨name, hname, rfl⟩ := List.mem_map.mp hpart
    rw [Bool.not_eq_true]
    exact isGit_of_skip (hout name hname)
  obtain ⟨names, content, hresolve, hnames⟩ := resolve_isFile hfile
  rw [safePath, isRepoPath_components hne, hsplit, hgit, if_pos (by rfl), hresolve]
  refine ⟨content, if_neg ?_⟩
  rw [Bool.not_eq_true, List.any_eq_false]
  exact fun name hname => by rw [hnames hout name hname]; simp

/-! ## What `os.walk` finds -/

theorem mem_walk {entries : Entries} :
    names ∈ walk root recursive entries
      ↔ ∃ entry ∈ entries, names ∈ entry.2.walk root recursive entry.1 := by
  induction entries with
  | nil => simp [walk]
  | cons entry rest ih =>
    obtain ⟨name, node⟩ := entry
    rw [walk, List.mem_append, ih]
    simp

/-- The walk finds the files that are not below a skipped name, in the directory itself or, where
it goes on, anywhere below it. -/
theorem walk_finds {entries : Entries}
    (hget : Node.get (.directory entries) below = some node)
    (hnode : (∃ content, node = .file content)
      ∨ ∃ target, node = .link target ∧ isDirectoryLink root target = false)
    (hout : Outside below) (hdepth : recursive = true ∨ below.length = 1) :
    below ∈ walk root recursive entries := by
  -- By induction on the path below the directory.
  induction below generalizing entries with
  | nil =>
    cases hget
    rcases hnode with ⟨_, heq⟩ | ⟨_, heq, _⟩ <;> cases heq
  | cons name names ih =>
    obtain ⟨entry, hchild, hbelow⟩ := Option.bind_eq_some_iff.mp hget
    have hmem : entry ∈ entries := List.mem_of_find?_eq_some hchild
    obtain rfl := child_name hchild
    have hgit : isGitComponent entry.1.val = false :=
      isGit_of_skip (hout entry.1 List.mem_cons_self)
    refine mem_walk.mpr ⟨entry, hmem, ?_⟩
    cases hentry : entry.2 with
    | file content =>
      rw [hentry] at hbelow
      cases names with
      | nil => simp [Node.walk, hgit]
      | cons _ _ => cases hbelow
    | link target =>
      rw [hentry] at hbelow
      cases names with
      | nil =>
        cases hbelow
        rcases hnode with ⟨_, heq⟩ | ⟨target, heq, hlink⟩
        · cases heq
        · cases heq
          simp [Node.walk, hgit, hlink]
      | cons _ _ => cases hbelow
    | directory inner =>
      rw [hentry] at hbelow
      have hnames : names ≠ [] := by
        rintro rfl
        cases hbelow
        rcases hnode with ⟨_, heq⟩ | ⟨_, heq, _⟩ <;> cases heq
      have hrecursive : recursive = true := by
        rcases hdepth with hdepth | hdepth
        · exact hdepth
        · rw [List.length_cons] at hdepth
          exact absurd (List.eq_nil_of_length_eq_zero (by omega)) hnames
      have hskip : skip entry.1.val = false := hout entry.1 List.mem_cons_self
      have hinner := ih hbelow (fun name hname => hout name (List.mem_cons_of_mem _ hname))
        (.inl hrecursive)
      rw [Node.walk, if_pos (by simp [hrecursive, hskip])]
      exact List.mem_map.mpr ⟨names, hinner, rfl⟩

/-- What the walk finds is in the directory, and in no other where it does not go on. -/
theorem walk_found {entries : Entries} (h : below ∈ walk root recursive entries) :
    below ≠ [] ∧ (recursive = true ∨ below.length = 1) := by
  obtain ⟨entry, _, hentry⟩ := mem_walk.mp h
  obtain ⟨name, node⟩ := entry
  cases node with
  | file content =>
    rw [Node.walk] at hentry
    split_ifs at hentry
    · cases hentry
    · obtain rfl := List.mem_singleton.mp hentry
      exact ⟨List.cons_ne_nil _ _, .inr rfl⟩
  | link target =>
    rw [Node.walk] at hentry
    split_ifs at hentry
    · cases hentry
    · obtain rfl := List.mem_singleton.mp hentry
      exact ⟨List.cons_ne_nil _ _, .inr rfl⟩
  | directory inner =>
    rw [Node.walk] at hentry
    split_ifs at hentry with hgo
    · obtain ⟨names, _, rfl⟩ := List.mem_map.mp hentry
      rw [Bool.and_eq_true] at hgo
      exact ⟨List.cons_ne_nil _ _, .inl hgo.1⟩
    · cases hentry

/-! ## What a scan lists -/

/-- The paths that one path of the plan offers to the manifest. -/
def candidates (root : Entries) (entry : List Char × Bool) : List (List Char) :=
  if (startParts entry.1).any skip then []
  else match resolve root (startParts entry.1) with
    | some (_, .directory entries) =>
      (walk root entry.2 entries).map fun names => pathText (startParts entry.1 ++ components names)
    | _ => [entry.1]

theorem scanStart_candidates (entry : List Char × Bool) :
    scanStart digest root manifest entry
      = (candidates root entry).foldl (Manifest.add digest root) manifest := by
  rw [scanStart, candidates]
  split_ifs
  · rfl
  · cases resolve root (startParts entry.1) with
    | none => rfl
    | some found =>
      obtain ⟨names, node⟩ := found
      cases node with
      | file content => rfl
      | link target => rfl
      | directory entries => exact List.foldl_map.symm

theorem mem_add {added : List Char} :
    rel ∈ (manifest.add digest root added).map Prod.fst
      ↔ rel ∈ manifest.map Prod.fst ∨ rel = added ∧ (safePath root rel).isSome = true := by
  rw [Manifest.add]
  cases hsafe : safePath root added with
  | none =>
    refine ⟨.inl, ?_⟩
    rintro (h | ⟨rfl, h⟩)
    · exact h
    · rw [hsafe] at h
      cases h
  | some content =>
    by_cases heq : rel = added
    · subst heq
      simp [hsafe]
    · simp [heq, List.mem_map]

theorem mem_foldl_add (added : List (List Char)) :
    rel ∈ (added.foldl (Manifest.add digest root) manifest).map Prod.fst
      ↔ rel ∈ manifest.map Prod.fst ∨ rel ∈ added ∧ (safePath root rel).isSome = true := by
  induction added generalizing manifest with
  | nil => simp
  | cons first added ih =>
    rw [List.foldl_cons, ih, mem_add, List.mem_cons]
    tauto

theorem mem_scan (plan : List (List Char × Bool)) :
    rel ∈ (plan.foldl (scanStart digest root) manifest).map Prod.fst
      ↔ rel ∈ manifest.map Prod.fst
        ∨ (∃ entry ∈ plan, rel ∈ candidates root entry) ∧ (safePath root rel).isSome = true := by
  induction plan generalizing manifest with
  | nil => simp
  | cons entry plan ih =>
    rw [List.foldl_cons, ih, scanStart_candidates, mem_foldl_add]
    simp only [List.mem_cons, exists_eq_or_imp]
    tauto

/-- A path of the plan walks a path: it is the path itself, or a directory above it. -/
def Covers (entry : List Char × Bool) (path : List Name) : Prop :=
  entry.1 ≠ [] ∧ pathText (components path) = entry.1
    ∨ ∃ below, below ≠ [] ∧ components path = startParts entry.1 ++ below
      ∧ (entry.2 = true ∨ below.length = 1)

theorem startParts_pathText (hne : path ≠ []) :
    startParts (pathText (components path)) = components path := by
  rw [startParts, splitOn_pathText (components_ne_nil hne) (components_not_slash path)]
  refine List.filter_eq_self.mpr ?_
  intro part hpart
  obtain ⟨name, _, rfl⟩ := List.mem_map.mp hpart
  simp [name_ne_nil name, name_ne_dot name]

theorem startParts_not_slash (start : List Char) : ∀ part ∈ startParts start, '/' ∉ part :=
  fun _ hpart => not_slash_of_mem_splitOn (List.mem_filter.mp hpart).1

theorem pathText_ne_nil (hne : path ≠ []) : pathText (components path) ≠ [] := by
  have h := isRepoPath_components hne
  intro hnil
  rw [hnil] at h
  cases h

/-- A file outside the skipped names is offered by the paths of the plan that walk it. -/
theorem mem_candidates (hfile : IsFile root path) (hout : Outside path)
    (entry : List Char × Bool) :
    pathText (components path) ∈ candidates root entry ↔ Covers entry path := by
  have hne := isFile_ne_nil hfile
  have hskip : ∀ {names : List Name}, (∀ name ∈ names, name ∈ path) →
      (components names).any skip = false := by
    intro names hnames
    rw [List.any_eq_false]
    intro part hpart
    obtain ⟨name, hname, rfl⟩ := List.mem_map.mp hpart
    rw [hout name (hnames name hname)]
    simp
  constructor
  · intro h
    rw [candidates] at h
    split_ifs at h
    · cases h
    · have hself : pathText (components path) ∈ [entry.1] → Covers entry path := by
        intro hmem
        rw [List.mem_singleton] at hmem
        exact .inl ⟨hmem ▸ pathText_ne_nil hne, hmem⟩
      cases hresolve : resolve root (startParts entry.1) with
      | none =>
        rw [hresolve] at h
        exact hself h
      | some found =>
        obtain ⟨at_, node⟩ := found
        rw [hresolve] at h
        cases node with
        | file content => exact hself h
        | link target => exact hself h
        | directory entries =>
          obtain ⟨names, hwalk, htext⟩ := List.mem_map.mp h
          obtain ⟨hnames, hdepth⟩ := walk_found hwalk
          have hparts := splitOn_pathText
            (List.append_ne_nil_of_right_ne_nil (startParts entry.1) (components_ne_nil hnames))
            (List.forall_mem_append.mpr ⟨startParts_not_slash entry.1, components_not_slash names⟩)
          rw [htext, splitOn_pathText (components_ne_nil hne) (components_not_slash path)] at hparts
          refine .inr ⟨components names, components_ne_nil hnames, hparts, ?_⟩
          rwa [components, List.length_map]
  · rintro (⟨hstart, htext⟩ | ⟨below, hbelow, hparts, hdepth⟩)
    · -- The path itself: it resolves to a file.
      have hparts : startParts entry.1 = components path := by rw [← htext, startParts_pathText hne]
      rw [candidates, hparts, if_neg (by rw [hskip fun _ hname => hname]; simp)]
      obtain ⟨names, content, hresolve, _⟩ := resolve_isFile hfile
      rw [hresolve]
      exact List.mem_singleton.mpr htext
    · -- A directory above it: it resolves to a directory, and the walk finds the rest.
      obtain ⟨init, rest, rfl, hinit, hrest⟩ := List.map_eq_append_iff.mp hparts
      change components init = _ at hinit
      have hrestne : rest ≠ [] := by
        rintro rfl
        exact hbelow hrest.symm
      obtain ⟨node, hget, hnode⟩ := get_isFile hfile
      rw [get_append] at hget
      obtain ⟨parent, hparent, hbelow⟩ := Option.bind_eq_some_iff.mp hget
      obtain ⟨entries, rfl⟩ := directory_of_get hrestne hbelow
      rw [candidates, ← hinit,
        if_neg (by rw [hskip fun _ hname => List.mem_append_left _ hname]; simp),
        resolve_get hparent (by nofun)]
      refine List.mem_map.mpr ⟨rest, walk_finds hbelow hnode ?_ ?_, ?_⟩
      · exact fun name hname => hout name (List.mem_append_right _ hname)
      · rwa [← hrest, List.length_map] at hdepth
      · rw [components, components, components, List.map_append]

/-! ## The plan of a list of patterns -/

/-- A list of patterns has a plan of its own unless one of them walks the whole root. -/
theorem mapM_planEntry (patterns : List String) :
    match patterns.mapM fun pattern => planEntry pattern.toList with
    | none => ∃ pattern ∈ patterns, planEntry pattern.toList = none
    | some plan => (∀ pattern ∈ patterns, planEntry pattern.toList ≠ none)
      ∧ ∀ entry, entry ∈ plan ↔ ∃ pattern ∈ patterns, planEntry pattern.toList = some entry := by
  induction patterns with
  | nil => simp
  | cons pattern patterns ih =>
    rw [List.mapM_cons]
    cases hentry : planEntry pattern.toList with
    | none => exact ⟨pattern, List.mem_cons_self, hentry⟩
    | some entry =>
      cases hplan : patterns.mapM fun pattern => planEntry pattern.toList with
      | none =>
        rw [hplan] at ih
        obtain ⟨later, hlater, hnone⟩ := ih
        exact ⟨later, List.mem_cons_of_mem _ hlater, hnone⟩
      | some plan =>
        rw [hplan] at ih
        show (∀ p ∈ pattern :: patterns, planEntry p.toList ≠ none)
          ∧ ∀ e, e ∈ entry :: plan ↔ ∃ p ∈ pattern :: patterns, planEntry p.toList = some e
        refine ⟨List.forall_mem_cons.mpr ⟨by rw [hentry]; nofun, ih.1⟩, fun e => ?_⟩
        rw [List.mem_cons, ih.2 e]
        simp only [List.mem_cons, exists_eq_or_imp, hentry, Option.some.injEq]
        rw [@eq_comm _ e entry]

theorem mem_walkPlan {entry : List Char × Bool} :
    entry ∈ walkPlan (some patterns)
      ↔ (∃ pattern ∈ patterns, planEntry pattern.toList = none) ∧ entry = ([], true)
        ∨ (∀ pattern ∈ patterns, planEntry pattern.toList ≠ none)
          ∧ ∃ pattern ∈ patterns, planEntry pattern.toList = some entry := by
  have h := mapM_planEntry patterns
  rw [walkPlan]
  cases hplan : patterns.mapM fun pattern => planEntry pattern.toList with
  | none =>
    rw [hplan] at h
    obtain ⟨pattern, hpattern, hnone⟩ := h
    simp only [List.mem_singleton]
    constructor
    · exact fun heq => .inl ⟨⟨pattern, hpattern, hnone⟩, heq⟩
    · rintro (⟨_, heq⟩ | ⟨hall, _⟩)
      · exact heq
      · exact absurd hnone (hall pattern hpattern)
  | some plan =>
    rw [hplan] at h
    simp only [List.mem_insertionSort, List.mem_dedup, h.2 entry]
    constructor
    · exact fun hmem => .inr ⟨h.1, hmem⟩
    · rintro (⟨⟨pattern, hpattern, hnone⟩, _⟩ | ⟨_, hmem⟩)
      · exact absurd hnone (h.1 pattern hpattern)
      · exact hmem

/-- The leading parts of a pattern are read back from their path, the `.` parts aside. -/
theorem startParts_literalParts (pattern : List Char) :
    startParts (pathText (literalParts pattern)) = dotless (literalParts pattern) := by
  have hparts : ∀ part ∈ literalParts pattern, '/' ∉ part ∧ part ≠ [] := by
    intro part hpart
    have hmem := List.mem_filter.mp (List.takeWhile_subset _ hpart)
    exact ⟨not_slash_of_mem_splitOn hmem.1, by simpa using hmem.2⟩
  by_cases hnil : literalParts pattern = []
  · rw [hnil]
    decide
  · rw [startParts, splitOn_pathText hnil fun part hpart => (hparts part hpart).1, dotless]
    refine List.filter_congr fun part hpart => ?_
    simp [(hparts part hpart).2]

/-- The path of the leading parts is that of a file when they are its components. -/
theorem text_eq_literal (hne : path ≠ []) (pattern : List Char) :
    pathText (literalParts pattern) ≠ [] ∧ pathText (components path) = pathText (literalParts pattern)
      ↔ components path = literalParts pattern := by
  constructor
  · rintro ⟨hstart, htext⟩
    have hliteral : literalParts pattern ≠ [] := by
      intro hnil
      rw [hnil] at hstart
      exact hstart rfl
    rw [← splitOn_pathText (components_ne_nil hne) (components_not_slash path), htext]
    refine splitOn_pathText hliteral fun part hpart => ?_
    exact not_slash_of_mem_splitOn (List.mem_filter.mp (List.takeWhile_subset _ hpart)).1
  · intro heq
    rw [← heq]
    exact ⟨pathText_ne_nil hne, rfl⟩

/-- A pattern's part of the plan walks what the pattern walks. -/
theorem covers_iff (hne : path ≠ []) (pattern : List Char) :
    match planEntry pattern with
    | some entry => Covers entry path ↔ Walks pattern path
    | none => Walks pattern path := by
  unfold planEntry
  by_cases hliteral : IsLiteral pattern
  · rw [if_pos hliteral]
    show _ ∨ _ ↔ _
    rw [text_eq_literal hne, startParts_literalParts, Walks, if_pos hliteral]
    refine or_congr_right ⟨?_, ?_⟩
    · rintro ⟨below, _, hparts, hdepth⟩
      have hone : below.length = 1 := hdepth.resolve_left (by nofun)
      obtain ⟨name, rfl⟩ := List.length_eq_one_iff.mp hone
      exact ⟨name, hparts⟩
    · rintro ⟨name, hparts⟩
      exact ⟨[name], List.cons_ne_nil _ _, hparts, .inr rfl⟩
  · rw [if_neg hliteral]
    by_cases hnil : literalParts pattern = []
    · by_cases hone : (patternParts pattern).length = 1
      · rw [if_neg (not_not_intro hnil), if_pos hone]
        show _ ∨ _ ↔ _
        rw [Walks, if_neg hliteral, if_neg (not_not_intro hnil)]
        constructor
        · rintro (⟨hstart, _⟩ | ⟨below, _, hparts, hdepth⟩) _
          · exact absurd rfl hstart
          · have hlength := hdepth.resolve_left (by nofun)
            rw [← hparts.trans (List.nil_append below), components, List.length_map] at hlength
            exact hlength
        · intro h
          refine .inr ⟨components path, components_ne_nil hne, rfl, .inr ?_⟩
          rw [components, List.length_map]
          exact h hone
      · rw [if_neg (not_not_intro hnil), if_neg hone]
        show Walks pattern path
        rw [Walks, if_neg hliteral, if_neg (not_not_intro hnil)]
        exact fun h => absurd h hone
    · rw [if_pos hnil]
      show _ ∨ _ ↔ _
      rw [text_eq_literal hne, startParts_literalParts, Walks, if_neg hliteral, if_pos hnil]
      refine or_congr_right ⟨?_, ?_⟩
      · rintro ⟨below, hbelow, hparts, _⟩
        exact ⟨below, hbelow, hparts⟩
      · rintro ⟨below, hbelow, hparts⟩
        exact ⟨below, hbelow, hparts, .inl rfl⟩

/-- A file outside the skipped names is listed when some pattern walks it. -/
theorem listed_iff (hfile : IsFile root path) (hout : Outside path) :
    Listed digest root patterns (pathText (components path))
      ↔ ∃ pattern ∈ patterns, Walks pattern.toList path := by
  have hne := isFile_ne_nil hfile
  obtain ⟨content, hsafe⟩ := safePath_isFile hfile hout
  rw [Listed, scan, mem_scan, hsafe]
  simp only [List.map_nil, List.not_mem_nil, false_or, Option.isSome_some, and_true,
    mem_candidates hfile hout, mem_walkPlan]
  constructor
  · rintro ⟨entry, ⟨⟨pattern, hpattern, hnone⟩, _⟩ | ⟨_, pattern, hpattern, hentry⟩, hcovers⟩
    · have h := covers_iff hne pattern.toList
      rw [hnone] at h
      exact ⟨pattern, hpattern, h⟩
    · have h := covers_iff hne pattern.toList
      rw [hentry] at h
      exact ⟨pattern, hpattern, h.mp hcovers⟩
  · rintro ⟨pattern, hpattern, hwalks⟩
    by_cases hall : ∀ pattern ∈ patterns, planEntry pattern.toList ≠ none
    · obtain ⟨entry, hentry⟩ := Option.ne_none_iff_exists'.mp (hall pattern hpattern)
      have h := covers_iff hne pattern.toList
      rw [hentry] at h
      exact ⟨entry, .inr ⟨hall, pattern, hpattern, hentry⟩, h.mpr hwalks⟩
    · simp only [not_forall, not_not] at hall
      obtain ⟨other, hother, hnone⟩ := hall
      exact ⟨([], true), .inl ⟨⟨other, hother, hnone⟩, rfl⟩,
        .inr ⟨components path, components_ne_nil hne, rfl, .inl rfl⟩⟩

/-! ## Completeness -/

/-- The leading parts of a matched path have no `.` among them. -/
theorem prefix_of_dotless {literal rest : List (List Char)}
    (h : components path = literal ++ rest) : dotless literal = literal := by
  refine List.filter_eq_self.mpr fun part hpart => ?_
  obtain ⟨name, _, rfl⟩ := List.mem_map.mp (h ▸ List.mem_append_left rest hpart)
  simp [name_ne_dot name]

/-- A pattern walks the paths that it matches and does not slip on. -/
theorem walks_of_matches {pattern : String} (hne : path ≠ [])
    (h : pathMatches (String.ofList (pathText (components path))) pattern = true)
    (hslip : ¬ Slips pattern.toList path) : Walks pattern.toList path := by
  rw [pathMatches, String.toList_ofList] at h
  have hfollows := matched_prefix hne h
  rw [Follows] at hfollows
  by_cases hliteral : IsLiteral pattern.toList
  · rw [Slips, if_pos hliteral] at hslip
    rw [Walks, if_pos hliteral]
    rw [if_pos hliteral] at hfollows
    rcases hfollows with hself | ⟨name, hparts⟩ | ⟨_, htext⟩
    · exact .inl hself
    · exact .inr ⟨name, by rw [prefix_of_dotless hparts, hparts]⟩
    · exact absurd htext hslip
  · rw [Slips, if_neg hliteral] at hslip
    rw [Walks, if_neg hliteral]
    rw [if_neg hliteral] at hfollows
    obtain ⟨below, hbelow, hparts⟩ := hfollows
    split_ifs with hnil
    · exact .inr ⟨below, hbelow, by rw [prefix_of_dotless hparts, hparts]⟩
    · intro hone
      by_contra hlength
      exact hslip ⟨not_not.mp hnil, hone, hlength⟩

/-- **When the walk is complete.** No mapped file is missing when each file that a pattern slips on
is walked for some pattern. -/
theorem complete_iff (digest : List UInt8 → String) (root : Entries) (patterns : List String) :
    Complete digest root patterns
      ↔ ∀ path, IsFile root path → Outside path → ∀ pattern ∈ patterns,
          pathMatches (String.ofList (pathText (components path))) pattern = true →
          Slips pattern.toList path → ∃ other ∈ patterns, Walks other.toList path := by
  constructor
  · intro h path hfile hout pattern hpattern hmatch _
    exact (listed_iff hfile hout).mp (h.1 path hfile hout ⟨pattern, hpattern, hmatch⟩)
  · intro h
    constructor
    · rintro path hfile hout ⟨pattern, hpattern, hmatch⟩
      rw [listed_iff hfile hout]
      by_cases hslip : Slips pattern.toList path
      · exact h path hfile hout pattern hpattern hmatch hslip
      · exact ⟨pattern, hpattern, walks_of_matches (isFile_ne_nil hfile) hmatch hslip⟩
    · intro rel hlisted
      rw [Listed, scan, mem_scan] at hlisted
      rcases hlisted with hnone | ⟨_, hsafe⟩
      · cases hnone
      · exact Option.isSome_iff_exists.mp hsafe

end

/-! ## A mapping of everything -/

/-- A directory `docs` with a file `a.md`. -/
def docsTree : Entries :=
  [(⟨"docs".toList, by decide⟩, .directory [(⟨"a.md".toList, by decide⟩, .file [])])]

/-- The pattern `**` matches the file in `docs`, and the manifest is empty. -/
theorem everything_not_walked : ¬ Complete (fun _ => "") docsTree ["**"] := by
  intro h
  have hlisted := h.1 [⟨"docs".toList, by decide⟩, ⟨"a.md".toList, by decide⟩] trivial
    (by rw [Outside]; decide) ⟨"**", List.mem_singleton_self _, by decide⟩
  have hempty : scan (fun _ => "") docsTree (some ["**"]) = [] := by decide
  rw [Listed, hempty] at hlisted
  cases hlisted

end TrustPortal.Proofs.GitSources
