import TrustPortal.DecisionLog.Storage
import Mathlib.Data.List.TakeWhile

/-!
# `TrustPortal.Proofs.DecisionLog.PathRules`: the importer's path rule and the guard's

`session_id_from_path` reads the path of a call, with a backslash for a slash. The guard of
`decision_log_transcripts` reads the path as it is stored, cut to its column, and knows slashes
only. `NamesFile` is what both look for, in the importer's reading. The guard finds the same in
the stored path unless a directory that a backslash ends has an underscore in its name
(`namesSession_iff`). `namesFile_behind` says when a file of the session makes one of a longer path,
and `rules_agree_iff` for which paths the two rules agree.
-/

set_option autoImplicit false

namespace TrustPortal.Proofs.DecisionLog

open TrustPortal.Sql
open TrustPortal.Audit
open TrustPortal.DecisionLog

/-! ## The file of a session -/

/-- `/` or a backslash. -/
def isSeparator (c : Char) : Bool := c = '/' || c = '\\'

/-- `/`. -/
def isSlash (c : Char) : Bool := c = '/'

/-- What follows the session id in a file name. -/
def FileEnd (tail : List Char) : Prop := tail = JSONL_SUFFIX ∨ tail = JSONL_SUFFIX ++ MANIFEST_SUFFIX

/-- The path is that of `<timestamp>_<session id>.jsonl`, or of its manifest, in a directory. -/
def NamesFile (separator : Char → Bool) (path sid : List Char) : Prop :=
  ∃ directory stamp tail, path = directory ++ (stamp ++ '_' :: (sid ++ tail))
    ∧ (∀ c ∈ directory.getLast?, separator c = true)
    ∧ (∀ c ∈ stamp, c ≠ '_' ∧ separator c = false) ∧ FileEnd tail

/-- The last component of the path has an underscore before a backslash. -/
def UnderscoreFirst (path : List Char) : Prop :=
  ∃ before between after, path = before ++ '_' :: (between ++ '\\' :: after)
    ∧ '/' ∉ between ∧ '/' ∉ after

section
variable {separator : Char → Bool} {path sid text stem rest : List Char}

/-! ## The last component -/

/-- What follows the last separator. -/
def lastPart (separator : Char → Bool) (path : List Char) : List Char :=
  (path.reverse.takeWhile fun c => !separator c).reverse

/-- A path is a directory and its last component. -/
theorem lastPart_spec (separator : Char → Bool) (path : List Char) :
    ∃ directory, path = directory ++ lastPart separator path
      ∧ (∀ c ∈ directory.getLast?, separator c = true)
      ∧ ∀ c ∈ lastPart separator path, separator c = false := by
  refine ⟨(path.reverse.dropWhile fun c => !separator c).reverse, ?_, ?_, ?_⟩
  · rw [lastPart, ← List.reverse_append, List.takeWhile_append_dropWhile, List.reverse_reverse]
  · intro c hc
    rw [List.getLast?_reverse] at hc
    have h := List.head?_dropWhile_not (fun c => !separator c) path.reverse
    rw [Option.mem_def.mp hc] at h
    simpa using h
  · intro c hc
    rw [lastPart, List.mem_reverse] at hc
    simpa using List.mem_takeWhile_imp hc

/-- The last component is the one without separators after the last one. -/
theorem lastPart_append {directory base : List Char}
    (hdirectory : ∀ c ∈ directory.getLast?, separator c = true)
    (hbase : ∀ c ∈ base, separator c = false) : lastPart separator (directory ++ base) = base := by
  rw [lastPart, List.reverse_append, List.takeWhile_append_of_pos]
  · cases hrev : directory.reverse with
    | nil => rw [List.takeWhile_nil, List.append_nil, List.reverse_reverse]
    | cons c others =>
      have hlast : directory.getLast? = some c := by
        rw [← List.head?_reverse, hrev, List.head?_cons]
      rw [List.takeWhile_cons_of_neg (by simp [hdirectory c hlast]), List.append_nil,
        List.reverse_reverse]
  · intro c hc
    simp [hbase c (List.mem_reverse.mp hc)]

/-- `basename` of a path has what follows the last separator of either kind. -/
theorem basename_eq (path : List Char) : basename path = lastPart isSeparator path := by
  rw [basename, lastPart, ← List.map_reverse, List.takeWhile_map]
  congr 1
  have hpredicate : ((fun c => decide (c ≠ '/')) ∘ fun c : Char => if c = '\\' then '/' else c)
      = fun c => !isSeparator c := by
    funext c
    by_cases hc : c = '\\' <;> simp [isSeparator, hc]
  rw [hpredicate]
  -- No character before the last separator is a backslash.
  have hself : ∀ c ∈ path.reverse.takeWhile (fun c => !isSeparator c),
      (if c = '\\' then '/' else c) = c := by
    intro c hc
    have hc := List.mem_takeWhile_imp hc
    exact if_neg fun heq => by simp [isSeparator, heq] at hc
  rw [List.map_congr_left hself, List.map_id']

theorem pathBase_eq (path : List Char) : pathBase path = lastPart isSlash path := by
  have hpredicate : (fun c => decide (c ≠ '/')) = fun c => !isSlash c := by
    funext c
    simp [isSlash]
  rw [pathBase, lastPart, hpredicate]

/-! ## The name of a file -/

theorem dropSuffix_iff {suffix : List Char} :
    dropSuffix suffix text = some rest ↔ text = rest ++ suffix := by
  rw [dropSuffix]
  constructor
  · intro h
    split_ifs at h with hsuffix
    obtain ⟨start, rfl⟩ := List.isSuffixOf_iff_suffix.mp hsuffix
    rw [List.length_append, Nat.add_sub_cancel, List.take_left' rfl] at h
    rw [Option.some.inj h]
  · rintro rfl
    rw [if_pos (List.isSuffixOf_iff_suffix.mpr (List.suffix_append _ _)), List.length_append,
      Nat.add_sub_cancel, List.take_left' rfl]

/-- The file name without the suffixes of a transcript or of its manifest. -/
theorem stem_iff :
    dropSuffix JSONL_SUFFIX ((dropSuffix MANIFEST_SUFFIX text).getD text) = some stem
      ↔ ∃ tail, FileEnd tail ∧ text = stem ++ tail := by
  rw [dropSuffix_iff]
  cases hmanifest : dropSuffix MANIFEST_SUFFIX text with
  | some base =>
    rw [dropSuffix_iff] at hmanifest
    subst hmanifest
    constructor
    · intro h
      exact ⟨_, .inr rfl, by rw [← List.append_assoc, ← h]; rfl⟩
    · rintro ⟨tail, rfl | rfl, htail⟩
      · -- The last characters differ.
        have hlast := congrArg List.getLast? htail
        rw [List.getLast?_append, List.getLast?_append] at hlast
        exact absurd hlast (show some 'n' ≠ some 'l' by decide)
      · rw [← List.append_assoc] at htail
        exact List.append_cancel_right htail
  | none =>
    show text = stem ++ JSONL_SUFFIX ↔ _
    constructor
    · exact fun h => ⟨_, .inl rfl, h⟩
    · rintro ⟨tail, rfl | rfl, htail⟩
      · exact htail
      · rw [← List.append_assoc] at htail
        rw [dropSuffix_iff.mpr htail] at hmanifest
        cases hmanifest

/-- What follows the first underscore. -/
theorem afterUnderscore_iff (hsid : sid ≠ []) :
    (text.dropWhile fun c => c ≠ '_').drop 1 = sid
      ↔ ∃ stamp, '_' ∉ stamp ∧ text = stamp ++ '_' :: sid := by
  constructor
  · intro h
    have hparts := List.takeWhile_append_dropWhile (p := fun c => decide (c ≠ '_')) (l := text)
    cases hdrop : text.dropWhile fun c => decide (c ≠ '_') with
    | nil =>
      rw [hdrop] at h
      exact absurd h.symm hsid
    | cons c after =>
      have hc := List.head?_dropWhile_not (fun c => decide (c ≠ '_')) text
      rw [hdrop, List.head?_cons] at hc
      obtain rfl : c = '_' := by simpa using hc
      rw [hdrop] at h hparts
      obtain rfl : after = sid := h
      refine ⟨_, ?_, hparts.symm⟩
      intro hmem
      simpa using List.mem_takeWhile_imp hmem
  · rintro ⟨stamp, hstamp, rfl⟩
    have hall : ∀ c ∈ stamp, decide (c ≠ '_') = true :=
      fun c hc => decide_eq_true fun heq => hstamp (heq ▸ hc)
    rw [List.dropWhile_append_of_pos hall, List.dropWhile_cons_of_neg (by simp)]
    rfl

/-- A file name that gives a session id, in the reading of a rule. -/
def Reads (base sid : List Char) : Prop :=
  ∃ stamp tail, base = stamp ++ '_' :: (sid ++ tail) ∧ '_' ∉ stamp ∧ FileEnd tail

theorem reads_iff (hsid : sid ≠ []) :
    Reads text sid ↔ ∃ stem, dropSuffix JSONL_SUFFIX ((dropSuffix MANIFEST_SUFFIX text).getD text)
      = some stem ∧ (stem.dropWhile fun c => c ≠ '_').drop 1 = sid := by
  simp only [stem_iff, afterUnderscore_iff hsid]
  constructor
  · rintro ⟨stamp, tail, rfl, hstamp, htail⟩
    exact ⟨stamp ++ '_' :: sid, ⟨tail, htail, by simp⟩, stamp, hstamp, rfl⟩
  · rintro ⟨_, ⟨tail, htail, rfl⟩, stamp, hstamp, rfl⟩
    exact ⟨stamp, tail, by simp, hstamp, htail⟩

/-! ## Two kinds of separators -/

/-- The characters of a session id. -/
def IsId (sid : List Char) : Prop := sid ≠ [] ∧ ∀ c ∈ sid, isSeparator c = false ∧ c ≠ '\x00'
  ∧ c ≠ Char.ofNat 0xfffd

theorem fileEnd_plain {tail : List Char} (h : FileEnd tail) :
    ∀ c ∈ tail, isSeparator c = false ∧ c ≠ '\x00' ∧ c ≠ Char.ofNat 0xfffd := by
  have hall : ∀ text : List Char, text.all (fun c =>
      decide (isSeparator c = false ∧ c ≠ '\x00' ∧ c ≠ Char.ofNat 0xfffd)) = true →
      ∀ c ∈ text, isSeparator c = false ∧ c ≠ '\x00' ∧ c ≠ Char.ofNat 0xfffd :=
    fun text htext c hc => of_decide_eq_true (List.all_eq_true.mp htext c hc)
  rcases h with rfl | rfl
  · exact hall _ (by decide)
  · exact hall _ (by decide)

/-- The rule of a kind of separators. -/
theorem namesFile_iff (hid : IsId sid) (hkind : ∀ c, separator c = true → isSeparator c = true) :
    NamesFile separator path sid ↔ Reads (lastPart separator path) sid := by
  have hplain : ∀ c, isSeparator c = false → separator c = false := by
    intro c hc
    by_contra hsep
    rw [Bool.not_eq_false] at hsep
    rw [hkind c hsep] at hc
    cases hc
  constructor
  · rintro ⟨directory, stamp, tail, rfl, hdirectory, hstamp, htail⟩
    refine ⟨stamp, tail, lastPart_append hdirectory ?_, fun h => (hstamp _ h).1 rfl, htail⟩
    intro c hc
    rcases List.mem_append.mp hc with hc | hc
    · exact (hstamp c hc).2
    · rcases List.mem_cons.mp hc with rfl | hc
      · exact hplain _ (by decide)
      · rcases List.mem_append.mp hc with hc | hc
        · exact hplain c (hid.2 c hc).1
        · exact hplain c (fileEnd_plain htail c hc).1
  · rintro ⟨stamp, tail, hbase, hstamp, htail⟩
    obtain ⟨directory, hpath, hdirectory, hparts⟩ := lastPart_spec separator path
    refine ⟨directory, stamp, tail, hbase ▸ hpath, hdirectory, fun c hc => ⟨?_, ?_⟩, htail⟩
    · rintro rfl
      exact hstamp hc
    · exact hparts c (hbase ▸ List.mem_append_left _ hc)

/-- A suffix without separators is one of the last component. -/
private theorem suffix_lastPart (hsuffix : rest <:+ path) (hrest : ∀ c ∈ rest, separator c = false) :
    rest <:+ lastPart separator path := by
  obtain ⟨directory, hpath, hdirectory, _⟩ := lastPart_spec separator path
  rcases List.suffix_or_suffix_of_suffix hsuffix ⟨directory, hpath.symm⟩ with h | h
  · exact h
  · -- A longer one would have the separator that ends the directory.
    obtain ⟨more, hmore⟩ := h
    rcases List.eq_nil_or_concat more with rfl | ⟨init, c, rfl⟩
    · exact hmore ▸ List.suffix_rfl
    · exfalso
      obtain ⟨start, hstart⟩ := hsuffix
      rw [List.concat_eq_append] at hmore
      have hsame : start ++ (init ++ [c]) = directory := by
        have hboth := hstart.trans hpath
        rw [← hmore, ← List.append_assoc] at hboth
        exact List.append_cancel_right hboth
      have hc : separator c = true := by
        refine hdirectory c ?_
        rw [← hsame, ← List.append_assoc, List.getLast?_append]
        rfl
      have hc' := hrest c (hmore ▸ by simp)
      rw [hc'] at hc
      cases hc

private theorem isSeparator_of_isSlash (c : Char) (hc : isSlash c = true) :
    isSeparator c = true := by
  simp [isSeparator, show c = '/' by simpa [isSlash] using hc]

/-- There is no separator in what follows the underscore. -/
private theorem separator_notMem (hid : IsId sid) {tail : List Char} (htail : FileEnd tail) {c : Char}
    (hc : isSeparator c = true) : c ∉ sid ++ tail := by
  intro hmem
  have hplain : isSeparator c = false := (List.mem_append.mp hmem).elim
    (fun hmem => (hid.2 c hmem).1) fun hmem => (fileEnd_plain htail c hmem).1
  rw [hplain] at hc
  cases hc

/-- What the guard accepts the importer accepts. -/
private theorem namesFile_isSeparator (hid : IsId sid) (h : NamesFile isSlash path sid) :
    NamesFile isSeparator path sid := by
  obtain ⟨stamp, tail, hbase, hstamp, htail⟩ := (namesFile_iff hid isSeparator_of_isSlash).mp h
  obtain ⟨directory, hpath, hdirectory, hparts⟩ := lastPart_spec isSlash path
  -- The last component in the importer's reading is the end of the timestamp's part.
  obtain ⟨dir, hstampPath, hdir, hnosep⟩ := lastPart_spec isSeparator stamp
  refine ⟨directory ++ dir, lastPart isSeparator stamp, tail, ?_, ?_, ?_, htail⟩
  · conv_lhs => rw [hpath, hbase, hstampPath]
    simp only [List.append_assoc]
  · intro c hc
    rw [List.getLast?_append] at hc
    cases hlast : dir.getLast? with
    | none =>
      rw [hlast] at hc
      exact isSeparator_of_isSlash c (hdirectory c hc)
    | some d =>
      rw [hlast] at hc
      exact hdir c (hlast ▸ hc)
  · intro c hc
    refine ⟨?_, hnosep c hc⟩
    rintro rfl
    exact hstamp (hstampPath ▸ List.mem_append_right _ hc)

/-- In a path that the guard accepts no underscore stands before a backslash in the last
component. -/
private theorem not_underscoreFirst (hid : IsId sid) (h : NamesFile isSlash path sid) :
    ¬UnderscoreFirst path := by
  obtain ⟨stamp, tail, hbase, hstamp, htail⟩ := (namesFile_iff hid isSeparator_of_isSlash).mp h
  rintro ⟨before, between, after, hunder, hbetween, hafter⟩
  have hsuffix : '_' :: (between ++ '\\' :: after) <:+ lastPart isSlash path := by
    refine suffix_lastPart ⟨before, hunder.symm⟩ ?_
    intro c hc
    have hne : c ≠ '/' := by
      rintro rfl
      simp [hbetween, hafter] at hc
    simpa [isSlash] using hne
  rw [hbase] at hsuffix
  have hin : ∀ {more}, '_' :: (between ++ '\\' :: after) = more ++ '_' :: (sid ++ tail) →
      more ≠ [] := by
    rintro more heq rfl
    have hmem : '\\' ∈ sid ++ tail := by
      rw [← (List.cons.inj heq).2]
      simp
    exact separator_notMem hid htail (by decide) hmem
  rcases List.suffix_or_suffix_of_suffix hsuffix (List.suffix_append stamp _) with h | h
  · obtain ⟨more, hmore⟩ := h
    have hmem : '\\' ∈ '_' :: (sid ++ tail) := by
      rw [← hmore]
      simp
    rcases List.mem_cons.mp hmem with heq | hmem
    · cases heq
    · exact separator_notMem hid htail (by decide) hmem
  · obtain ⟨more, hmore⟩ := h
    obtain ⟨c, others, rfl⟩ := List.exists_cons_of_ne_nil (hin hmore.symm)
    obtain rfl : c = '_' := (List.cons.inj hmore).1
    obtain ⟨start, hstart⟩ := hsuffix
    rw [← hmore, ← List.append_assoc] at hstart
    refine hstamp ?_
    rw [← List.append_cancel_right hstart]
    simp

/-- Without such an underscore the guard accepts what the importer accepts. -/
private theorem namesFile_isSlash (hid : IsId sid) (h : NamesFile isSeparator path sid)
    (hunder : ¬UnderscoreFirst path) : NamesFile isSlash path sid := by
  obtain ⟨directory, stamp, tail, rfl, hdirectory, hstamp, htail⟩ := h
  have hnoslash : ∀ c, isSeparator c = false → isSlash c = false := by
    intro c hc
    by_contra hsep
    rw [isSeparator_of_isSlash c (Bool.not_eq_false _ ▸ hsep)] at hc
    cases hc
  have hstamp' : ∀ c ∈ stamp, c ≠ '_' ∧ isSlash c = false :=
    fun c hc => ⟨(hstamp c hc).1, hnoslash c (hstamp c hc).2⟩
  rcases List.eq_nil_or_concat directory with rfl | ⟨init, c, rfl⟩
  · exact ⟨[], stamp, tail, rfl, nofun, hstamp', htail⟩
  rw [List.concat_eq_append] at hdirectory hunder ⊢
  have hc : isSeparator c = true := hdirectory c (by rw [List.getLast?_append]; rfl)
  by_cases hcslash : isSlash c = true
  · refine ⟨init ++ [c], stamp, tail, rfl, fun d hd => ?_, hstamp', htail⟩
    rw [List.getLast?_append] at hd
    cases hd
    exact hcslash
  · -- A backslash ends the directory: the guard takes what is before it for the timestamp.
    obtain rfl : c = '\\' := by
      simp only [isSeparator, Bool.or_eq_true, decide_eq_true_eq] at hc
      exact hc.resolve_left fun heq => hcslash (by simp [isSlash, heq])
    obtain ⟨dir, hinit, hdir, hnosep⟩ := lastPart_spec isSlash init
    have hbelow : ∀ d, isSlash d = false → d ≠ '/' := by
      rintro _ hd rfl
      cases hd
    refine ⟨dir, lastPart isSlash init ++ '\\' :: stamp, tail, ?_, hdir, ?_, htail⟩
    · conv_lhs => rw [hinit]
      simp only [List.append_assoc, List.cons_append, List.nil_append]
    · intro d hd
      rcases List.mem_append.mp hd with hd | hd
      · refine ⟨?_, hnosep d hd⟩
        rintro rfl
        obtain ⟨x, y, hxy⟩ := List.append_of_mem hd
        refine hunder ⟨dir ++ x, y, stamp ++ '_' :: (sid ++ tail), ?_, ?_, ?_⟩
        · conv_lhs => rw [hinit, hxy]
          simp only [List.append_assoc, List.cons_append, List.nil_append]
        · intro hmem
          exact hbelow _ (hnosep '/' (hxy ▸ by simp [hmem])) rfl
        · intro hmem
          rcases List.mem_append.mp hmem with hmem | hmem
          · exact hbelow _ (hstamp' _ hmem).2 rfl
          · rcases List.mem_cons.mp hmem with heq | hmem
            · cases heq
            · exact separator_notMem hid htail (by decide) hmem
      · rcases List.mem_cons.mp hd with rfl | hd
        · decide
        · exact hstamp' d hd

/-- The guard's rule is the importer's, with no underscore before a backslash in the last
component. -/
theorem namesFile_slash (hid : IsId sid) :
    NamesFile isSlash path sid ↔ NamesFile isSeparator path sid ∧ ¬UnderscoreFirst path :=
  ⟨fun h => ⟨namesFile_isSeparator hid h, not_underscoreFirst hid h⟩,
    fun h => namesFile_isSlash hid h.1 h.2⟩

/-! ## What follows a file -/

/-- The last component of a text with a separator in its second part. -/
private theorem lastPart_rest {front : List Char} (h : ∃ c ∈ rest, separator c = true) :
    lastPart separator (front ++ rest) = lastPart separator rest := by
  obtain ⟨directory, hrest, hdirectory, hparts⟩ := lastPart_spec separator rest
  have hne : directory ≠ [] := by
    rintro rfl
    obtain ⟨c, hc, hsep⟩ := h
    rw [hrest, List.nil_append] at hc
    rw [hparts c hc] at hsep
    cases hsep
  conv_lhs => rw [hrest, ← List.append_assoc]
  refine lastPart_append (fun c hc => hdirectory c ?_) hparts
  rwa [List.getLast?_append_of_ne_nil _ hne] at hc

/-- Behind the end of a file only that of a manifest makes the end of a file. -/
private theorem fileEnd_append {tail : List Char} (hrest : rest ≠ []) (htail : FileEnd tail)
    (h : FileEnd (tail ++ rest)) : tail = JSONL_SUFFIX ∧ rest = MANIFEST_SUFFIX := by
  have hlong := List.length_pos_of_ne_nil hrest
  rcases htail with rfl | rfl
  · rcases h with h | h
    · exact absurd (List.append_right_eq_self.mp h) hrest
    · exact ⟨rfl, List.append_cancel_left h⟩
  · rcases h with h | h <;>
    · have hlength := congrArg List.length h
      simp only [List.length_append] at hlength
      omega

/-- What follows a file of the session makes the path one of the session's too when it is the
suffix of the manifest, or has a file of the session at its end. -/
theorem namesFile_behind (hid : IsId sid) {file : List Char} (hrest : rest ≠ [])
    (hfile : NamesFile isSlash file sid) :
    NamesFile isSeparator (file ++ rest) sid
      ↔ (JSONL_SUFFIX <:+ file ∧ rest = MANIFEST_SUFFIX)
        ∨ (NamesFile isSeparator rest sid ∧ ∃ c ∈ rest, isSeparator c = true) := by
  have hown := namesFile_isSeparator hid hfile
  by_cases hbelow : ∃ c ∈ rest, isSeparator c = true
  · -- The last component is that of the rest.
    have hmanifest : rest ≠ MANIFEST_SUFFIX := by
      rintro rfl
      obtain ⟨c, hmem, hc⟩ := hbelow
      have hplain := (fileEnd_plain (.inr rfl) c (List.mem_append_right _ hmem)).1
      rw [hplain] at hc
      cases hc
    rw [namesFile_iff hid fun _ h => h, lastPart_rest hbelow, ← namesFile_iff hid fun _ h => h]
    simp [hmanifest, hbelow]
  · -- The rest is behind the suffix in the last component.
    have hplain : ∀ c ∈ rest, isSeparator c = false := by
      intro c hc
      by_contra hsep
      exact hbelow ⟨c, hc, (Bool.not_eq_false _).mp hsep⟩
    obtain ⟨directory, stamp, tail, rfl, hdirectory, hstamp, htail⟩ := hown
    have hparts : ∀ c ∈ stamp ++ '_' :: (sid ++ tail), isSeparator c = false := by
      intro c hc
      rcases List.mem_append.mp hc with hc | hc
      · exact (hstamp c hc).2
      · rcases List.mem_cons.mp hc with rfl | hc
        · decide
        · rcases List.mem_append.mp hc with hc | hc
          · exact (hid.2 c hc).1
          · exact (fileEnd_plain htail c hc).1
    have hlast : lastPart isSeparator (directory ++ (stamp ++ '_' :: (sid ++ tail)) ++ rest)
        = stamp ++ '_' :: (sid ++ (tail ++ rest)) := by
      rw [List.append_assoc, lastPart_append hdirectory]
      · simp
      · intro c hc
        rcases List.mem_append.mp hc with hc | hc
        · exact hparts c hc
        · exact hplain c hc
    rw [namesFile_iff hid fun _ h => h, hlast]
    constructor
    · rintro ⟨stamp', tail', hbase, hstamp', htail'⟩
      -- The first underscore is that of the file.
      have hunder : '_' ∉ stamp := fun h => (hstamp _ h).1 rfl
      have hnotnil : ∀ after, sid ++ after ≠ [] := fun _ h => hid.1 (List.append_eq_nil_iff.mp h).1
      have hours := (afterUnderscore_iff (hnotnil (tail ++ rest))).mpr ⟨stamp, hunder, rfl⟩
      have htheirs := (afterUnderscore_iff (hnotnil tail')).mpr ⟨stamp', hstamp', hbase⟩
      have hends := List.append_cancel_left (hours.symm.trans htheirs)
      obtain ⟨rfl, rfl⟩ := fileEnd_append hrest htail (hends ▸ htail')
      refine .inl ⟨?_, rfl⟩
      exact (List.suffix_append (directory ++ stamp ++ '_' :: sid) JSONL_SUFFIX).trans (by simp)
    · rintro (⟨hjsonl, rfl⟩ | ⟨-, h⟩)
      · -- The file is no manifest: its last character is that of a transcript.
        rcases htail with rfl | rfl
        · exact ⟨stamp, _, rfl, fun h => (hstamp _ h).1 rfl, .inr rfl⟩
        · obtain ⟨front, hfront⟩ := hjsonl
          have hlast := congrArg List.getLast? hfront
          rw [List.getLast?_append, ← List.append_assoc, ← List.cons_append, ← List.append_assoc,
            ← List.append_assoc, List.getLast?_append] at hlast
          exact absurd hlast (show some 'l' ≠ some 'n' by decide)
      · exact absurd h hbelow

/-! ## The path as it is stored -/

/-- A character as `clean_metadata` stores it. -/
def cleanChar (c : Char) : Char := if c.toNat = 0 then Char.ofNat 0xfffd else c

theorem cleanChar_id {c d : Char} (h : cleanChar c = d) (hd : d ≠ Char.ofNat 0xfffd) : c = d := by
  rw [cleanChar] at h
  split_ifs at h
  · exact absurd h.symm hd
  · exact h

theorem cleanChar_self {c : Char} (hc : c ≠ '\x00') : cleanChar c = c := by
  refine if_neg fun h => hc ?_
  exact Char.ext (UInt32.toNat_inj.mp h)

private theorem map_clean_eq {text part : List Char} (h : text.map cleanChar = part)
    (hpart : ∀ c ∈ part, c ≠ Char.ofNat 0xfffd) : text = part := by
  induction part generalizing text with
  | nil => exact List.map_eq_nil_iff.mp h
  | cons c part ih =>
    obtain ⟨d, rest, rfl, hd, hrest⟩ := List.map_eq_cons_iff.mp h
    rw [cleanChar_id hd (hpart c List.mem_cons_self),
      ih hrest fun e he => hpart e (List.mem_cons_of_mem _ he)]

/-- A replaced character is in no session id and no suffix. -/
theorem namesFile_clean (hid : IsId sid) :
    NamesFile isSeparator (path.map cleanChar) sid ↔ NamesFile isSeparator path sid := by
  have hplain : ∀ {tail}, FileEnd tail → ∀ c ∈ '_' :: (sid ++ tail),
      c ≠ '\x00' ∧ c ≠ Char.ofNat 0xfffd := by
    intro tail htail c hc
    rcases List.mem_cons.mp hc with rfl | hc
    · decide
    · rcases List.mem_append.mp hc with hc | hc
      · exact (hid.2 c hc).2
      · exact (fileEnd_plain htail c hc).2
  have hkeeps : ∀ c, (isSeparator (cleanChar c) = isSeparator c) ∧ (cleanChar c = '_' ↔ c = '_') := by
    intro c
    by_cases hc : c = '\x00'
    · rw [hc]
      decide
    · rw [cleanChar_self hc]
      exact ⟨rfl, Iff.rfl⟩
  constructor
  · rintro ⟨directory, stamp, tail, hpath, hdirectory, hstamp, htail⟩
    obtain ⟨dir, rest, rfl, rfl, hrest⟩ := List.map_eq_append_iff.mp hpath
    obtain ⟨stamp, tail', rfl, rfl, htail'⟩ := List.map_eq_append_iff.mp hrest
    rw [map_clean_eq htail' fun c hc => (hplain htail c hc).2]
    refine ⟨dir, stamp, tail, rfl, fun c hc => ?_, fun c hc => ?_, htail⟩
    · rw [← (hkeeps c).1]
      exact hdirectory _ (by rw [List.getLast?_map, Option.mem_def.mp hc]; rfl)
    · obtain ⟨h1, h2⟩ := hstamp _ (List.mem_map_of_mem hc)
      exact ⟨fun heq => h1 ((hkeeps c).2.mpr heq), (hkeeps c).1 ▸ h2⟩
  · rintro ⟨directory, stamp, tail, rfl, hdirectory, hstamp, htail⟩
    refine ⟨directory.map cleanChar, stamp.map cleanChar, tail, ?_, fun c hc => ?_, fun c hc => ?_,
      htail⟩
    · rw [List.map_append, List.map_append,
        List.map_congr_left fun c hc => cleanChar_self (hplain htail c hc).1, List.map_id']
    · rw [List.getLast?_map] at hc
      obtain ⟨d, hd, rfl⟩ := Option.map_eq_some_iff.mp hc
      rw [(hkeeps d).1]
      exact hdirectory d hd
    · obtain ⟨d, hd, rfl⟩ := List.mem_map.mp hc
      exact ⟨fun heq => (hstamp d hd).1 ((hkeeps d).2.mp heq), (hkeeps d).1 ▸ (hstamp d hd).2⟩

theorem underscoreFirst_clean : UnderscoreFirst (path.map cleanChar) ↔ UnderscoreFirst path := by
  have hself : ∀ {c d : Char}, d ≠ Char.ofNat 0xfffd → d ≠ '\x00' → (cleanChar c = d ↔ c = d) :=
    fun hd hd' => ⟨fun h => cleanChar_id h hd, fun h => h ▸ cleanChar_self (h ▸ hd')⟩
  have hmem : ∀ {text : List Char}, '/' ∈ text.map cleanChar ↔ '/' ∈ text := by
    intro text
    rw [List.mem_map]
    constructor
    · rintro ⟨c, hc, heq⟩
      exact (hself (by decide) (by decide)).mp heq ▸ hc
    · exact fun h => ⟨_, h, by decide⟩
  constructor
  · rintro ⟨before, between, after, hpath, hbetween, hafter⟩
    obtain ⟨before, rest, rfl, rfl, hrest⟩ := List.map_eq_append_iff.mp hpath
    obtain ⟨c, below, rfl, hc, hbelow⟩ := List.map_eq_cons_iff.mp hrest
    obtain ⟨between, last, rfl, rfl, hlast⟩ := List.map_eq_append_iff.mp hbelow
    obtain ⟨d, after, rfl, hd, rfl⟩ := List.map_eq_cons_iff.mp hlast
    rw [(hself (by decide) (by decide)).mp hc, (hself (by decide) (by decide)).mp hd]
    exact ⟨before, between, after, rfl, fun h => hbetween (hmem.mpr h), fun h => hafter (hmem.mpr h)⟩
  · rintro ⟨before, between, after, rfl, hbetween, hafter⟩
    refine ⟨before.map cleanChar, between.map cleanChar, after.map cleanChar, ?_,
      fun h => hbetween (hmem.mp h), fun h => hafter (hmem.mp h)⟩
    rw [List.map_append, List.map_cons, List.map_append, List.map_cons]
    rfl

/-! ## The two rules -/

/-- The characters that `SESSION_ID_RE` lets through are in no separator and are stored as they
are. -/
theorem isId_of_match {sid : String} (h : sessionIdMatch sid = true) : IsId sid.toList := by
  rw [sessionIdMatch] at h
  have hbody : (if sid.toList.getLast? = some '\n' then sid.toList.dropLast else sid.toList) ≠ []
      ∧ ∀ c ∈ if sid.toList.getLast? = some '\n' then sid.toList.dropLast else sid.toList,
        isIdChar c = true := by
    split at h
    · cases h
    · next first rest heq =>
      rw [heq]
      simp only [Bool.and_eq_true, List.all_eq_true] at h
      refine ⟨List.cons_ne_nil _ _, fun c hc => ?_⟩
      rcases List.mem_cons.mp hc with rfl | hc
      · simp [isIdChar, show c.isAlphanum = true from h.1.1]
      · exact h.2 c hc
  obtain ⟨hne, hchars⟩ := hbody
  have hall : sid.toList ≠ [] ∧ ∀ c ∈ sid.toList, isIdChar c = true ∨ c = '\n' := by
    split_ifs at hne hchars with hlast
    · refine ⟨fun hnil => hne (by rw [hnil]; rfl), fun c hc => ?_⟩
      rw [← List.dropLast_append_getLast? _ hlast] at hc
      rcases List.mem_append.mp hc with hc | hc
      · exact .inl (hchars c hc)
      · exact .inr (List.mem_singleton.mp hc)
    · exact ⟨hne, fun c hc => .inl (hchars c hc)⟩
  refine ⟨hall.1, fun c hc => ⟨?_, ?_, ?_⟩⟩
  · cases hsep : isSeparator c with
    | false => rfl
    | true =>
      simp only [isSeparator, Bool.or_eq_true, decide_eq_true_eq] at hsep
      rcases hsep with rfl | rfl
      all_goals exact absurd (hall.2 _ hc) (by decide)
  all_goals
    rintro rfl
    exact absurd (hall.2 _ hc) (by decide)

/-- The importer's rule. -/
theorem sessionIdFromPath_iff {path sid : String} (hid : IsId sid.toList) :
    sessionIdFromPath (some path) = some sid ↔ NamesFile isSeparator path.toList sid.toList := by
  rw [namesFile_iff hid fun _ h => h, reads_iff hid.1, ← basename_eq, sessionIdFromPath]
  by_cases hpath : path = ""
  · subst hpath
    constructor
    · intro h
      cases h
    · rintro ⟨stem, hstem, _⟩
      cases hstem
  · rw [if_pos (by simp [truthy, hpath])]
    simp only [Option.getD_some]
    cases hstem : dropSuffix JSONL_SUFFIX ((dropSuffix MANIFEST_SUFFIX (basename path.toList)).getD
      (basename path.toList)) with
    | none => simp
    | some stem =>
      simp only [Option.some.injEq, exists_eq_left']
      constructor
      · intro h
        split_ifs at h with hempty
        rw [← Option.some.inj h, String.toList_ofList]
      · intro h
        rw [if_neg (by rw [h, List.isEmpty_iff]; exact hid.1), h, String.ofList_toList]

/-- The guard's rule. -/
theorem namesSession_iff {path sid : String} (hid : IsId sid.toList) :
    namesSession path sid = true
      ↔ NamesFile isSeparator path.toList sid.toList ∧ ¬UnderscoreFirst path.toList := by
  have hslash : ∀ c, isSlash c = true → isSeparator c = true := by
    intro c hc
    simp [isSeparator, show c = '/' by simpa [isSlash] using hc]
  rw [← namesFile_slash hid, namesFile_iff hid hslash, reads_iff hid.1, ← pathBase_eq, namesSession]
  cases dropSuffix JSONL_SUFFIX ((dropSuffix MANIFEST_SUFFIX (pathBase path.toList)).getD
    (pathBase path.toList)) with
  | none => simp
  | some stem =>
    simp only [Bool.and_eq_true, decide_eq_true_eq, Option.some.injEq, exists_eq_left']
    constructor
    · exact fun h => h.2
    · intro h
      refine ⟨?_, h⟩
      obtain ⟨stamp, _, rfl⟩ := (afterUnderscore_iff hid.1).mp h
      simp

/-- The guard accepts every version that an import with this path stores for the session, with a
commit or a store object and without a submitter. -/
def GuardTakes (path sid : String) : Prop :=
  ∀ (tx : Transaction) (upload : Upload) (status : VersionStatus) (count : Nat)
    (digest : Option String), upload.sourcePath = some path →
    (upload.sourceCommit ≠ none ∨ upload.storeObjectId ≠ none) →
    versionGuard sid (upload.version tx status count digest none) = true

/-- The paths for which the two rules agree. A longer path than its column is cut in one of two
places: behind a `.jsonl`, before the suffix of its manifest, or behind a directory that is itself
named as a file of the session. Any other that is the session's the guard refuses. -/
inductive RulesMeet (path sid : List Char) : Prop
  /-- The path fits its column. -/
  | short (hlength : path.length ≤ PATH_LENGTH)
      (hplain : NamesFile isSeparator path sid → ¬UnderscoreFirst path)
  /-- No file of the session, at the end of the path or at that of its column. -/
  | neither (hpath : ¬NamesFile isSeparator path sid)
      (hcut : ¬NamesFile isSlash (path.take PATH_LENGTH) sid)
  | manifest {file : List Char} (hpath : path = file ++ MANIFEST_SUFFIX)
      (hlength : file.length = PATH_LENGTH) (hfile : NamesFile isSlash file sid)
      (hjsonl : JSONL_SUFFIX <:+ file)
  | directory {file rest : List Char} (hpath : path = file ++ rest)
      (hlength : file.length = PATH_LENGTH) (hfile : NamesFile isSlash file sid)
      (hrest : NamesFile isSeparator rest sid) (hbelow : ∃ c ∈ rest, isSeparator c = true)

/-- The guard reads the path of a source's import. -/
theorem versionGuard_bound {sid stored : String} {version : Version}
    (hpath : version.sourcePath = some stored) (hsubmitter : version.submittedBy = none)
    (hbound : version.sourceCommit ≠ none ∨ version.storeObjectId ≠ none) :
    versionGuard sid version = namesSession stored sid := by
  rw [versionGuard, hpath]
  exact if_pos ⟨hsubmitter, hbound⟩

/-- The guard's rule on the path that is stored. -/
theorem guardTakes_iff {path sid : String} (hid : IsId sid.toList) :
    GuardTakes path sid
      ↔ NamesFile isSeparator (path.toList.take PATH_LENGTH) sid.toList
        ∧ ¬UnderscoreFirst (path.toList.take PATH_LENGTH) := by
  have hstored : cleanMetadata PATH_LENGTH (some path)
      = some (String.ofList ((path.toList.take PATH_LENGTH).map cleanChar)) := by
    rw [List.map_take]
    rfl
  have hrule : namesSession (String.ofList ((path.toList.take PATH_LENGTH).map cleanChar)) sid = true
      ↔ NamesFile isSeparator (path.toList.take PATH_LENGTH) sid.toList
        ∧ ¬UnderscoreFirst (path.toList.take PATH_LENGTH) := by
    rw [namesSession_iff hid, String.toList_ofList, namesFile_clean hid, underscoreFirst_clean]
  rw [← hrule]
  constructor
  · intro h
    let upload : Upload :=
      ⟨sid, "", "", 0, some path, none, none, .system, false, none, none, some "", none⟩
    have hguard := h ⟨0, 0, "", ""⟩ upload .current 0 none rfl (.inl nofun)
    rwa [@versionGuard_bound sid _ (upload.version ⟨0, 0, "", ""⟩ .current 0 none none) hstored rfl
      (.inl nofun)] at hguard
  · intro h tx upload status count digest hpath hbound
    have hversion : (upload.version tx status count digest none).sourcePath
        = some (String.ofList ((path.toList.take PATH_LENGTH).map cleanChar)) := by
      rw [← hstored, ← hpath]
      rfl
    rw [versionGuard_bound hversion rfl hbound]
    exact h

/-- **When the rules agree.** -/
theorem rules_agree_iff (path sid : String) (hsid : sessionIdMatch sid = true) :
    (sessionIdFromPath (some path) = some sid ↔ GuardTakes path sid)
      ↔ RulesMeet path.toList sid.toList := by
  have hid := isId_of_match hsid
  rw [sessionIdFromPath_iff hid, guardTakes_iff hid, ← namesFile_slash hid]
  constructor
  · intro h
    by_cases hlength : path.toList.length ≤ PATH_LENGTH
    · rw [List.take_of_length_le hlength, namesFile_slash hid] at h
      exact .short hlength fun hpath => (h.mp hpath).2
    · by_cases hcut : NamesFile isSlash (path.toList.take PATH_LENGTH) sid.toList
      · have hpath := h.mpr hcut
        have hsplit := (List.take_append_drop PATH_LENGTH path.toList).symm
        have hfile : (path.toList.take PATH_LENGTH).length = PATH_LENGTH := by
          rw [List.length_take]
          omega
        have hrest : path.toList.drop PATH_LENGTH ≠ [] := by
          rw [Ne, List.drop_eq_nil_iff]
          exact hlength
        rw [hsplit, namesFile_behind hid hrest hcut] at hpath
        rcases hpath with ⟨hjsonl, hmanifest⟩ | ⟨hpath, hbelow⟩
        · exact .manifest (hmanifest ▸ hsplit) hfile hcut hjsonl
        · exact .directory hsplit hfile hcut hpath hbelow
      · exact .neither (fun hpath => hcut (h.mp hpath)) hcut
  · intro h
    cases h with
    | short hlength hplain =>
      rw [List.take_of_length_le hlength, namesFile_slash hid]
      exact ⟨fun hpath => ⟨hpath, hplain hpath⟩, And.left⟩
    | neither hpath hcut => exact iff_of_false hpath hcut
    | manifest hpath hlength hfile hjsonl =>
      rw [hpath, ← hlength, List.take_left' rfl]
      exact iff_of_true ((namesFile_behind hid (by decide) hfile).mpr (.inl ⟨hjsonl, rfl⟩)) hfile
    | directory hpath hlength hfile hrest hbelow =>
      rw [hpath, ← hlength, List.take_left' rfl]
      refine iff_of_true ((namesFile_behind hid ?_ hfile).mpr (.inr ⟨hrest, hbelow⟩)) hfile
      rintro rfl
      obtain ⟨c, hc, -⟩ := hbelow
      cases hc

end

/-! ## A directory that a backslash ends -/

/-- A file of session `s1` below a directory with an underscore in its name. -/
def backslashPath : String := "team_a\\20260701_s1.jsonl"

theorem rules_agree_plain :
    sessionIdFromPath (some "logs/20260701_s1.jsonl") = some "s1"
      ↔ GuardTakes "logs/20260701_s1.jsonl" "s1" := by
  refine (rules_agree_iff "logs/20260701_s1.jsonl" "s1" (by decide)).mpr (.short (by decide) ?_)
  rintro - ⟨before, between, after, hpath, -, -⟩
  have hmem : '\\' ∈ "logs/20260701_s1.jsonl".toList := by
    rw [hpath]
    simp
  exact absurd hmem (by decide)

/-- The importer takes the path and the guard refuses the row. -/
theorem backslash_path_refused :
    ¬(sessionIdFromPath (some backslashPath) = some "s1" ↔ GuardTakes backslashPath "s1") := by
  intro h
  let upload : Upload :=
    ⟨"s1", "", "", 0, some backslashPath, none, none, .system, false, none, none, some "", none⟩
  have hguard := h.mp (by decide) ⟨0, 0, "", ""⟩ upload .current 0 none rfl (.inl nofun)
  have hrefused : versionGuard "s1" (upload.version ⟨0, 0, "", ""⟩ .current 0 none none) = false := by
    decide
  rw [hrefused] at hguard
  cases hguard

end TrustPortal.Proofs.DecisionLog
