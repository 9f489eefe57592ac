import Mathlib.Data.List.Infix
import TrustPortal.Proofs.GitSources.Patterns

/-!
# `TrustPortal.Proofs.GitSources.Globs`: what a pattern documents

`segmentMatches` and `segmentsMatch` are the patterns as they are documented, segment by segment.
In the regular expression a `.` does not match a line break and the `$` matches before one at the
end. `cleanMatch` is the documented matching with the first of these: a `**` stands for segments
without a line break. `pathMatches_iff` says that the code matches a path when the pattern matches
it in this way, or matches it without a line break at its end. `globs_iff` is what follows for one
pattern and one path: `BreaksHarmless` says that neither of the two makes a difference.

`matchExact_segment` is what the pieces of a segment match, whatever follows them, and
`matchExact_segments` adds one segment at a time.
-/

set_option autoImplicit false

namespace TrustPortal.Proofs.GitSources

open TrustPortal.GitSources

/-! ## The documented meaning -/

/-- A segment of a pattern matches a segment of a path: `*` any run of characters, `?` one
character, every other character itself. -/
def segmentMatches : List Char → List Char → Bool
  | [], name => name.isEmpty
  | c :: rest, name =>
    if c = '*' then name.tails.any fun behind => segmentMatches rest behind
    else
      match name with
      | [] => false
      | d :: name => (c = '?' || c = d) && segmentMatches rest name

/-- The segments of a pattern match those of a path: `**` any number of segments, and at least one
at the end of the pattern. -/
def segmentsMatch : List (List Char) → List (List Char) → Bool
  | [], names => names.isEmpty
  | segment :: rest, names =>
    if segment = ['*', '*'] then
      if rest = [] then !names.isEmpty
      else names.tails.any fun behind => segmentsMatch rest behind
    else
      match names with
      | [] => false
      | name :: names => segmentMatches segment name && segmentsMatch rest names

/-- The last segments of a path behind segments without a line break. -/
def cleanTails : List (List Char) → List (List (List Char))
  | [] => [[]]
  | name :: names => (name :: names) :: if '\n' ∈ name then [] else cleanTails names

/-- `segmentsMatch` where `**` stands for segments without a line break. -/
def cleanMatch : List (List Char) → List (List Char) → Bool
  | [], names => names.isEmpty
  | segment :: rest, names =>
    if segment = ['*', '*'] then
      if rest = [] then !names.isEmpty && names.all fun name => !name.contains '\n'
      else (cleanTails names).any fun behind => cleanMatch rest behind
    else
      match names with
      | [] => false
      | name :: names => segmentMatches segment name && cleanMatch rest names

/-- The path `names` is `trimmed` with a line break at its end. -/
def EndsInBreak (names trimmed : List (List Char)) : Prop :=
  ∃ front name, names = front ++ [name ++ ['\n']] ∧ trimmed = front ++ [name]

/-- The line breaks of a path make no difference for a pattern. Where the pattern matches the path,
it does so with each `**` for segments without a line break, one at the end of the path apart. And
where it matches the path without the line break at its end in this way, it matches the path. -/
structure BreaksHarmless (parts names : List (List Char)) : Prop where
  crossed : segmentsMatch parts names = true → cleanMatch parts names = true
    ∨ ∃ trimmed, EndsInBreak names trimmed ∧ cleanMatch parts trimmed = true
  ending : ∀ trimmed, EndsInBreak names trimmed → cleanMatch parts trimmed = true →
    segmentsMatch parts names = true

/-- `**` stands only as a whole segment. -/
def WholeStars (segments : List (List Char)) : Prop :=
  ∀ segment ∈ segments, ['*', '*'] <:+: segment → segment = ['*', '*']

/-! ## One segment -/

/-- The piece of a character of a segment. -/
def charToken (c : Char) : Token :=
  if c = '*' then .segment else if c = '?' then .one else .literal c

section
variable {segment part text rest : List Char} {tokens : List Token}

/-- A segment without `**` is compiled character by character, up to its end. -/
theorem compile_segment (hstars : ¬['*', '*'] <:+: segment) (hrest : rest.head? ≠ some '*') :
    compile (segment ++ rest) = segment.map charToken ++ compile rest := by
  induction segment with
  | nil => rfl
  | cons c segment ih =>
    have htail : ¬['*', '*'] <:+: segment := fun h => hstars (h.trans (List.suffix_cons c segment).isInfix)
    rw [List.map_cons, List.cons_append, List.cons_append, ← ih htail]
    by_cases hstar : c = '*'
    · subst hstar
      -- What follows the star is no star.
      have hnext : (segment ++ rest).head? ≠ some '*' := by
        cases segment with
        | nil => exact hrest
        | cons d segment =>
          rintro h
          obtain rfl : d = '*' := Option.some_inj.mp h
          exact hstars ⟨[], segment, rfl⟩
      generalize segment ++ rest = behind at hnext ⊢
      rw [compile.eq_3]
      · rfl
      · rintro _ rfl
        exact hnext rfl
      · rintro _ rfl
        exact hnext rfl
    · by_cases hone : c = '?'
      · subst hone
        rfl
      · rw [compile.eq_5]
        · rw [charToken, if_neg hstar, if_neg hone]
        · exact fun _ h => absurd h hstar
        · exact fun _ h => absurd h hstar
        · exact fun h => absurd h hstar
        · exact fun h => absurd h hone

/-- The rests after any number of characters other than `stop`. -/
theorem mem_restsUntil {stop : Char} : rest ∈ restsUntil stop text
    ↔ ∃ front, stop ∉ front ∧ text = front ++ rest := by
  induction text with
  | nil =>
    rw [restsUntil, List.mem_singleton]
    constructor
    · rintro rfl
      exact ⟨[], List.not_mem_nil, rfl⟩
    · rintro ⟨front, -, h⟩
      exact (List.append_eq_nil_iff.mp h.symm).2
  | cons c text ih =>
    rw [restsUntil, List.mem_cons]
    constructor
    · rintro (rfl | h)
      · exact ⟨[], List.not_mem_nil, rfl⟩
      · split at h
        · cases h
        · rename_i hc
          obtain ⟨front, hfront, rfl⟩ := ih.mp h
          exact ⟨c :: front, by simp [hfront, Ne.symm hc], rfl⟩
    · rintro ⟨front, hfront, h⟩
      cases front with
      | nil => exact .inl h.symm
      | cons d front =>
        obtain ⟨rfl, rfl⟩ := List.cons.inj h
        rw [List.mem_cons, not_or] at hfront
        rw [if_neg (Ne.symm hfront.1)]
        exact .inr (ih.mpr ⟨front, hfront.2, rfl⟩)

/-- The pieces match the whole text: `matchTokens` with `\Z` for the `$`. -/
def matchExact : List Token → List Char → Bool
  | [], text => text.isEmpty
  | token :: tokens, text => (token.rests text).any fun rest => matchExact tokens rest

/-- The texts that a piece takes. -/
def Takes (taken : List Char) : Token → Prop
  | .directories => taken = [] ∨ ∃ front, '\n' ∉ front ∧ taken = front ++ ['/']
  | .anything => '\n' ∉ taken
  | .segment => '/' ∉ taken
  | .one => ∃ c, c ≠ '/' ∧ taken = [c]
  | .literal c => taken = [c]

/-- The rests that a piece leaves are those behind a text that it takes. -/
theorem mem_rests {token : Token} :
    rest ∈ token.rests text ↔ ∃ taken, Takes taken token ∧ text = taken ++ rest := by
  cases token with
  | directories =>
    rw [Token.rests, List.mem_cons, List.mem_filterMap]
    constructor
    · rintro (rfl | ⟨after, hafter, hrest⟩)
      · exact ⟨[], .inl rfl, rfl⟩
      · obtain ⟨front, hfront, rfl⟩ := mem_restsUntil.mp hafter
        split at hrest
        · obtain rfl := Option.some_inj.mp hrest
          exact ⟨_, .inr ⟨front, hfront, rfl⟩, by simp⟩
        · cases hrest
    · rintro ⟨taken, rfl | ⟨front, hfront, rfl⟩, rfl⟩
      · exact .inl rfl
      · refine .inr ⟨'/' :: rest, mem_restsUntil.mpr ⟨front, hfront, by simp⟩, rfl⟩
  | anything => exact mem_restsUntil
  | segment => exact mem_restsUntil
  | one =>
    cases text with
    | nil => simp [Token.rests, Takes]
    | cons d text => by_cases hd : d = '/' <;> simp [Token.rests, Takes, hd, eq_comm]
  | literal c =>
    cases text with
    | nil => simp [Token.rests, Takes]
    | cons d text =>
      by_cases hd : d = c
      · simp [Token.rests, Takes, hd, eq_comm]
      · simp [Token.rests, Takes, hd]

/-- The `$` lets the pieces match the text without a line break at its end. -/
theorem matchTokens_iff : matchTokens tokens text = true ↔ matchExact tokens text = true
    ∨ ∃ front, text = front ++ ['\n'] ∧ matchExact tokens front = true := by
  induction tokens generalizing text with
  | nil =>
    rw [matchTokens, matchExact, Bool.or_eq_true, decide_eq_true_eq, decide_eq_true_eq,
      List.isEmpty_iff]
    refine or_congr_right ⟨?_, ?_⟩
    · rintro rfl
      exact ⟨[], rfl, rfl⟩
    · rintro ⟨front, rfl, hfront⟩
      rw [matchExact, List.isEmpty_iff] at hfront
      rw [hfront, List.nil_append]
  | cons token tokens ih =>
    simp only [matchTokens, matchExact, List.any_eq_true, ih]
    constructor
    · rintro ⟨rest, hrest, hexact | ⟨front, rfl, hfront⟩⟩
      · exact .inl ⟨rest, hrest, hexact⟩
      · -- The break behind the last piece is that of the text.
        obtain ⟨taken, htaken, rfl⟩ := mem_rests.mp hrest
        exact .inr ⟨taken ++ front, (List.append_assoc ..).symm, front,
          mem_rests.mpr ⟨taken, htaken, rfl⟩, hfront⟩
    · rintro (⟨rest, hrest, hexact⟩ | ⟨front, rfl, rest, hrest, hfront⟩)
      · exact ⟨rest, hrest, .inl hexact⟩
      · obtain ⟨taken, htaken, rfl⟩ := mem_rests.mp hrest
        exact ⟨rest ++ ['\n'], mem_rests.mpr ⟨taken, htaken, List.append_assoc ..⟩,
          .inr ⟨rest, rfl, hfront⟩⟩

/-- The pieces of a segment match a part of the text without `/`, and the pieces behind them what
follows it. -/
theorem matchExact_segment (hsegment : '/' ∉ segment) :
    matchExact (segment.map charToken ++ tokens) text = true
      ↔ ∃ name behind, '/' ∉ name ∧ text = name ++ behind ∧ segmentMatches segment name = true
        ∧ matchExact tokens behind = true := by
  induction segment generalizing text with
  | nil =>
    simp only [List.map_nil, List.nil_append, segmentMatches, List.isEmpty_iff]
    constructor
    · exact fun h => ⟨[], text, List.not_mem_nil, rfl, rfl, h⟩
    · rintro ⟨_, behind, -, rfl, rfl, h⟩
      exact h
  | cons c segment ih =>
    rw [List.mem_cons, not_or] at hsegment
    rw [List.map_cons, List.cons_append, matchExact, List.any_eq_true]
    simp only [ih hsegment.2]
    by_cases hstar : c = '*'
    · -- A star takes the first characters of the part.
      subst hstar
      simp only [charToken, if_true, Token.rests, mem_restsUntil, segmentMatches, List.any_eq_true,
        List.mem_tails]
      constructor
      · rintro ⟨_, ⟨front, hfront, rfl⟩, name, behind, hname, rfl, hmatch, hbehind⟩
        refine ⟨front ++ name, behind, by simp [hfront, hname], (List.append_assoc ..).symm,
          ⟨name, List.suffix_append _ _, hmatch⟩, hbehind⟩
      · rintro ⟨name, behind, hname, rfl, ⟨later, ⟨front, rfl⟩, hmatch⟩, hbehind⟩
        rw [List.mem_append, not_or] at hname
        exact ⟨later ++ behind, ⟨front, hname.1, List.append_assoc ..⟩, later, behind, hname.2, rfl,
          hmatch, hbehind⟩
    · -- Any other character takes one.
      have hrests : ∀ after, after ∈ (charToken c).rests text
          ↔ ∃ d, d ≠ '/' ∧ (c = '?' ∨ c = d) ∧ text = d :: after := by
        intro after
        rw [charToken, if_neg hstar, mem_rests]
        by_cases hone : c = '?'
        · simp only [Takes, hone, true_or, true_and]
          constructor
          · rintro ⟨_, ⟨d, hd, rfl⟩, rfl⟩
            exact ⟨d, hd, rfl⟩
          · rintro ⟨d, hd, rfl⟩
            exact ⟨[d], ⟨d, hd, rfl⟩, rfl⟩
        · simp only [Takes, hone, false_or]
          constructor
          · rintro ⟨_, rfl, rfl⟩
            exact ⟨c, Ne.symm hsegment.1, rfl, rfl⟩
          · rintro ⟨d, -, rfl, rfl⟩
            exact ⟨[c], rfl, rfl⟩
      simp only [hrests, segmentMatches, if_neg hstar]
      constructor
      · rintro ⟨_, ⟨d, hd, hc, rfl⟩, name, behind, hname, rfl, hmatch, hbehind⟩
        refine ⟨d :: name, behind, by simp [hname, Ne.symm hd], rfl, ?_, hbehind⟩
        simpa [hmatch] using hc
      · rintro ⟨name, behind, hname, rfl, hmatch, hbehind⟩
        cases name with
        | nil => cases hmatch
        | cons d name =>
          rw [List.mem_cons, not_or] at hname
          simp only [Bool.and_eq_true, Bool.or_eq_true, decide_eq_true_eq] at hmatch
          exact ⟨name ++ behind, ⟨d, Ne.symm hname.1, hmatch.1, rfl⟩, name, behind, hname.2, rfl,
            hmatch.2, hbehind⟩

end

/-! ## Paths -/

section
variable {names parts : List (List Char)} {rest text : List Char} {tokens : List Token}

/-- The path of two lists of segments. -/
theorem pathText_append (hparts : parts ≠ []) (hnames : names ≠ []) :
    pathText (parts ++ names) = pathText parts ++ '/' :: pathText names := by
  induction parts with
  | nil => exact absurd rfl hparts
  | cons part parts ih =>
    rw [List.cons_append, pathText_cons, pathText_cons part parts,
      if_neg (List.append_ne_nil_of_right_ne_nil _ hnames)]
    by_cases hlast : parts = []
    · rw [if_pos hlast, hlast, List.append_nil]
      rfl
    · rw [if_neg hlast, ih hlast, List.append_assoc]
      rfl

/-- Behind a `/` of a path stand its last segments. -/
theorem suffix_of_slash {front : List Char} (hnames : ∀ name ∈ names, '/' ∉ name)
    (h : pathText names = front ++ '/' :: rest) :
    ∃ behind, behind <:+ names ∧ behind ≠ [] ∧ rest = pathText behind := by
  induction names generalizing front with
  | nil => exact absurd h.symm (by simp [pathText])
  | cons name names ih =>
    rw [List.forall_mem_cons] at hnames
    rw [pathText_cons] at h
    rcases List.append_eq_append_iff.mp h with ⟨more, rfl, hmore⟩ | ⟨more, rfl, hmore⟩
    · -- The slash is behind the first segment.
      split_ifs at hmore with hlast
      · exact absurd hmore.symm (by simp)
      · cases more with
        | nil =>
          obtain ⟨-, rfl⟩ := List.cons.inj hmore
          exact ⟨names, List.suffix_cons name names, hlast, rfl⟩
        | cons c more =>
          obtain ⟨-, hmore⟩ := List.cons.inj hmore
          obtain ⟨behind, hbehind, hne, hrest⟩ := ih hnames.2 hmore
          exact ⟨behind, hbehind.trans (List.suffix_cons name names), hne, hrest⟩
    · -- The first segment has no slash.
      cases more with
      | nil =>
        split_ifs at hmore with hlast
        · exact absurd hmore.symm (by simp)
        · obtain ⟨-, rfl⟩ := List.cons.inj hmore.symm
          exact ⟨names, List.suffix_cons _ names, hlast, rfl⟩
      | cons c more =>
        obtain ⟨rfl, -⟩ := List.cons.inj hmore
        exact absurd (List.mem_append_right _ List.mem_cons_self) hnames.1

/-- Behind segments without a line break. -/
theorem mem_cleanTails {behind : List (List Char)} : behind ∈ cleanTails names
    ↔ ∃ front, (∀ name ∈ front, '\n' ∉ name) ∧ names = front ++ behind := by
  induction names with
  | nil =>
    rw [cleanTails, List.mem_singleton]
    constructor
    · rintro rfl
      exact ⟨[], List.forall_mem_nil _, rfl⟩
    · rintro ⟨front, -, h⟩
      exact (List.append_eq_nil_iff.mp h.symm).2
  | cons name names ih =>
    rw [cleanTails, List.mem_cons]
    constructor
    · rintro (rfl | h)
      · exact ⟨[], List.forall_mem_nil _, rfl⟩
      · split at h
        · cases h
        · rename_i hname
          obtain ⟨front, hfront, rfl⟩ := ih.mp h
          exact ⟨name :: front, List.forall_mem_cons.mpr ⟨hname, hfront⟩, rfl⟩
    · rintro ⟨front, hfront, h⟩
      cases front with
      | nil => exact .inl h.symm
      | cons first front =>
        obtain ⟨rfl, rfl⟩ := List.cons.inj h
        rw [List.forall_mem_cons] at hfront
        rw [if_neg hfront.1]
        exact .inr (ih.mpr ⟨front, hfront.2, rfl⟩)

/-- A character of a segment is one of the path. -/
theorem mem_pathText_of_mem {part : List Char} {c : Char} (hpart : part ∈ parts) (hc : c ∈ part) :
    c ∈ pathText parts := by
  induction parts with
  | nil => cases hpart
  | cons first parts ih =>
    rw [pathText_cons, List.mem_append]
    rcases List.mem_cons.mp hpart with rfl | hpart
    · exact .inl hc
    · rw [if_neg (List.ne_nil_of_mem hpart)]
      exact .inr (List.mem_cons_of_mem _ (ih hpart))

/-- A path has a line break where one of its segments has one. -/
theorem break_notMem_iff : '\n' ∉ pathText names ↔ ∀ name ∈ names, '\n' ∉ name := by
  constructor
  · exact fun h name hname hmem => h (mem_pathText_of_mem hname hmem)
  · intro h hmem
    rcases mem_pathText hmem with hslash | ⟨name, hname, hc⟩
    · cases hslash
    · exact h name hname hc

/-- `(?:.*/)?` leaves the last segments of a path behind segments without a line break. -/
theorem matchExact_directories (hnames : ∀ name ∈ names, '/' ∉ name) (hne : names ≠ []) :
    matchExact (.directories :: tokens) (pathText names) = true
      ↔ ∃ behind ∈ cleanTails names, behind ≠ []
        ∧ matchExact tokens (pathText behind) = true := by
  rw [matchExact, List.any_eq_true]
  constructor
  · rintro ⟨rest, hrest, hmatch⟩
    obtain ⟨taken, htaken, htext⟩ := mem_rests.mp hrest
    rcases htaken with rfl | ⟨front, hfront, rfl⟩
    · exact ⟨names, mem_cleanTails.mpr ⟨[], List.forall_mem_nil _, rfl⟩, hne, by rw [htext]; exact hmatch⟩
    · rw [List.append_assoc] at htext
      obtain ⟨behind, ⟨skipped, rfl⟩, hlast, rfl⟩ := suffix_of_slash hnames htext
      -- What was skipped is the path of the first segments.
      have hskipped : skipped ≠ [] := by
        rintro rfl
        have hlength := congrArg List.length htext
        simp only [List.nil_append, List.length_append, List.length_singleton] at hlength
        omega
      rw [pathText_append hskipped hlast] at htext
      have hfirst : pathText skipped = front := List.append_cancel_right htext
      rw [← hfirst] at hfront
      exact ⟨behind, mem_cleanTails.mpr ⟨skipped, break_notMem_iff.mp hfront, rfl⟩, hlast, hmatch⟩
  · rintro ⟨behind, hbehind, hlast, hmatch⟩
    obtain ⟨front, hfront, rfl⟩ := mem_cleanTails.mp hbehind
    refine ⟨pathText behind, mem_rests.mpr ?_, hmatch⟩
    by_cases hnil : front = []
    · exact ⟨[], .inl rfl, by rw [hnil]; rfl⟩
    · refine ⟨pathText front ++ ['/'], .inr ⟨pathText front, break_notMem_iff.mpr hfront, rfl⟩, ?_⟩
      rw [pathText_append hnil hlast, List.append_assoc]
      rfl

/-- The first segment of a pattern. -/
private theorem cleanMatch_cons (part : List Char) : cleanMatch (part :: parts) names
    = if part = ['*', '*'] then
        if parts = [] then !names.isEmpty && names.all fun name => !name.contains '\n'
        else (cleanTails names).any fun behind => cleanMatch parts behind
      else
        match names with
        | [] => false
        | name :: names => segmentMatches part name && cleanMatch parts names := rfl

/-- The first segment of a pattern in the documented matching. -/
private theorem segmentsMatch_cons (part : List Char) : segmentsMatch (part :: parts) names
    = if part = ['*', '*'] then
        if parts = [] then !names.isEmpty
        else names.tails.any fun behind => segmentsMatch parts behind
      else
        match names with
        | [] => false
        | name :: names => segmentMatches part name && segmentsMatch parts names := rfl

/-- A pattern with a segment left does not match the end of a path. -/
theorem cleanMatch_nil (hparts : parts ≠ []) : cleanMatch parts [] = false := by
  induction parts with
  | nil => exact absurd rfl hparts
  | cons part parts ih =>
    rw [cleanMatch]
    split_ifs with hstars hlast
    · rfl
    · simp [cleanTails, ih hlast]
    · rfl

/-- What matches with each `**` for segments without a line break matches. -/
theorem segmentsMatch_of_cleanMatch (h : cleanMatch parts names = true) :
    segmentsMatch parts names = true := by
  induction parts generalizing names with
  | nil => exact h
  | cons part parts ih =>
    rw [cleanMatch_cons] at h
    rw [segmentsMatch_cons]
    split_ifs at h ⊢ with hstars hlast
    · exact (Bool.and_eq_true_iff.mp h).1
    · rw [List.any_eq_true] at h ⊢
      obtain ⟨behind, hbehind, hmatch⟩ := h
      obtain ⟨front, -, rfl⟩ := mem_cleanTails.mp hbehind
      exact ⟨behind, (List.mem_tails _ _).mpr (List.suffix_append front behind), ih hmatch⟩
    · cases names with
      | nil => cases h
      | cons name names =>
        rw [Bool.and_eq_true] at h ⊢
        exact ⟨h.1, ih h.2⟩

/-- **Segment by segment.** The pieces of a pattern match the whole path where the segments of the
pattern match its segments, each `**` for segments without a line break. -/
theorem matchExact_segments (hparts : parts ≠ []) (hslash : ∀ part ∈ parts, '/' ∉ part)
    (hstars : WholeStars parts) (hne : names ≠ []) (hnames : ∀ name ∈ names, '/' ∉ name) :
    matchExact (compile (pathText parts)) (pathText names) = true
      ↔ cleanMatch parts names = true := by
  induction parts generalizing names with
  | nil => exact absurd rfl hparts
  | cons part parts ih =>
    rw [List.forall_mem_cons] at hslash
    rw [WholeStars, List.forall_mem_cons] at hstars
    rw [cleanMatch_cons, pathText_cons]
    by_cases hpart : part = ['*', '*']
    · rw [if_pos hpart, hpart]
      by_cases hlast : parts = []
      · -- `.*` takes the whole path.
        rw [if_pos hlast, if_pos hlast]
        have hanything : matchExact [.anything] (pathText names) = true
            ↔ '\n' ∉ pathText names := by
          simp only [matchExact, List.any_eq_true, mem_rests, Takes, List.isEmpty_iff]
          constructor
          · rintro ⟨_, ⟨taken, htaken, htext⟩, rfl⟩
            rw [htext, List.append_nil]
            exact htaken
          · intro hbreak
            exact ⟨[], ⟨pathText names, hbreak, (List.append_nil _).symm⟩, rfl⟩
        show matchExact [.anything] (pathText names) = true ↔ _
        rw [hanything, break_notMem_iff]
        simp [hne]
      · rw [if_neg hlast, if_neg hlast]
        show matchExact (.directories :: compile (pathText parts)) (pathText names) = true ↔ _
        rw [matchExact_directories hnames hne, List.any_eq_true]
        refine exists_congr fun behind => and_congr_right fun hbehind => ?_
        by_cases hnil : behind = []
        · rw [hnil, cleanMatch_nil hlast]
          simp
        · obtain ⟨front, -, rfl⟩ := mem_cleanTails.mp hbehind
          rw [and_iff_right hnil]
          refine ih hlast hslash.2 hstars.2 hnil fun name hname => ?_
          exact hnames name (List.mem_append_right _ hname)
    · have hplain : ¬['*', '*'] <:+: part := fun h => hpart (hstars.1 h)
      rw [if_neg hpart]
      by_cases hlast : parts = []
      · have hcompile := @compile_segment part [] hplain (by simp)
        rw [if_pos hlast, hcompile, matchExact_segment hslash.1]
        constructor
        · rintro ⟨name, behind, hname, htext, hmatch, hend⟩
          obtain rfl : behind = [] := List.isEmpty_iff.mp hend
          have hone := splitOn_pathText hne hnames
          rw [htext, List.append_nil, List.splitOn_eq_singleton hname] at hone
          rw [← hone, hlast]
          simp [hmatch, cleanMatch]
        · intro hmatch
          cases names with
          | nil => cases hmatch
          | cons name names =>
            rw [hlast, Bool.and_eq_true] at hmatch
            obtain rfl : names = [] := List.isEmpty_iff.mp hmatch.2
            exact ⟨name, [], hnames name List.mem_cons_self, rfl, hmatch.1, rfl⟩
      · have hcompile := @compile_segment part ('/' :: pathText parts) hplain (by simp)
        have hliteral : ∀ behind, matchExact (compile ('/' :: pathText parts)) behind = true
            ↔ ∃ after, behind = '/' :: after
              ∧ matchExact (compile (pathText parts)) after = true := by
          intro behind
          show matchExact (.literal '/' :: compile (pathText parts)) behind = true ↔ _
          rw [matchExact, List.any_eq_true]
          cases behind with
          | nil => simp [Token.rests]
          | cons c behind => by_cases hc : c = '/' <;> simp [Token.rests, hc]
        rw [if_neg hlast, hcompile, matchExact_segment hslash.1]
        simp only [hliteral]
        constructor
        · rintro ⟨name, _, hname, htext, hmatch, after, rfl, hbehind⟩
          obtain ⟨later, rfl, hlater, rfl⟩ := pathText_split hne hnames hname htext
          rw [List.forall_mem_cons] at hnames
          have hrest := (ih hlast hslash.2 hstars.2 hlater hnames.2).mp hbehind
          simp [hmatch, hrest]
        · intro hmatch
          cases names with
          | nil => cases hmatch
          | cons name names =>
            rw [Bool.and_eq_true] at hmatch
            rw [List.forall_mem_cons] at hnames
            have hmore : names ≠ [] := by
              rintro rfl
              rw [cleanMatch_nil hlast] at hmatch
              cases hmatch.2
            rw [pathText_cons, if_neg hmore]
            refine ⟨name, _, hnames.1, rfl, hmatch.1, _, rfl, ?_⟩
            exact (ih hlast hslash.2 hstars.2 hmore hnames.2).mpr hmatch.2

/-! ## One pattern and one path -/

theorem EndsInBreak.ne_nil {trimmed : List (List Char)} (h : EndsInBreak names trimmed) :
    trimmed ≠ [] := by
  obtain ⟨front, name, -, rfl⟩ := h
  simp

theorem EndsInBreak.not_slash {trimmed : List (List Char)} (h : EndsInBreak names trimmed)
    (hnames : ∀ name ∈ names, '/' ∉ name) : ∀ name ∈ trimmed, '/' ∉ name := by
  obtain ⟨front, last, rfl, rfl⟩ := h
  intro name hname
  rcases List.mem_append.mp hname with hfront | hlast
  · exact hnames name (List.mem_append_left _ hfront)
  · obtain rfl := List.mem_singleton.mp hlast
    intro hmem
    exact hnames _ (List.mem_append_right _ List.mem_cons_self) (List.mem_append_left _ hmem)

/-- A path without a line break leaves `**` as it is documented. -/
theorem cleanMatch_of_break_notMem (hnone : ∀ name ∈ names, '\n' ∉ name) :
    cleanMatch parts names = segmentsMatch parts names := by
  induction parts generalizing names with
  | nil => rfl
  | cons part parts ih =>
    rw [cleanMatch_cons, segmentsMatch_cons]
    split_ifs with hstars hlast
    · have hall : (names.all fun name => !name.contains '\n') = true := by simpa using hnone
      rw [hall, Bool.and_true]
    · rw [Bool.eq_iff_iff, List.any_eq_true, List.any_eq_true]
      constructor
      · rintro ⟨behind, hbehind, hmatch⟩
        obtain ⟨front, -, rfl⟩ := mem_cleanTails.mp hbehind
        exact ⟨behind, (List.mem_tails _ _).mpr (List.suffix_append front behind),
          segmentsMatch_of_cleanMatch hmatch⟩
      · rintro ⟨behind, hbehind, hmatch⟩
        obtain ⟨front, rfl⟩ := (List.mem_tails _ _).mp hbehind
        rw [List.forall_mem_append] at hnone
        exact ⟨behind, mem_cleanTails.mpr ⟨front, hnone.1, rfl⟩, by rw [ih hnone.2, hmatch]⟩
    · cases names with
      | nil => rfl
      | cons name names => exact congrArg (segmentMatches part name && ·) (ih (List.forall_mem_cons.mp hnone).2)

/-- So does a pattern without `**`. -/
theorem cleanMatch_of_stars_notMem (hstars : ['*', '*'] ∉ parts) :
    cleanMatch parts names = segmentsMatch parts names := by
  induction parts generalizing names with
  | nil => rfl
  | cons part parts ih =>
    rw [List.mem_cons, not_or] at hstars
    rw [cleanMatch_cons, segmentsMatch_cons, if_neg (Ne.symm hstars.1), if_neg (Ne.symm hstars.1)]
    cases names with
    | nil => rfl
    | cons name names => exact congrArg (segmentMatches part name && ·) (ih hstars.2)

/-- A path with a line break at its end. -/
theorem endsInBreak_iff (hne : names ≠ []) (hnames : ∀ name ∈ names, name ≠ [] ∧ '/' ∉ name)
    {front : List Char} : pathText names = front ++ ['\n']
      ↔ ∃ trimmed, EndsInBreak names trimmed ∧ front = pathText trimmed := by
  -- The text of a path ends with its last segment.
  have hends : ∀ (front : List (List Char)) (name : List Char), ∃ directory,
      pathText (front ++ [name]) = directory ++ name
        ∧ ∀ other, pathText (front ++ [other]) = directory ++ other := by
    intro front name
    by_cases hfront : front = []
    · exact ⟨[], by rw [hfront]; simp [pathText], fun other => by rw [hfront]; simp [pathText]⟩
    · refine ⟨pathText front ++ ['/'], ?_, fun other => ?_⟩ <;>
      · rw [pathText_append hfront (List.cons_ne_nil _ _), pathText_cons, if_pos rfl]
        simp
  constructor
  · intro h
    obtain ⟨init, last, rfl⟩ := (List.eq_nil_or_concat' names).resolve_left hne
    have hlast := (hnames last (List.mem_append_right _ List.mem_cons_self)).1
    obtain ⟨name, c, rfl⟩ := (List.eq_nil_or_concat' last).resolve_left hlast
    obtain ⟨directory, htext, hother⟩ := hends init (name ++ [c])
    rw [htext, ← List.append_assoc] at h
    obtain ⟨hfront, hbreak⟩ := List.append_inj' h rfl
    obtain rfl := List.singleton_inj.mp hbreak
    exact ⟨init ++ [name], ⟨init, name, rfl, rfl⟩, by rw [hother name, hfront]⟩
  · rintro ⟨_, ⟨init, name, rfl, rfl⟩, rfl⟩
    obtain ⟨directory, htext, hother⟩ := hends init (name ++ ['\n'])
    rw [htext, hother name, List.append_assoc]

/-- **What the code matches.** A pattern matches a path when its segments match those of the path,
each `**` for segments without a line break, or match in this way the path without a line break at
its end. -/
theorem pathMatches_iff (hne : names ≠ []) (hnames : ∀ name ∈ names, name ≠ [] ∧ '/' ∉ name)
    (pattern : String) (hstars : WholeStars (pattern.toList.splitOn '/')) :
    pathMatches (String.ofList (pathText names)) pattern = true
      ↔ cleanMatch (pattern.toList.splitOn '/') names = true
        ∨ ∃ trimmed, EndsInBreak names trimmed
          ∧ cleanMatch (pattern.toList.splitOn '/') trimmed = true := by
  have hslash : ∀ name ∈ names, '/' ∉ name := fun name hname => (hnames name hname).2
  -- The pieces of the pattern, on any path.
  have hexact : ∀ names : List (List Char), names ≠ [] → (∀ name ∈ names, '/' ∉ name) →
      (matchExact (compile pattern.toList) (pathText names) = true
        ↔ cleanMatch (pattern.toList.splitOn '/') names = true) := by
    intro names hne hnames
    have hpieces := matchExact_segments (List.splitOn_ne_nil '/' pattern.toList)
      (fun part hpart => not_slash_of_mem_splitOn hpart) hstars hne hnames
    rwa [pathText_splitOn] at hpieces
  rw [pathMatches, String.toList_ofList, matchTokens_iff, hexact names hne hslash]
  refine or_congr_right ⟨?_, ?_⟩
  · rintro ⟨front, htext, hmatch⟩
    obtain ⟨trimmed, hends, rfl⟩ := (endsInBreak_iff hne hnames).mp htext
    exact ⟨trimmed, hends, (hexact trimmed hends.ne_nil (hends.not_slash hslash)).mp hmatch⟩
  · rintro ⟨trimmed, hends, hmatch⟩
    exact ⟨pathText trimmed, (endsInBreak_iff hne hnames).mpr ⟨trimmed, hends, rfl⟩,
      (hexact trimmed hends.ne_nil (hends.not_slash hslash)).mpr hmatch⟩

/-- The line breaks of a path make no difference for a pattern when the path has none, or when the
path does not end in one and no segment of the pattern is `**`. -/
theorem breaksHarmless_of_plain (h : (∀ name ∈ names, '\n' ∉ name)
    ∨ (∀ trimmed, ¬EndsInBreak names trimmed) ∧ ['*', '*'] ∉ parts) :
    BreaksHarmless parts names := by
  have hending : ∀ trimmed, ¬EndsInBreak names trimmed := by
    rcases h with hnone | ⟨hends, -⟩
    · rintro _ ⟨front, name, rfl, -⟩
      exact hnone _ (List.mem_append_right _ List.mem_cons_self) (by simp)
    · exact hends
  refine ⟨fun hmatch => .inl ?_, fun trimmed hends => absurd hends (hending trimmed)⟩
  rcases h with hnone | ⟨-, hstars⟩
  · rwa [cleanMatch_of_break_notMem hnone]
  · rwa [cleanMatch_of_stars_notMem hstars]

/-- **Patterns.** A pattern matches what it documents of a path exactly when the line breaks of the
path make no difference for it. -/
theorem globs_iff (hne : names ≠ []) (hnames : ∀ name ∈ names, name ≠ [] ∧ '/' ∉ name)
    (pattern : String) (hstars : WholeStars (pattern.toList.splitOn '/')) :
    pathMatches (String.ofList (pathText names)) pattern
        = segmentsMatch (pattern.toList.splitOn '/') names
      ↔ BreaksHarmless (pattern.toList.splitOn '/') names := by
  have hmatches := pathMatches_iff hne hnames pattern hstars
  rw [Bool.eq_iff_iff, hmatches]
  constructor
  · intro h
    exact ⟨h.mpr, fun trimmed hends hmatch => h.mp (.inr ⟨trimmed, hends, hmatch⟩)⟩
  · rintro ⟨hcrossed, hending⟩
    refine ⟨?_, hcrossed⟩
    rintro (hclean | ⟨trimmed, hends, hmatch⟩)
    · exact segmentsMatch_of_cleanMatch hclean
    · exact hending trimmed hends hmatch

end

/-- `globs_iff` for a path with a line break in it: no `**` of the pattern has to cross it. -/
theorem globs_break_inside :
    pathMatches (String.ofList (pathText ["docs".toList, "a\nb".toList, "c.md".toList])) "**/a*/c.md"
      = segmentsMatch ("**/a*/c.md".toList.splitOn '/')
        ["docs".toList, "a\nb".toList, "c.md".toList] := by
  have hstars : WholeStars ("**/a*/c.md".toList.splitOn '/') := by
    unfold WholeStars
    decide
  have hending : ∀ trimmed, ¬EndsInBreak ["docs".toList, "a\nb".toList, "c.md".toList] trimmed := by
    rintro _ ⟨front, name, h, -⟩
    have hlast := congrArg (fun names => (names.getLast?).bind List.getLast?) h
    simp at hlast
  exact (globs_iff (List.cons_ne_nil _ _) (by decide) "**/a*/c.md" hstars).mpr
    ⟨fun _ => .inl (by decide), fun trimmed hends => absurd hends (hending trimmed)⟩

/-- A pattern without wildcards matches a path with a line break behind it, and `**` does not match
a path with a line break in it. -/
theorem break_differs :
    pathMatches "CLAUDE.md\n" "CLAUDE.md" = true
    ∧ segmentsMatch ["CLAUDE.md".toList] ["CLAUDE.md\n".toList] = false
    ∧ pathMatches "a\nb" "**" = false ∧ segmentsMatch [['*', '*']] ["a\nb".toList] = true := by
  decide

end TrustPortal.Proofs.GitSources
