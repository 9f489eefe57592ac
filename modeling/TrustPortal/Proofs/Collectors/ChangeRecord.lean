import TrustPortal.Collectors.ChangeRecord
import Mathlib.Data.List.Induction
import Mathlib.Data.List.TakeWhile

/-!
# `TrustPortal.Proofs.Collectors.ChangeRecord`: the sections a message carries

`Carries` says what the module documents of a section: a `##` heading line with its name in any
case, and text before the next `#` or `##` heading, in the message without its closing trailer
paragraph (`IsBody`). `missingSections_spec` proves that `missing_sections` returns the required
sections that the message does not carry.
-/

set_option autoImplicit false

namespace TrustPortal.Proofs.Collectors

open TrustPortal.Python
open TrustPortal.Collectors

/-- Spaces and tabs. -/
def AllBlank (text : Str) : Prop := ∀ c ∈ text, isBlank c = true

/-- A heading line: `#` or `##`, a gap, and the title, with blanks around them. -/
def IsHeading (level : Nat) (title line : Str) : Prop :=
  ∃ indent gap tail, line = indent ++ (List.replicate level (.ofChar '#') ++ (gap ++ (title ++ tail)))
    ∧ AllBlank indent ∧ AllBlank gap ∧ AllBlank tail ∧ gap ≠ [] ∧ (level = 1 ∨ level = 2)
    ∧ (∀ c ∈ title.head?, isBlank c = false) ∧ ∀ c ∈ title.getLast?, isBlank c = false

/-- A line that is no heading. -/
def IsPlain (line : Str) : Prop := ∀ level title, ¬IsHeading level title line

/-- The heading of a section, in any case. -/
def Opens (name line : Str) : Prop := ∃ title, IsHeading 2 title line ∧ lower title = lower name

/-- The lines of a message without the empty lines at its end, and without a closing paragraph of
trailers. -/
def IsBody (lines body : List Str) : Prop :=
  ∃ before paragraph ending, lines = before ++ paragraph ++ ending
    ∧ (∀ line ∈ ending, isEmptyLine line = true) ∧ (∀ line ∈ paragraph, isEmptyLine line = false)
    ∧ (∀ line ∈ before.getLast?, isEmptyLine line = true) ∧ (paragraph = [] → before = [])
    ∧ body = if isTrailerBlock paragraph = true then before else before ++ paragraph

/-- The heading of the section is the last one. -/
def Under (name : Str) (lines : List Str) : Prop :=
  ∃ before line between, lines = before ++ line :: between ∧ Opens name line
    ∧ ∀ other ∈ between, IsPlain other

/-- The section has text before the next heading. -/
def HasText (name : Str) (lines : List Str) : Prop :=
  ∃ before line between text after, lines = before ++ line :: (between ++ text :: after)
    ∧ Opens name line ∧ (∀ other ∈ between, IsPlain other) ∧ IsPlain text
    ∧ isEmptyLine text = false

/-- **A section of a message**, as the module documents it. -/
def Carries (name message : Str) : Prop :=
  ∃ body, IsBody (messageLines message) body ∧ HasText name body

section
variable {line title name : Str} {lines : List Str} {level : Nat}

/-! ## Headings -/

/-- Where a run of items ends. -/
private theorem span_append {α : Type} {p : α → Bool} {run rest : List α} (hrun : ∀ c ∈ run, p c = true)
    (hrest : ∀ c ∈ rest.head?, p c = false) :
    (run ++ rest).takeWhile p = run ∧ (run ++ rest).dropWhile p = rest := by
  induction run with
  | nil =>
    cases rest with
    | nil => exact ⟨rfl, rfl⟩
    | cons c rest =>
      rw [List.nil_append, List.takeWhile_cons, List.dropWhile_cons, hrest c rfl]
      exact ⟨rfl, rfl⟩
  | cons c run ih =>
    obtain ⟨htake, hdrop⟩ := ih fun d hd => hrun d (List.mem_cons_of_mem c hd)
    rw [List.cons_append, List.takeWhile_cons, List.dropWhile_cons, hrun c List.mem_cons_self,
      if_pos rfl, if_pos rfl, htake, hdrop]
    exact ⟨rfl, rfl⟩

private theorem head_dropWhile {α : Type} {p : α → Bool} {items : List α} {a : α}
    (h : a ∈ (items.dropWhile p).head?) : p a = false := by
  induction items with
  | nil => cases h
  | cons b rest ih =>
    rw [List.dropWhile_cons] at h
    split_ifs at h with hb
    · exact ih h
    · cases h
      exact Bool.eq_false_iff.mpr hb

/-- The text without the blanks at its end. -/
private theorem trimEnd_spec (text : Str) : ∃ tail, AllBlank tail
    ∧ text = (text.reverse.dropWhile isBlank).reverse ++ tail
    ∧ ∀ c ∈ (text.reverse.dropWhile isBlank).reverse.getLast?, isBlank c = false := by
  refine ⟨(text.reverse.takeWhile isBlank).reverse, fun c hc => ?_, ?_, fun c hc => ?_⟩
  · exact List.mem_takeWhile_imp (List.mem_reverse.mp hc)
  · rw [← List.reverse_append, List.takeWhile_append_dropWhile, List.reverse_reverse]
  · rw [List.getLast?_reverse] at hc
    exact head_dropWhile hc

/-- Blanks at the end are dropped. -/
private theorem trimEnd_append {tail : Str} (htail : AllBlank tail)
    (hlast : ∀ c ∈ title.getLast?, isBlank c = false) :
    ((title ++ tail).reverse.dropWhile isBlank).reverse = title := by
  have hspan := (@span_append _ isBlank tail.reverse title.reverse
    (fun c hc => htail c (List.mem_reverse.mp hc)) fun c hc =>
      hlast c (List.head?_reverse ▸ hc)).2
  rw [List.reverse_append, hspan, List.reverse_reverse]

/-- **Headings.** The regular expression matches the lines that are headings, and finds their title
without the blanks around it. -/
theorem heading_eq_some : heading line = some (level, title) ↔ IsHeading level title line := by
  constructor
  · intro h
    simp only [heading] at h
    split_ifs at h with hmatch
    obtain ⟨hmarks, hgap⟩ := hmatch
    simp only [Option.some.injEq, Prod.mk.injEq] at h
    obtain ⟨rfl, rfl⟩ := h
    generalize hrest : line.dropWhile isBlank = rest at hmarks hgap ⊢
    generalize hafter : rest.dropWhile (CodePoint.is · '#') = after at hgap ⊢
    obtain ⟨tail, htail, htrim, hlast⟩ := trimEnd_spec (after.dropWhile isBlank)
    refine ⟨line.takeWhile isBlank, after.takeWhile isBlank, tail, ?_,
      fun c hc => List.mem_takeWhile_imp hc, fun c hc => List.mem_takeWhile_imp hc, htail, ?_,
      hmarks, ?_, hlast⟩
    · have hmark : rest.takeWhile (CodePoint.is · '#')
          = List.replicate (rest.takeWhile (CodePoint.is · '#')).length (.ofChar '#') := by
        refine List.eq_replicate_of_mem fun c hc => ?_
        have his : c.is '#' = true := List.mem_takeWhile_imp (p := (CodePoint.is · '#')) hc
        rw [CodePoint.is, beq_iff_eq] at his
        exact CodePoint.ext his
      rw [← htrim, List.takeWhile_append_dropWhile, ← hafter, ← hmark,
        List.takeWhile_append_dropWhile, ← hrest, List.takeWhile_append_dropWhile]
    · cases after with
      | nil => cases hgap
      | cons c rest =>
        have hc : isBlank c = true := hgap
        rw [List.takeWhile_cons, if_pos hc]
        nofun
    · intro c hc
      refine @head_dropWhile CodePoint isBlank after c ?_
      rw [htrim]
      cases htitle : ((after.dropWhile isBlank).reverse.dropWhile isBlank).reverse with
      | nil => rw [htitle] at hc; cases hc
      | cons d rest => rwa [htitle] at hc
  · rintro ⟨indent, gap, tail, rfl, hindent, hgap, htail, hne, hlevel, hhead, hlast⟩
    obtain ⟨first, gap, rfl⟩ := List.exists_cons_of_ne_nil hne
    have hfirst : isBlank first = true := hgap first List.mem_cons_self
    have hmark : first.is '#' = false := by
      simp only [isBlank, CodePoint.is, Bool.or_eq_true, beq_iff_eq] at hfirst
      rw [CodePoint.is, beq_eq_false_iff_ne]
      rcases hfirst with h | h <;> rw [h] <;> decide
    have hrest := (@span_append _ isBlank indent (List.replicate level (.ofChar '#')
      ++ (first :: gap ++ (title ++ tail))) hindent (by
        rcases hlevel with rfl | rfl <;> (rintro c ⟨⟩; rfl))).2
    have hmarks := @span_append _ (CodePoint.is · '#') (List.replicate level (.ofChar '#'))
      (first :: gap ++ (title ++ tail)) (fun c hc => by rw [List.eq_of_mem_replicate hc]; rfl)
      (by rintro c ⟨⟩; exact hmark)
    have htitle : ((first :: gap ++ (title ++ tail)).dropWhile isBlank).reverse.dropWhile isBlank
        = title.reverse := by
      cases title with
      | nil =>
        have hall : (first :: gap ++ ([] ++ tail)).dropWhile isBlank = [] := by
          rw [List.dropWhile_eq_nil_iff]
          intro c hc
          rcases List.mem_append.mp hc with hc | hc
          · exact hgap c hc
          · exact htail c hc
        rw [hall]
        rfl
      | cons c title =>
        have hdrop := (@span_append _ isBlank (first :: gap) (c :: title ++ tail) hgap
          (by rintro d ⟨⟩; exact hhead c rfl)).2
        rw [hdrop, ← List.reverse_inj, List.reverse_reverse]
        exact trimEnd_append htail hlast
    simp only [heading, hrest, hmarks, htitle, List.length_replicate, List.reverse_reverse]
    rw [if_pos ⟨hlevel, hfirst⟩]

/-! ## The lines of a message -/

/-- Every line is a heading or a plain line. -/
theorem heading_eq_none : heading line = none ↔ IsPlain line := by
  constructor
  · intro h level title hheading
    rw [heading_eq_some.mpr hheading] at h
    cases h
  · intro h
    cases hheading : heading line with
    | none => rfl
    | some found => exact absurd (heading_eq_some.mp hheading) (h found.1 found.2)

/-- The body of a message is what the source leaves of it. -/
private theorem sectionLines_isBody (message : Str) :
    IsBody (messageLines message) (sectionLines message) := by
  have hends := @List.takeWhile_append_dropWhile _ isEmptyLine (messageLines message).reverse
  generalize hlines : ((messageLines message).reverse.dropWhile isEmptyLine).reverse = lines
  have hsplit := @List.takeWhile_append_dropWhile _ (fun line => !isEmptyLine line) lines.reverse
  refine ⟨(lines.reverse.dropWhile fun line => !isEmptyLine line).reverse,
    (lines.reverse.takeWhile fun line => !isEmptyLine line).reverse,
    ((messageLines message).reverse.takeWhile isEmptyLine).reverse, ?_, ?_, ?_, ?_, ?_, ?_⟩
  · rw [← List.reverse_append, hsplit, List.reverse_reverse, ← hlines, ← List.reverse_append, hends,
      List.reverse_reverse]
  · intro line hline
    exact List.mem_takeWhile_imp (List.mem_reverse.mp hline)
  · intro line hline
    have hnot : (!isEmptyLine line) = true :=
      List.mem_takeWhile_imp (p := fun line => !isEmptyLine line) (List.mem_reverse.mp hline)
    simpa using hnot
  · intro line hline
    rw [List.getLast?_reverse] at hline
    simpa using head_dropWhile hline
  · -- The last line that is left is not empty, so the paragraph is empty where there is none.
    intro hnone
    rw [List.reverse_eq_nil_iff] at hnone ⊢
    cases hreverse : lines.reverse with
    | nil => rfl
    | cons last rest =>
      have hlast : isEmptyLine last = false := by
        have hhead : last ∈ ((messageLines message).reverse.dropWhile isEmptyLine).head? := by
          rw [← List.reverse_reverse ((messageLines message).reverse.dropWhile isEmptyLine), hlines,
            hreverse]
          rfl
        exact head_dropWhile hhead
      rw [hreverse, List.takeWhile_cons, hlast] at hnone
      cases hnone
  · have hparts : (lines.reverse.dropWhile fun line => !isEmptyLine line).reverse
        ++ (lines.reverse.takeWhile fun line => !isEmptyLine line).reverse = lines := by
      rw [← List.reverse_append, hsplit, List.reverse_reverse]
    rw [hparts]
    simp only [sectionLines, hlines]

/-- A message has one body. -/
private theorem isBody_unique {body body' : List Str} (h : IsBody lines body)
    (h' : IsBody lines body') : body = body' := by
  -- Read from the end, the empty lines and then the paragraph are runs of lines.
  have hruns : ∀ {body : List Str}, IsBody lines body →
      body = let rest := lines.reverse.dropWhile isEmptyLine
        if isTrailerBlock (rest.takeWhile fun line => !isEmptyLine line).reverse = true then
          (rest.dropWhile fun line => !isEmptyLine line).reverse
        else rest.reverse := by
    rintro body ⟨before, paragraph, ending, rfl, hending, hparagraph, hbefore, hnone, rfl⟩
    have hrest : (before ++ paragraph ++ ending).reverse.dropWhile isEmptyLine
        = paragraph.reverse ++ before.reverse := by
      rw [List.reverse_append, List.reverse_append]
      refine (span_append (fun line hline => hending line (List.mem_reverse.mp hline)) ?_).2
      intro line hline
      cases hreverse : paragraph.reverse with
      | nil =>
        rw [hreverse, hnone (List.reverse_eq_nil_iff.mp hreverse)] at hline
        cases hline
      | cons last rest =>
        rw [hreverse] at hline
        cases hline
        exact hparagraph _ (List.mem_reverse.mp (hreverse ▸ List.mem_cons_self))
    have hspan := @span_append _ (fun line => !isEmptyLine line) paragraph.reverse before.reverse
      (fun line hline => by rw [hparagraph line (List.mem_reverse.mp hline)]; rfl)
      fun line hline => by
        rw [List.head?_reverse] at hline
        rw [hbefore line hline]
        rfl
    dsimp only
    rw [hrest, hspan.1, hspan.2, List.reverse_reverse, List.reverse_reverse, List.reverse_append,
      List.reverse_reverse, List.reverse_reverse]
  exact (hruns h).trans (hruns h').symm

/-! ## The state of the loop -/

private theorem under_snoc : Under name (lines ++ [line])
    ↔ Opens name line ∨ IsPlain line ∧ Under name lines := by
  constructor
  · rintro ⟨before, opening, between, hlines, hopens, hplain⟩
    rcases List.eq_nil_or_concat between with rfl | ⟨between, last, rfl⟩
    · obtain ⟨rfl, heq⟩ := List.append_inj' hlines rfl
      cases heq
      exact .inl hopens
    · rw [List.concat_eq_append, ← List.cons_append, ← List.append_assoc] at hlines
      obtain ⟨rfl, heq⟩ := List.append_inj' hlines rfl
      cases heq
      exact .inr ⟨hplain line (by simp), before, opening, between, rfl, hopens,
        fun other hother => hplain other (by simp [hother])⟩
  · rintro (hopens | ⟨hline, before, opening, between, rfl, hopens, hplain⟩)
    · exact ⟨lines, line, [], rfl, hopens, nofun⟩
    · refine ⟨before, opening, between ++ [line], by simp, hopens, fun other hother => ?_⟩
      rcases List.mem_append.mp hother with hother | hother
      · exact hplain other hother
      · rw [List.mem_singleton.mp hother]
        exact hline

private theorem hasText_snoc : HasText name (lines ++ [line])
    ↔ HasText name lines ∨ Under name lines ∧ IsPlain line ∧ isEmptyLine line = false := by
  constructor
  · rintro ⟨before, opening, between, text, after, hlines, hopens, hplain, htext, hempty⟩
    rcases List.eq_nil_or_concat after with rfl | ⟨after, last, rfl⟩
    · rw [← List.cons_append, ← List.append_assoc] at hlines
      obtain ⟨rfl, heq⟩ := List.append_inj' hlines rfl
      cases heq
      exact .inr ⟨⟨before, opening, between, rfl, hopens, hplain⟩, htext, hempty⟩
    · have hassoc : before ++ opening :: (between ++ text :: after.concat last)
          = before ++ opening :: (between ++ text :: after) ++ [last] := by simp
      rw [hassoc] at hlines
      obtain ⟨rfl, _⟩ := List.append_inj' hlines rfl
      exact .inl ⟨before, opening, between, text, after, rfl, hopens, hplain, htext, hempty⟩
  · rintro (⟨before, opening, between, text, after, rfl, hrest⟩
      | ⟨⟨before, opening, between, rfl, hopens, hplain⟩, htext, hempty⟩)
    · exact ⟨before, opening, between, text, after ++ [line], by simp, hrest⟩
    · exact ⟨before, opening, between, line, [], by simp, hopens, hplain, htext, hempty⟩

/-- What the loop knows after some lines: the section whose heading came last, and the sections
that have text. -/
private theorem fold_spec (lines : List Str) :
    let state := lines.foldl SectionState.step ⟨none, fun _ => false⟩
    (∀ name ∈ REQUIRED_SECTIONS, state.current = some (lower name) ↔ Under name lines)
      ∧ ∀ name ∈ REQUIRED_SECTIONS, state.hasText (lower name) = true ↔ HasText name lines := by
  induction lines using List.reverseRecOn with
  | nil =>
    refine ⟨fun name _ => iff_of_false nofun ?_, fun name _ => iff_of_false nofun ?_⟩
    · rintro ⟨before, line, between, hlines, _⟩
      simp at hlines
    · rintro ⟨before, line, between, text, after, hlines, _⟩
      simp at hlines
  | append_singleton lines line ih =>
    obtain ⟨hcurrent, htext⟩ := ih
    rw [List.foldl_append]
    generalize lines.foldl SectionState.step ⟨none, fun _ => false⟩ = state at hcurrent htext
    show (∀ name ∈ REQUIRED_SECTIONS, (state.step line).current = some (lower name) ↔ _)
      ∧ ∀ name ∈ REQUIRED_SECTIONS, (state.step line).hasText (lower name) = true ↔ _
    cases hheading : heading line with
    | some found =>
      obtain ⟨level, title⟩ := found
      have hline := heading_eq_some.mp hheading
      have hnot : ¬IsPlain line := fun hplain => hplain level title hline
      have hstep : state.step line = { state with
          current := if level = 2 ∧ lower title ∈ REQUIRED_SECTIONS.map lower then
            some (lower title) else none } := by
        rw [SectionState.step, hheading]
      have hopens : ∀ name ∈ REQUIRED_SECTIONS, (state.step line).current = some (lower name)
          ↔ Opens name line := by
        intro name hname
        rw [hstep]
        constructor
        · intro h
          dsimp only at h
          split_ifs at h with hopen
          obtain rfl := hopen.1
          exact ⟨title, hline, Option.some.inj h⟩
        · rintro ⟨title', hopen, hlower⟩
          have hfound := hheading.symm.trans (heading_eq_some.mpr hopen)
          cases hfound
          dsimp only
          rw [if_pos ⟨rfl, hlower ▸ List.mem_map_of_mem hname⟩, hlower]
      refine ⟨fun name hname => ?_, fun name hname => ?_⟩
      · rw [hopens name hname, under_snoc]
        exact ⟨.inl, fun h => h.elim id fun h => absurd h.1 hnot⟩
      · rw [hasText_snoc, hstep]
        exact (htext name hname).trans ⟨.inl, fun h => h.elim id fun h => absurd h.2.1 hnot⟩
    | none =>
      have hline := heading_eq_none.mp hheading
      have hnot : ∀ name, ¬Opens name line := fun name ⟨title, h, _⟩ => hline 2 title h
      have hkeeps : (state.step line).current = state.current := by
        rw [SectionState.step, hheading]
        cases hopen : state.current with
        | none => exact hopen
        | some title =>
          cases isEmptyLine line with
          | true => exact hopen
          | false => rfl
      refine ⟨fun name hname => ?_, fun name hname => ?_⟩
      · rw [hkeeps, hcurrent name hname, under_snoc]
        exact ⟨fun h => .inr ⟨hline, h⟩, fun h => h.elim (fun h => absurd h (hnot name)) And.right⟩
      · rw [hasText_snoc, ← htext name hname, ← hcurrent name hname]
        have hstep : (state.step line).hasText (lower name) = true ↔ state.hasText (lower name) = true
            ∨ state.current = some (lower name) ∧ isEmptyLine line = false := by
          rw [SectionState.step, hheading]
          cases hopen : state.current with
          | none => simp
          | some title =>
            cases hempty : isEmptyLine line with
            | true => simp
            | false =>
              simp only [Bool.false_eq_true, if_false, Bool.or_eq_true, decide_eq_true_eq,
                Option.some.injEq, and_true]
              exact ⟨fun h => h.elim (fun h => .inr h.symm) .inl,
                fun h => h.elim .inr fun h => .inl h.symm⟩
        rw [hstep]
        exact ⟨fun h => h.imp id fun h => ⟨h.1, hline, h.2⟩, fun h => h.imp id fun h => ⟨h.1, h.2.2⟩⟩

/-- **The sections of a message.** A required section is missing exactly where the message does not
carry it. -/
theorem missingSections_spec (message : Str) (name : Str) (hname : name ∈ REQUIRED_SECTIONS) :
    name ∈ missingSections message ↔ ¬Carries name message := by
  have htext := (fold_spec (sectionLines message)).2 name hname
  have hcarries : Carries name message ↔ HasText name (sectionLines message) := by
    constructor
    · rintro ⟨body, hbody, h⟩
      rwa [isBody_unique hbody (sectionLines_isBody message)] at h
    · exact fun h => ⟨_, sectionLines_isBody message, h⟩
  rw [hcarries, ← htext, missingSections]
  simp [List.mem_filter, hname]

/-- Nothing is missing where the message carries all sections. -/
theorem missingSections_eq_nil {message : Str} :
    missingSections message = [] ↔ ∀ name ∈ REQUIRED_SECTIONS, Carries name message := by
  rw [List.eq_nil_iff_forall_not_mem]
  constructor
  · intro h name hname
    exact not_not.mp fun hnot => h name ((missingSections_spec message name hname).mpr hnot)
  · intro h name hmem
    have hname : name ∈ REQUIRED_SECTIONS := (List.mem_filter.mp hmem).1
    exact (missingSections_spec message name hname).mp hmem (h name hname)

end

end TrustPortal.Proofs.Collectors
