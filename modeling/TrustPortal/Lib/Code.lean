import Mathlib.Data.List.Basic
import Mathlib.Data.Set.Function

/-!
# `TrustPortal.Lib.Code`: codes whose words end by themselves

A code gives each symbol a word. `SelfDelimiting code domain` says that a text which begins with
the word of a symbol in `domain` begins with the word of no other one, and the rest of the text is
determined too. So texts put together from words can be taken apart, and two lists of symbols with
one text are one list (`SelfDelimiting.flatMap_injOn`).

* `SelfDelimiting.of_decoder`: a function that reads one word.
* `SelfDelimiting.terminated`: a list of words up to a stop letter, such as a string literal.
* `SelfDelimiting.option`: a word for `none` beside the words of a code.
-/

set_option autoImplicit false

namespace TrustPortal.Lib

section
variable {α β : Type} {code : α → List β} {domain : Set α}

/-- The word at the beginning of a text determines its symbol and the rest of the text. -/
def SelfDelimiting (code : α → List β) (domain : Set α) : Prop :=
  ∀ a ∈ domain, ∀ b ∈ domain, ∀ s t, code a ++ s = code b ++ t → a = b ∧ s = t

/-- A function that reads one word shows that words end by themselves. -/
theorem SelfDelimiting.of_decoder (decode : List β → Option (α × List β))
    (h : ∀ a ∈ domain, ∀ s, decode (code a ++ s) = some (a, s)) : SelfDelimiting code domain := by
  intro a ha b hb s t heq
  have hpair : (a, s) = (b, t) := by
    rw [← Option.some_inj, ← h a ha s, ← h b hb t, heq]
  exact ⟨congrArg Prod.fst hpair, congrArg Prod.snd hpair⟩

/-- Words of one length end by themselves. -/
theorem SelfDelimiting.of_length (length : Nat) (hinj : Set.InjOn code domain)
    (hlength : ∀ a ∈ domain, (code a).length = length) : SelfDelimiting code domain := by
  intro a ha b hb s t heq
  obtain ⟨hword, hrest⟩ := List.append_inj heq ((hlength a ha).trans (hlength b hb).symm)
  exact ⟨hinj ha hb hword, hrest⟩

/-- The text of a list of symbols. Two lists with one text, where no word is empty, are one
list. -/
theorem SelfDelimiting.flatMap_injOn (h : SelfDelimiting code domain)
    (hne : ∀ a ∈ domain, code a ≠ []) :
    Set.InjOn (fun symbols : List α => symbols.flatMap code) {symbols | ∀ a ∈ symbols, a ∈ domain}
    := by
  intro as
  induction as with
  | nil =>
    intro _ bs hbs heq
    cases bs with
    | nil => rfl
    | cons b rest =>
      -- the word of `b` would be empty
      have hword : code b = [] := (List.append_eq_nil_iff.mp (show code b ++ rest.flatMap code = []
        from heq.symm)).1
      exact absurd hword (hne b (hbs b List.mem_cons_self))
  | cons a rest ih =>
    intro has bs hbs heq
    cases bs with
    | nil =>
      have hword : code a = [] := (List.append_eq_nil_iff.mp (show code a ++ rest.flatMap code = []
        from heq)).1
      exact absurd hword (hne a (has a List.mem_cons_self))
    | cons b others =>
      obtain ⟨rfl, hrest⟩ := h a (has a List.mem_cons_self) b (hbs b List.mem_cons_self)
        (rest.flatMap code) (others.flatMap code) heq
      rw [ih (fun c hc => has c (List.mem_cons_of_mem _ hc))
        (fun c hc => hbs c (List.mem_cons_of_mem _ hc)) hrest]

/-- Words up to a letter that begins no word. -/
theorem SelfDelimiting.terminated (h : SelfDelimiting code domain)
    (hne : ∀ a ∈ domain, code a ≠ []) {stop : β} (hstop : ∀ a ∈ domain, (code a).head? ≠ some stop) :
    SelfDelimiting (fun symbols : List α => symbols.flatMap code ++ [stop])
      {symbols | ∀ a ∈ symbols, a ∈ domain} := by
  -- a text that begins with a word does not begin with the stop letter
  have hfirst : ∀ a ∈ domain, ∀ s t, code a ++ s ≠ stop :: t := by
    intro a ha s t heq
    cases hcode : code a with
    | nil => exact hne a ha hcode
    | cons c word =>
      rw [hcode, List.cons_append, List.cons.injEq] at heq
      exact hstop a ha (by rw [hcode, List.head?_cons, heq.1])
  intro as
  induction as with
  | nil =>
    intro _ bs hbs s t heq
    cases bs with
    | nil => exact ⟨rfl, by simpa using heq⟩
    | cons b rest =>
      refine absurd ?_ (hfirst b (hbs b List.mem_cons_self) (rest.flatMap code ++ [stop] ++ t) s)
      simpa using heq.symm
  | cons a rest ih =>
    intro has bs hbs s t heq
    cases bs with
    | nil =>
      refine absurd ?_ (hfirst a (has a List.mem_cons_self) (rest.flatMap code ++ [stop] ++ s) t)
      simpa using heq
    | cons b others =>
      obtain ⟨rfl, hrest⟩ := h a (has a List.mem_cons_self) b (hbs b List.mem_cons_self)
        (rest.flatMap code ++ [stop] ++ s) (others.flatMap code ++ [stop] ++ t) (by simpa using heq)
      obtain ⟨rfl, hst⟩ := ih (fun c hc => has c (List.mem_cons_of_mem _ hc)) others
        (fun c hc => hbs c (List.mem_cons_of_mem _ hc)) s t hrest
      exact ⟨rfl, hst⟩

/-- A word for `none` whose first letter begins no word of the code. -/
theorem SelfDelimiting.option (h : SelfDelimiting code domain) (first : β) (rest : List β)
    (hne : ∀ a ∈ domain, code a ≠ []) (hfirst : ∀ a ∈ domain, (code a).head? ≠ some first) :
    SelfDelimiting (fun o : Option α => o.elim (first :: rest) code)
      {o | ∀ a, o = some a → a ∈ domain} := by
  have hdiffer : ∀ a ∈ domain, ∀ s t, code a ++ s ≠ first :: rest ++ t := by
    intro a ha s t heq
    cases hcode : code a with
    | nil => exact hne a ha hcode
    | cons c word =>
      rw [hcode, List.cons_append, List.cons_append, List.cons.injEq] at heq
      exact hfirst a ha (by rw [hcode, List.head?_cons, heq.1])
  intro a ha b hb s t heq
  cases a with
  | none =>
    cases b with
    | none => exact ⟨rfl, List.append_cancel_left heq⟩
    | some b => exact absurd heq.symm (hdiffer b (hb b rfl) t s)
  | some a =>
    cases b with
    | none => exact absurd heq (hdiffer a (ha a rfl) s t)
    | some b =>
      obtain ⟨rfl, hrest⟩ := h a (ha a rfl) b (hb b rfl) s t heq
      exact ⟨rfl, hrest⟩

end

end TrustPortal.Lib
