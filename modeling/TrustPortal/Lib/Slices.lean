import Mathlib.Order.Lattice

/-!
# `TrustPortal.Lib.Slices`: a run that is done in slices

A run in slices starts at a position, does a part of the work there and names the position it
goes on at, or none. `Visits next p ps` says that the run from `p` stands at the positions `ps`
in this order and ends.

* `Visits.exists_of_measure`: a run ends whose positions come down.
* `Visits.flatMap_eq`: what each position leaves to do is what its slice does, followed by what
  the next position leaves. Then the slices together do what the first position leaves.

`rowsAfter` is the work of a keyset-paginated scan, the rows after a key. Where the rows stand in
the order of their keys, a scan that stops at a row leaves the rows behind it.
-/

set_option autoImplicit false

namespace TrustPortal.Lib

section
variable {P α : Type} {next : P → Option P} {p q : P} {ps : List P}

/-- The positions of a run in slices, from the first to the last. -/
inductive Visits (next : P → Option P) : P → List P → Prop
  | last {p : P} (h : next p = none) : Visits next p [p]
  | more {p q : P} {ps : List P} (h : next p = some q) (rest : Visits next q ps) :
      Visits next p (p :: ps)

namespace Visits

/-- A run whose positions come down ends. -/
theorem exists_of_measure (measure : P → Nat) (hstep : ∀ p q, next p = some q →
    measure q < measure p) (p : P) : ∃ ps, Visits next p ps := by
  induction hm : measure p using Nat.strongRecOn generalizing p with
  | ind m ih =>
    cases hnext : next p with
    | none => exact ⟨[p], .last hnext⟩
    | some q =>
      obtain ⟨ps, hps⟩ := ih (measure q) (hm ▸ hstep p q hnext) q rfl
      exact ⟨p :: ps, .more hnext hps⟩

/-- What holds of the first position and is kept from one to the next holds of all. -/
theorem forall_of_step {I : P → Prop} (h : Visits next p ps) (hp : I p)
    (hstep : ∀ p q, I p → next p = some q → I q) : ∀ q ∈ ps, I q := by
  induction h with
  | last _ => exact fun q hq => List.mem_singleton.mp hq ▸ hp
  | @more p q ps hnext _ ih =>
    intro r hr
    rcases List.mem_cons.mp hr with rfl | hr
    · exact hp
    · exact ih (hstep _ _ hp hnext) r hr

/-- The slices together do what the first position leaves to do. -/
theorem flatMap_eq (h : Visits next p ps) {slice rest : P → List α}
    (hsplit : ∀ p, rest p = slice p ++ ((next p).map rest).getD []) :
    ps.flatMap slice = rest p := by
  induction h with
  | last hnext =>
    rw [hsplit, hnext, List.flatMap_cons]
    rfl
  | more hnext _ ih =>
    rw [hsplit, hnext, List.flatMap_cons, ih]
    rfl

end Visits

end

section
variable {α κ : Type} [LinearOrder κ] {key : α → κ} {rows : List α} {k l : κ}

/-- The rows whose key is after `k`. -/
def rowsAfter (key : α → κ) (rows : List α) (k : κ) : List α := rows.filter fun row => k < key row

theorem mem_rowsAfter {row : α} : row ∈ rowsAfter key rows k ↔ row ∈ rows ∧ k < key row := by
  simp [rowsAfter]

/-- A later key leaves the rows after it, of those an earlier key leaves. -/
theorem rowsAfter_of_le (h : k ≤ l) :
    rowsAfter key rows l = rowsAfter key (rowsAfter key rows k) l := by
  rw [rowsAfter, rowsAfter, rowsAfter, List.filter_filter]
  apply List.filter_congr
  intro row _
  by_cases hl : l < key row
  · simp [hl, lt_of_le_of_lt h hl]
  · simp [hl]

/-- A row that a key leaves is not left by its own key. -/
theorem length_rowsAfter_lt {row : α} (h : row ∈ rowsAfter key rows k) :
    (rowsAfter key rows (key row)).length < (rowsAfter key rows k).length := by
  have hlt := (mem_rowsAfter.mp h).2
  rw [rowsAfter_of_le hlt.le, rowsAfter, List.length_filter_lt_length_iff_exists]
  exact ⟨row, h, by simp⟩

/-- Rows in the order of their keys: the key of one of them leaves those behind it. -/
theorem rowsAfter_of_split (hordered : rows.Pairwise fun a b => key a < key b) {as bs : List α}
    {row : α} (h : rows = as ++ row :: bs) : rowsAfter key rows (key row) = bs := by
  rw [h, List.pairwise_append, List.pairwise_cons] at hordered
  have has : ∀ a ∈ as, ¬key row < key a := fun a ha =>
    not_lt.mpr (hordered.2.2 a ha row List.mem_cons_self).le
  -- The rows before it and the row itself go, the rows behind it stay.
  rw [h, rowsAfter, List.filter_append, List.filter_cons_of_neg (by simp),
    List.filter_eq_nil_iff.mpr (by simpa using has), List.nil_append, List.filter_eq_self]
  exact fun b hb => decide_eq_true (hordered.2.1.1 b hb)

/-- A scan that stops at a row of those a key leaves goes on with the rows behind it. -/
theorem rowsAfter_split (hordered : rows.Pairwise fun a b => key a < key b) {as bs : List α}
    {row : α} (h : rowsAfter key rows k = as ++ row :: bs) : rowsAfter key rows (key row) = bs := by
  have hmem : row ∈ rowsAfter key rows k := by simp [h]
  rw [rowsAfter_of_le (mem_rowsAfter.mp hmem).2.le]
  exact rowsAfter_of_split (hordered.filter _) h

end

end TrustPortal.Lib
