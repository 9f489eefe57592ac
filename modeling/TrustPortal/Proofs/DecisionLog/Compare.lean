import TrustPortal.DecisionLog.Entry
import TrustPortal.Lib.Agree
import Mathlib.Data.List.Induction

/-!
# `TrustPortal.Proofs.DecisionLog.Compare`: what `_compare_with_stored` finds

`compareWithStored_spec` is the specification of the comparison, `Compared`. The digest of
all stored rows is the digest of the stored entries. The kept rows are those before the
difference, or as many as the new entries when there is none. The rows before the difference
agree with the new entries.

`comparing_compareRows` is the invariant of the loop, by induction on the rows read so far.
-/

set_option autoImplicit false

namespace TrustPortal.Proofs.DecisionLog

open TrustPortal.Audit
open TrustPortal.DecisionLog
open TrustPortal.Lib

section
variable {tools : Tools} {rows entries : List Entry}

/-- An entry is the same as itself. -/
theorem sameEntry_refl (tools : Tools) (entry : Entry) : sameEntry tools entry entry = true := by
  simp [sameEntry]

/-- A digest fed with two lists one after the other. -/
theorem updateEntries_append (digest : Hasher) (before after : List Entry) :
    digest.updateEntries (before ++ after)
      = (digest.updateEntries before).updateEntries after := List.foldl_append

theorem updateEntries_singleton (digest : Hasher) (entry : Entry) :
    digest.updateEntries [entry] = digest.update (canonicalEntry entry) := rfl

/-- The relation of the comparison: a stored entry is the same as a parsed one. -/
abbrev Same (tools : Tools) (stored parsed : Entry) : Prop :=
  sameEntry tools stored parsed = true

/-- The rows and the new entries agree before this position and differ at it. -/
structure DiffersAt (tools : Tools) (difference : Nat) (rows entries : List Entry) : Prop where
  rows_lt : difference < rows.length
  entries_lt : difference < entries.length
  agree : AgreeBelow (Same tools) difference rows entries
  differ : ∀ x y, rows[difference]? = some x → entries[difference]? = some y → ¬Same tools x y

/-- What a comparison of the stored rows with the new entries says. -/
structure Compared (tools : Tools) (rows entries : List Entry) (comparison : Comparison) :
    Prop where
  stored : comparison.stored = rows.length
  storedSha256 : comparison.storedSha256 = entriesDigest tools.sha rows
  kept : comparison.kept
    = Hasher.new.updateEntries (rows.take (comparison.difference.getD entries.length))
  differs : ∀ difference, comparison.difference = some difference →
    DiffersAt tools difference rows entries
  agrees : comparison.difference = none → AgreeBelow (Same tools) entries.length rows entries

/-- The variables of the loop after the rows `done`. -/
structure Comparing (tools : Tools) (entries done : List Entry) (state : CompareState) :
    Prop where
  count : state.count = done.length
  digest : state.digest = Hasher.new.updateEntries done
  -- No position has been found yet.
  running : state.kept = none → state.difference = none ∧ done.length ≤ entries.length
    ∧ AgreeBelow (Same tools) done.length done entries
  ended : ∀ kept, state.kept = some kept →
    kept = Hasher.new.updateEntries (done.take (state.difference.getD entries.length))
      ∧ (∀ difference, state.difference = some difference →
          DiffersAt tools difference done entries)
      ∧ (state.difference = none →
          entries.length < done.length ∧ AgreeBelow (Same tools) entries.length done entries)

/-- A row that is read does not change the rows before it. -/
private theorem agreeBelow_concat {n : Nat} {done : List Entry} (row : Entry)
    (hn : n ≤ done.length) (h : AgreeBelow (Same tools) n done entries) :
    AgreeBelow (Same tools) n (done ++ [row]) entries := by
  refine h.congr_left ?_
  intro i hi
  exact List.getElem?_append_left (by omega)

/-- A difference stays where it is when another row is read. -/
private theorem DiffersAt.concat {difference : Nat} {done : List Entry}
    (h : DiffersAt tools difference done entries) (row : Entry) :
    DiffersAt tools difference (done ++ [row]) entries := by
  have hlt := h.rows_lt
  refine ⟨?_, h.entries_lt, agreeBelow_concat row hlt.le h.agree, ?_⟩
  · rw [List.length_append]
    omega
  · intro x y hx
    rw [List.getElem?_append_left hlt] at hx
    exact h.differ x y hx

/-- The position after the rows read so far. -/
private theorem getElem?_concat_length (done : List Entry) (row : Entry) :
    (done ++ [row])[done.length]? = some row := by
  simp

section
variable {done : List Entry} {state : CompareState}

/-- Every row is counted and fed to the digest. -/
private theorem compareRow_count (h : Comparing tools entries done state) (row : Entry) :
    (compareRow tools entries state row).count = (done ++ [row]).length := by
  have hstate := h.count
  unfold compareRow
  split
  · simp [hstate]
  · split
    · simp [hstate]
    · split <;> simp [hstate]

private theorem compareRow_digest (h : Comparing tools entries done state) (row : Entry) :
    (compareRow tools entries state row).digest = Hasher.new.updateEntries (done ++ [row]) := by
  rw [updateEntries_append, ← h.digest, updateEntries_singleton]
  unfold compareRow
  split
  · rfl
  · split
    · rfl
    · split <;> rfl

/-- The invariant after a row with which the position is known. -/
private theorem Comparing.compareRow_ended (h : Comparing tools entries done state) {row : Entry}
    {kept : Hasher} {difference : Option Nat}
    (hkept : (compareRow tools entries state row).kept = some kept)
    (hdifference : (compareRow tools entries state row).difference = difference)
    (hfed : kept
      = Hasher.new.updateEntries ((done ++ [row]).take (difference.getD entries.length)))
    (hdiffers : ∀ n, difference = some n → DiffersAt tools n (done ++ [row]) entries)
    (hagrees : difference = none → entries.length < (done ++ [row]).length
      ∧ AgreeBelow (Same tools) entries.length (done ++ [row]) entries) :
    Comparing tools entries (done ++ [row]) (compareRow tools entries state row) where
  count := compareRow_count h row
  digest := compareRow_digest h row
  running hnone := by
    rw [hkept] at hnone
    cases hnone
  ended kept' hsome := by
    rw [hkept] at hsome
    cases hsome
    rw [hdifference]
    exact ⟨hfed, hdiffers, hagrees⟩

/-- The position is known, and the rows before it stay as they are. -/
private theorem Comparing.compareRow_known (h : Comparing tools entries done state) {kept : Hasher}
    (hkept : state.kept = some kept) (row : Entry) :
    Comparing tools entries (done ++ [row]) (compareRow tools entries state row) := by
  obtain ⟨hfed, hdiffers, hagrees⟩ := h.ended kept hkept
  have hrow : (compareRow tools entries state row).kept = some kept
      ∧ (compareRow tools entries state row).difference = state.difference := by
    simp [compareRow, hkept]
  refine h.compareRow_ended hrow.1 hrow.2 ?_ (fun n hn => (hdiffers n hn).concat row) ?_
  · rw [hfed, List.take_append_of_le_length]
    cases hdifference : state.difference with
    | none =>
      have := (hagrees hdifference).1
      rw [Option.getD_none]
      omega
    | some difference =>
      have := (hdiffers difference hdifference).rows_lt
      rw [Option.getD_some]
      omega
  · intro hdifference
    obtain ⟨hlength, hagree⟩ := hagrees hdifference
    refine ⟨?_, agreeBelow_concat row (by omega) hagree⟩
    rw [List.length_append]
    omega

/-- All new entries are read: the rows so far are kept. -/
private theorem Comparing.compareRow_read (h : Comparing tools entries done state)
    (hkept : state.kept = none) (hentry : entries[state.count]? = none) (row : Entry) :
    Comparing tools entries (done ++ [row]) (compareRow tools entries state row) := by
  obtain ⟨hdifference, hlength, hagree⟩ := h.running hkept
  have hend : entries.length = done.length := by
    rw [List.getElem?_eq_none_iff, h.count] at hentry
    omega
  have hrow : (compareRow tools entries state row).kept = some state.digest
      ∧ (compareRow tools entries state row).difference = none := by
    simp [compareRow, hkept, hentry, hdifference]
  refine h.compareRow_ended hrow.1 hrow.2 ?_ nofun fun _ => ⟨?_, ?_⟩
  · rw [h.digest, Option.getD_none, hend, List.take_left]
  · rw [List.length_append, hend]
    exact Nat.lt_succ_self _
  · rw [hend]
    exact agreeBelow_concat row le_rfl hagree

/-- The row is the new entry at its position. -/
private theorem Comparing.compareRow_same (h : Comparing tools entries done state)
    (hkept : state.kept = none) {row entry : Entry} (hentry : entries[state.count]? = some entry)
    (hsame : Same tools row entry) :
    Comparing tools entries (done ++ [row]) (compareRow tools entries state row) := by
  obtain ⟨hdifference, _, hagree⟩ := h.running hkept
  have hrow : (compareRow tools entries state row).kept = none
      ∧ (compareRow tools entries state row).difference = none := by
    simp [compareRow, hkept, hentry, hdifference, show sameEntry tools row entry = true from hsame]
  refine ⟨compareRow_count h row, compareRow_digest h row, ?_, ?_⟩
  · intro _
    refine ⟨hrow.2, ?_, ?_⟩
    · obtain ⟨hlt, _⟩ := List.getElem?_eq_some_iff.mp hentry
      rw [List.length_append, ← h.count]
      exact hlt
    · rw [List.length_append]
      refine (agreeBelow_concat row le_rfl hagree).succ ?_
      intro x y hx hy
      rw [getElem?_concat_length] at hx
      rw [← h.count, hentry] at hy
      cases hx
      cases hy
      exact hsame
  · rw [hrow.1]
    intro kept hsome
    cases hsome

/-- The first difference is at this row. -/
private theorem Comparing.compareRow_differs (h : Comparing tools entries done state)
    (hkept : state.kept = none) {row entry : Entry} (hentry : entries[state.count]? = some entry)
    (hsame : ¬Same tools row entry) :
    Comparing tools entries (done ++ [row]) (compareRow tools entries state row) := by
  obtain ⟨_, _, hagree⟩ := h.running hkept
  have hnot : sameEntry tools row entry = false := Bool.not_eq_true _ ▸ hsame
  have hrow : (compareRow tools entries state row).kept = some state.digest
      ∧ (compareRow tools entries state row).difference = some done.length := by
    rw [← h.count]
    simp [compareRow, hkept, hentry, hnot]
  refine h.compareRow_ended hrow.1 hrow.2 ?_ ?_ nofun
  · rw [h.digest, Option.getD_some, List.take_left]
  · intro n hn
    cases hn
    refine ⟨?_, ?_, agreeBelow_concat row le_rfl hagree, ?_⟩
    · rw [List.length_append]
      exact Nat.lt_succ_self _
    · obtain ⟨hlt, _⟩ := List.getElem?_eq_some_iff.mp hentry
      rw [← h.count]
      exact hlt
    · intro x y hx hy
      rw [getElem?_concat_length] at hx
      rw [← h.count, hentry] at hy
      cases hx
      cases hy
      exact hsame

/-- One row keeps the invariant of the loop. -/
theorem comparing_compareRow (h : Comparing tools entries done state) (row : Entry) :
    Comparing tools entries (done ++ [row]) (compareRow tools entries state row) := by
  cases hkept : state.kept with
  | some kept => exact h.compareRow_known hkept row
  | none =>
    cases hentry : entries[state.count]? with
    | none => exact h.compareRow_read hkept hentry row
    | some entry =>
      by_cases hsame : Same tools row entry
      · exact h.compareRow_same hkept hentry hsame
      · exact h.compareRow_differs hkept hentry hsame

end

/-- The invariant holds after any number of rows. -/
theorem comparing_compareRows (tools : Tools) (entries rows : List Entry) :
    Comparing tools entries rows (compareRows tools entries rows) := by
  induction rows using List.reverseRecOn with
  | nil =>
    refine ⟨rfl, rfl, ?_, ?_⟩
    · intro _
      exact ⟨rfl, Nat.zero_le _, agreeBelow_zero⟩
    · intro kept hkept
      cases hkept
  | append_singleton done row ih =>
    have hstep := comparing_compareRow ih row
    rwa [compareRows, List.foldl_concat]

/-- The comparison says what `Compared` says. -/
theorem compareWithStored_spec (tools : Tools) (rows entries : List Entry) :
    Compared tools rows entries (compareWithStored tools rows entries) := by
  have h := comparing_compareRows tools entries rows
  have hsha : (compareWithStored tools rows entries).storedSha256
      = entriesDigest tools.sha rows := by
    show (compareRows tools entries rows).digest.hexdigest tools.sha = _
    rw [h.digest]
    rfl
  cases hkept : (compareRows tools entries rows).kept with
  | none =>
    -- The stored rows ended first.
    obtain ⟨hdifference, hlength, hagree⟩ := h.running hkept
    have hnone : (compareWithStored tools rows entries).difference = none := hdifference
    refine ⟨h.count, hsha, ?_, ?_, ?_⟩
    · show (compareRows tools entries rows).kept.getD _ = _
      rw [hkept, hnone, Option.getD_none, Option.getD_none, h.digest,
        List.take_of_length_le hlength]
    · rw [hnone]
      intro difference hsome
      cases hsome
    · intro _ i _ x y hx hy
      have hi : i < rows.length := (List.getElem?_eq_some_iff.mp hx).1
      exact hagree i hi x y hx hy
  | some kept =>
    obtain ⟨hfed, hdiffers, hagrees⟩ := h.ended kept hkept
    refine ⟨h.count, hsha, ?_, hdiffers, ?_⟩
    · show (compareRows tools entries rows).kept.getD _ = _
      rw [hkept, Option.getD_some]
      exact hfed
    · intro hnone
      exact (hagrees hnone).2

/-- Rows that cover the new entries have no difference from them. -/
theorem Compared.difference_eq_none {comparison : Comparison}
    (h : Compared tools rows entries comparison) (hcovers : Covers (Same tools) rows entries) :
    comparison.difference = none := by
  cases hdifference : comparison.difference with
  | none => rfl
  | some difference =>
    have hdiffers := h.differs difference hdifference
    refine absurd ?_ (hdiffers.differ _ _ (List.getElem?_eq_getElem hdiffers.rows_lt)
      (List.getElem?_eq_getElem hdiffers.entries_lt))
    exact hcovers.2 difference hdiffers.entries_lt _ _
      (List.getElem?_eq_getElem hdiffers.rows_lt) (List.getElem?_eq_getElem hdiffers.entries_lt)

/-- New entries without a difference, and not longer, are covered by the rows. -/
theorem Compared.covers {comparison : Comparison} (h : Compared tools rows entries comparison)
    (hnone : comparison.difference = none) (hlength : entries.length ≤ rows.length) :
    Covers (Same tools) rows entries := ⟨hlength, h.agrees hnone⟩

/-- The digest of the kept rows followed by new entries. -/
theorem Compared.digestWith {comparison : Comparison} (h : Compared tools rows entries comparison)
    (added : List Entry) :
    comparison.digestWith tools.sha added = entriesDigest tools.sha
      (rows.take (comparison.difference.getD entries.length) ++ added) := by
  rw [Comparison.digestWith, h.kept, ← updateEntries_append]
  rfl

end

end TrustPortal.Proofs.DecisionLog
