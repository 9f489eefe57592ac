import Mathlib.Data.List.Basic

/-!
# `TrustPortal.Lib.Mirror`: records that follow a versioned source

A source has a value for every key at each of its versions, and a mirror has a record for every
key. `agrees` says when a record is right for a value. The mirror is brought to a version by writing
some of the keys, one at a time.

The writing can stop half way, and the next attempt may be for another version. So between two
attempts a record is right for one of several versions: the one of the last attempt that came to its
end, or one that was attempted since (`Within`). `UpTo` is what holds during an attempt: the keys
that are not going to be written are right already.

An attempt that writes the keys that differ between two versions starts from `Within.upTo`. It needs
`NoReturn`: a key that was changed and changed back is not among the differences, and its record may
be the one of the attempt in between.
-/

set_option autoImplicit false

namespace TrustPortal.Lib.Mirror

section
variable {κ π β ρ : Type} (tracked : π → Prop) (agrees : π → β → ρ → Prop) (source : κ → π → β)

/-- Every key is right for one of some versions. -/
def Within (versions : List κ) (records : π → ρ) : Prop :=
  ∀ p, tracked p → ∃ v ∈ versions, agrees p (source v p) (records p)

/-- Every key that is not going to be written is right for a version. -/
def UpTo (version : κ) (todo : List π) (records : π → ρ) : Prop :=
  ∀ p, tracked p → p ∉ todo → agrees p (source version p) (records p)

/-- A key that is the same at two versions was the same at the versions in between. -/
def NoReturn (old new : κ) (between : List κ) : Prop :=
  ∀ p, tracked p → source old p = source new p → ∀ v ∈ between, source v p = source old p

variable {tracked agrees source}
variable {versions : List κ} {todo : List π} {records written : π → ρ} {old new : κ} {p : π}

/-- An attempt that is going to write every difference. -/
theorem Within.upTo {between : List κ} (h : Within tracked agrees source (old :: between) records)
    (hdiff : ∀ p, tracked p → source old p ≠ source new p → p ∈ todo)
    (hreturn : NoReturn tracked source old new between) :
    UpTo tracked agrees source new todo records := by
  intro p hp hnot
  have hsame : source old p = source new p := by
    by_contra hne
    exact hnot (hdiff p hp hne)
  obtain ⟨v, hv, hagrees⟩ := h p hp
  rcases List.mem_cons.mp hv with rfl | hv
  · exact hsame ▸ hagrees
  · rw [hreturn p hp hsame v hv, hsame] at hagrees
    exact hagrees

/-- The next key is written. -/
theorem UpTo.write (h : UpTo tracked agrees source new (p :: todo) records)
    (hp : tracked p → agrees p (source new p) (written p))
    (hothers : ∀ q, q ≠ p → written q = records q) :
    UpTo tracked agrees source new todo written := by
  intro q hq hnot
  by_cases hqp : q = p
  · subst hqp
    exact hp hq
  · rw [hothers q hqp]
    exact h q hq (by simp [hqp, hnot])

/-- A key is written for one of the versions. -/
theorem Within.write (h : Within tracked agrees source versions records) (hnew : new ∈ versions)
    (hp : tracked p → agrees p (source new p) (written p))
    (hothers : ∀ q, q ≠ p → written q = records q) :
    Within tracked agrees source versions written := by
  intro q hq
  by_cases hqp : q = p
  · subst hqp
    exact ⟨new, hnew, hp hq⟩
  · rw [hothers q hqp]
    exact h q hq

/-- An attempt that came to its end. -/
theorem UpTo.within (h : UpTo tracked agrees source new [] records) :
    Within tracked agrees source [new] records := by
  intro p hp
  exact ⟨new, by simp, h p hp (by simp)⟩

/-- One version more. -/
theorem Within.attempt (h : Within tracked agrees source (old :: versions) records) (v : κ) :
    Within tracked agrees source (old :: v :: versions) records := by
  intro p hp
  obtain ⟨u, hu, hagrees⟩ := h p hp
  refine ⟨u, ?_, hagrees⟩
  simp only [List.mem_cons] at hu ⊢
  tauto

end

end TrustPortal.Lib.Mirror
