import Mathlib.Data.List.Basic

/-!
# `TrustPortal.Lib.Agree`: two lists that agree position by position

A stored list and a newly received one are compared in order, up to a relation that need not
be equality: an item may be stored in an earlier form. `AgreeBelow r n xs ys` says that the
first `n` positions the two lists share are related, and `Covers r xs ys` that `ys` is a
prefix of `xs` in this sense. The stored list changes in two ways: it grows at its end, or
its tail from a cut on is replaced by the received one.
-/

set_option autoImplicit false

namespace TrustPortal.Lib

section
variable {α β : Type} {r : α → β → Prop} {n : Nat} {xs : List α} {ys : List β}

/-- The items at the positions below `n` that both lists have are related. -/
def AgreeBelow (r : α → β → Prop) (n : Nat) (xs : List α) (ys : List β) : Prop :=
  ∀ i, i < n → ∀ x y, xs[i]? = some x → ys[i]? = some y → r x y

/-- `ys` is a prefix of `xs`, up to `r`. -/
def Covers (r : α → β → Prop) (xs : List α) (ys : List β) : Prop :=
  ys.length ≤ xs.length ∧ AgreeBelow r ys.length xs ys

theorem agreeBelow_zero : AgreeBelow r 0 xs ys := by
  intro i hi
  omega

/-- One more position. -/
theorem AgreeBelow.succ (h : AgreeBelow r n xs ys)
    (hn : ∀ x y, xs[n]? = some x → ys[n]? = some y → r x y) :
    AgreeBelow r (n + 1) xs ys := by
  intro i hi x y hx hy
  by_cases hlast : i = n
  · subst hlast
    exact hn x y hx hy
  · exact h i (by omega) x y hx hy

/-- Positions that the list on the right does not have do not matter. -/
theorem AgreeBelow.of_length (h : AgreeBelow r ys.length xs ys) : AgreeBelow r n xs ys := by
  intro i _ x y hx hy
  have hi : i < ys.length := (List.getElem?_eq_some_iff.mp hy).1
  exact h i hi x y hx hy

/-- Items after the first `n` do not matter. -/
theorem AgreeBelow.congr_left (h : AgreeBelow r n xs ys) {xs' : List α}
    (heq : ∀ i, i < n → xs'[i]? = xs[i]?) : AgreeBelow r n xs' ys := by
  intro i hi x y hx hy
  rw [heq i hi] at hx
  exact h i hi x y hx hy

/-- A longer list covers what the list covered. -/
theorem Covers.append (h : Covers r xs ys) (zs : List α) : Covers r (xs ++ zs) ys := by
  refine ⟨by rw [List.length_append]; have := h.1; omega, h.2.congr_left ?_⟩
  intro i hi
  have := h.1
  exact List.getElem?_append_left (by omega)

/-- Replacing the items from a cut on leaves a list covered that ends before the cut. -/
theorem Covers.splice (h : Covers r xs ys) {cut : Nat} (hcut : ys.length ≤ cut)
    (zs : List α) : Covers r (xs.take cut ++ zs) ys := by
  have hlength := h.1
  refine Covers.append ⟨?_, h.2.congr_left ?_⟩ zs
  · rw [List.length_take]
    omega
  · intro i hi
    rw [List.getElem?_take_of_lt (by omega)]

end

section
variable {α : Type} {r : α → α → Prop} {xs ys : List α}

/-- A list covers itself. -/
theorem covers_refl (hrefl : ∀ x, r x x) : Covers r xs xs := by
  refine ⟨Nat.le_refl _, ?_⟩
  intro i _ x y hx hy
  rw [hx] at hy
  cases hy
  exact hrefl x

/-- A list that agrees with `ys` below a cut, with its tail from there on replaced by the tail
of `ys`, covers `ys`. -/
theorem covers_take_append_drop (hrefl : ∀ x, r x x) {cut : Nat}
    (h : AgreeBelow r cut xs ys) (hcut : cut ≤ xs.length) (hys : cut ≤ ys.length) :
    Covers r (xs.take cut ++ ys.drop cut) ys := by
  have htake : (xs.take cut).length = cut := List.length_take_of_le hcut
  constructor
  · rw [List.length_append, htake, List.length_drop]
    omega
  · intro i _ x y hx hy
    by_cases hi : i < cut
    · rw [List.getElem?_append_left (by omega), List.getElem?_take_of_lt hi] at hx
      exact h i hi x y hx hy
    · -- From the cut on both lists hold the items of `ys`.
      rw [List.getElem?_append_right (by omega), htake, List.getElem?_drop] at hx
      rw [show cut + (i - cut) = i by omega, hy] at hx
      cases hx
      exact hrefl _

end

end TrustPortal.Lib
