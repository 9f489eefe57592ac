import Mathlib.Data.List.Forall2

/-!
# `TrustPortal.Lib.Except`: taking a successful `Except` run apart

A function of the source that can raise is a `do` block in `Except`. These lemmas turn the
fact that such a block ended with `.ok` into the facts about its steps, one rewrite each.
-/

set_option autoImplicit false

namespace TrustPortal.Lib

section
variable {ε α β : Type}

/-- A sequence succeeds when both of its parts do. -/
theorem bind_eq_ok {x : Except ε α} {f : α → Except ε β} {b : β} :
    (x >>= f) = .ok b ↔ ∃ a, x = .ok a ∧ f a = .ok b := by
  constructor
  · intro h
    cases x with
    | error e => cases h
    | ok a => exact ⟨a, rfl, h⟩
  · rintro ⟨a, rfl, h⟩
    exact h

/-- Nothing runs after a throw. -/
@[simp] theorem throw_bind (e : ε) (f : α → Except ε β) :
    ((throw e : Except ε α) >>= f) = .error e := rfl

/-- A block that raises under a condition succeeds when the condition is false and the rest
succeeds. -/
theorem ite_error_eq_ok {c : Prop} [Decidable c] {e : ε} {x : Except ε β} {b : β} :
    (if c then .error e else x) = .ok b ↔ ¬c ∧ x = .ok b := by
  by_cases hc : c <;> simp [hc]

/-- A list of steps succeeds when each of them does. -/
theorem mapM_eq_ok {f : α → Except ε β} {xs : List α} {ys : List β} :
    xs.mapM f = .ok ys ↔ List.Forall₂ (fun x y => f x = .ok y) xs ys := by
  induction xs generalizing ys with
  | nil =>
    rw [List.mapM_nil, List.forall₂_nil_left_iff]
    constructor
    · intro h
      cases h
      rfl
    · rintro rfl
      rfl
  | cons x rest ih =>
    rw [List.mapM_cons, bind_eq_ok, List.forall₂_cons_left_iff]
    refine exists_congr fun y => ?_
    constructor
    · rintro ⟨hx, h⟩
      obtain ⟨ys', hrest, heq⟩ := bind_eq_ok.mp h
      cases heq
      exact ⟨ys', hx, ih.mp hrest, rfl⟩
    · rintro ⟨ys', hx, hrest, rfl⟩
      exact ⟨hx, bind_eq_ok.mpr ⟨ys', ih.mpr hrest, rfl⟩⟩

/-- A run whose errors are translated succeeds when the run does. -/
theorem mapError_eq_ok {ε' : Type} {x : Except ε α} {f : ε → ε'} {a : α} :
    x.mapError f = .ok a ↔ x = .ok a := by
  cases x <;> simp [Except.mapError]

/-- A mapped result succeeds when the result does. -/
theorem map_eq_ok {x : Except ε α} {f : α → β} {b : β} :
    x.map f = .ok b ↔ ∃ a, x = .ok a ∧ f a = b := by
  cases x <;> simp [Except.map]

end

end TrustPortal.Lib
