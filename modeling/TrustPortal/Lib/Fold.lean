import TrustPortal.Lib.Except

/-!
# `TrustPortal.Lib.Fold`: loops that can fail

A loop that can fail is a `foldlM` in `Except`. `foldlM_invariant` is what its steps keep, and
`ErrorsIn P x` says that `x` fails only with errors of `P`, which sequences and loops inherit
from their parts. `AlongOk step ok s is` says that every step the loop reaches meets `ok`, which
may look at the state before the step; `errorsIn_foldlM_iff` characterizes by it the loops that
fail only with errors of `P`.
-/

set_option autoImplicit false

namespace TrustPortal.Lib

section
variable {ε α β σ ι : Type} {P : ε → Prop}

/-- Every error of the computation meets `P`. -/
def ErrorsIn (P : ε → Prop) (x : Except ε α) : Prop := ∀ e, x = .error e → P e

/-- A computation that succeeds has no error. -/
theorem ErrorsIn.ok (a : α) : ErrorsIn P (.ok a : Except ε α) := nofun

/-- A computation that fails with an error of `P`. -/
theorem ErrorsIn.error {e : ε} (h : P e) : ErrorsIn P (.error e : Except ε α) := by
  rintro e' ⟨⟩
  exact h

/-- A sequence fails where one of its parts does. -/
theorem ErrorsIn.bind {x : Except ε α} {f : α → Except ε β} (hx : ErrorsIn P x)
    (hf : ∀ a, x = .ok a → ErrorsIn P (f a)) : ErrorsIn P (x >>= f) := by
  intro e he
  cases x with
  | error e' =>
    injection he with he
    exact hx e (he ▸ rfl)
  | ok a => exact hf a rfl e he

/-- A mapped result fails where the result does. -/
theorem ErrorsIn.map {x : Except ε α} (f : α → β) (hx : ErrorsIn P x) : ErrorsIn P (x.map f) := by
  intro e he
  cases x with
  | error e' =>
    injection he with he
    exact hx e (he ▸ rfl)
  | ok a => cases he

/-- A choice fails where its branch does. -/
theorem ErrorsIn.ite {c : Prop} [Decidable c] {x y : Except ε α} (hx : c → ErrorsIn P x)
    (hy : ¬c → ErrorsIn P y) : ErrorsIn P (if c then x else y) := by
  by_cases hc : c
  · rw [if_pos hc]
    exact hx hc
  · rw [if_neg hc]
    exact hy hc

/-- What every step that succeeds keeps, the loop keeps. -/
theorem foldlM_invariant {step : σ → ι → Except ε σ} {I : σ → Prop} {ok : ι → Prop}
    (hstep : ∀ s i t, I s → ok i → step s i = .ok t → I t) {is : List ι} {s t : σ}
    (hok : ∀ i ∈ is, ok i) (hs : I s) (h : is.foldlM step s = .ok t) : I t := by
  induction is generalizing s with
  | nil =>
    cases h
    exact hs
  | cons i rest ih =>
    rw [List.foldlM_cons] at h
    obtain ⟨u, hu, hrest⟩ := bind_eq_ok.mp h
    exact ih (fun j hj => hok j (List.mem_cons_of_mem i hj))
      (hstep s i u hs (hok i List.mem_cons_self) hu) hrest

/-- Every step that the loop reaches meets `ok`, in the state before the step. -/
def AlongOk (step : σ → ι → Except ε σ) (ok : σ → ι → Prop) : σ → List ι → Prop
  | _, [] => True
  | s, i :: rest => ok s i ∧ ∀ t, step s i = .ok t → AlongOk step ok t rest

/-- A loop fails only with errors of `P` when every step it reaches does. -/
theorem errorsIn_foldlM_iff {step : σ → ι → Except ε σ} {ok : σ → ι → Prop} {I : σ → Prop}
    (hkeep : ∀ s i t, I s → step s i = .ok t → I t)
    (hstep : ∀ s i, I s → (ErrorsIn P (step s i) ↔ ok s i)) {s : σ} (is : List ι) (hs : I s) :
    ErrorsIn P (is.foldlM step s) ↔ AlongOk step ok s is := by
  induction is generalizing s with
  | nil => exact ⟨fun _ => trivial, fun _ => .ok s⟩
  | cons i rest ih =>
    rw [List.foldlM_cons]
    constructor
    · intro h
      refine ⟨(hstep s i hs).mp fun e he => h e (by rw [he]; rfl), fun t ht => ?_⟩
      refine (ih (hkeep s i t hs ht)).mp fun e he => h e ?_
      rw [ht]
      exact he
    · rintro ⟨hi, hrest⟩
      refine .bind ((hstep s i hs).mpr hi) fun t ht => ?_
      exact (ih (hkeep s i t hs ht)).mpr (hrest t ht)

end

end TrustPortal.Lib
