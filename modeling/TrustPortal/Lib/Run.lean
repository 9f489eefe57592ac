import Mathlib.Logic.Basic

/-!
# `TrustPortal.Lib.Run`: runs of a step function

A run is a fold of a step function over a list of inputs. `Along step ok s is` says that
every step of the run from `s` meets the condition `ok`, which may look at the state before
the step. `run_invariant` is the induction over a run, for an invariant that a step keeps
when it meets the condition, and `run_relation` the one for a relation between two states of
a run.
-/

set_option autoImplicit false

namespace TrustPortal.Lib

section
variable {σ ι : Type} {step : σ → ι → σ} {ok : σ → ι → Prop}

/-- Every step of the run meets `ok`, in the state before the step. -/
def Along (step : σ → ι → σ) (ok : σ → ι → Prop) : σ → List ι → Prop
  | _, [] => True
  | s, i :: rest => ok s i ∧ Along step ok (step s i) rest

/-- A condition that always holds is met along every run. -/
theorem along_of_forall (h : ∀ s i, ok s i) (s : σ) (is : List ι) : Along step ok s is := by
  induction is generalizing s with
  | nil => trivial
  | cons i rest ih => exact ⟨h s i, ih (step s i)⟩

/-- A run met by its steps is met by its first part and, from the state reached there, by its
second part. -/
theorem along_append {s : σ} {is js : List ι} :
    Along step ok s (is ++ js) ↔ Along step ok s is ∧ Along step ok (is.foldl step s) js := by
  induction is generalizing s with
  | nil => exact ⟨fun h => ⟨trivial, h⟩, fun h => h.2⟩
  | cons i rest ih =>
    rw [List.cons_append, List.foldl_cons]
    constructor
    · rintro ⟨hi, hrest⟩
      obtain ⟨hfirst, hlast⟩ := ih.mp hrest
      exact ⟨⟨hi, hfirst⟩, hlast⟩
    · rintro ⟨⟨hi, hfirst⟩, hlast⟩
      exact ⟨hi, ih.mpr ⟨hfirst, hlast⟩⟩

/-- Two conditions that are met along a run are met together. -/
theorem Along.and {q : σ → ι → Prop} {s : σ} {is : List ι} (h : Along step ok s is)
    (hq : Along step q s is) : Along step (fun s i => ok s i ∧ q s i) s is := by
  induction is generalizing s with
  | nil => trivial
  | cons i rest ih =>
    obtain ⟨hi, hrest⟩ := h
    obtain ⟨hqi, hqrest⟩ := hq
    exact ⟨⟨hi, hqi⟩, ih hrest hqrest⟩

/-- A condition that follows from one that is met along a run. -/
theorem Along.imp {q : σ → ι → Prop} {s : σ} {is : List ι} (h : Along step ok s is)
    (himp : ∀ s i, ok s i → q s i) : Along step q s is := by
  induction is generalizing s with
  | nil => trivial
  | cons i rest ih => exact ⟨himp s i h.1, ih h.2⟩

/-- The state before each step of a run is reached by a first part of the run. -/
theorem along_reached (s : σ) (is : List ι) :
    Along step (fun t _ => ∃ earlier, earlier <+: is ∧ earlier.foldl step s = t) s is := by
  induction is generalizing s with
  | nil => trivial
  | cons i rest ih =>
    refine ⟨⟨[], List.nil_prefix, rfl⟩, (ih (step s i)).imp ?_⟩
    intro t _ hreached
    obtain ⟨earlier, hprefix, hfold⟩ := hreached
    exact ⟨i :: earlier, List.cons_prefix_cons.mpr ⟨rfl, hprefix⟩, hfold⟩

/-- A condition on the inputs that holds of every input is met along every run. -/
theorem along_of_mem {q : ι → Prop} {s : σ} {is : List ι} (hq : ∀ i ∈ is, q i) :
    Along step (fun _ i => q i) s is := by
  induction is generalizing s with
  | nil => trivial
  | cons i rest ih =>
    refine ⟨hq i List.mem_cons_self, ih ?_⟩
    intro j hj
    exact hq j (List.mem_cons_of_mem i hj)

/-- What every step that meets the condition keeps, the run keeps. -/
theorem run_invariant {P : σ → Prop} (hstep : ∀ s i, P s → ok s i → P (step s i))
    {s : σ} {is : List ι} (hrun : Along step ok s is) (hs : P s) : P (is.foldl step s) := by
  induction is generalizing s with
  | nil => exact hs
  | cons i rest ih =>
    obtain ⟨hi, hrest⟩ := hrun
    exact ih hrest (hstep s i hs hi)

/-- A reflexive and transitive relation between the states before and after each step holds
between the first and the last state of a run. -/
theorem run_relation {R : σ → σ → Prop} {P : σ → Prop} (hrefl : ∀ s, R s s)
    (htrans : ∀ s t u, R s t → R t u → R s u) (hkeep : ∀ s i, P s → P (step s i))
    (hstep : ∀ s i, P s → R s (step s i)) {s : σ} (is : List ι) (hs : P s) :
    R s (is.foldl step s) := by
  induction is generalizing s with
  | nil => exact hrefl s
  | cons i rest ih => exact htrans _ _ _ (hstep s i hs) (ih (hkeep s i hs))

end

end TrustPortal.Lib
