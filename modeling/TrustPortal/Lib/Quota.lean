import Mathlib.Order.MinMax

/-!
# `TrustPortal.Lib.Quota`: a counter that grants up to a limit

A counter is raised by every attempt and grants those that it counts up to the limit. From time
to time it is cleared and starts again at zero. `Meter` has the counter, the attempts that were
granted and how often it was cleared. `Meter.Kept` is the invariant: what was granted since the
last clearing is at most the smaller of the counter and the limit, and before each clearing at
most the limit was granted. `Kept.step` is the rule for a step, and `Kept.granted_le` the bound.
-/

set_option autoImplicit false

namespace TrustPortal.Lib

/-- The counter, the attempts that were granted, and the times it was cleared. -/
structure Meter where
  used : Nat
  granted : Nat
  cleared : Nat
  deriving DecidableEq

namespace Meter

/-- What happens to a counter. -/
inductive Event
  | attempt
  | clear

/-- One attempt, or one clearing. -/
def step (limit : Nat) (m : Meter) : Event → Meter
  | .attempt =>
    { m with used := m.used + 1, granted := m.granted + if m.used + 1 ≤ limit then 1 else 0 }
  | .clear => { m with used := 0, cleared := m.cleared + 1 }

/-- An attempt within the limit is granted. -/
theorem step_granted {limit : Nat} {m : Meter} (h : m.used + 1 ≤ limit) :
    m.step limit .attempt = ⟨m.used + 1, m.granted + 1, m.cleared⟩ := by
  simp [step, h]

/-- An attempt beyond the limit is counted. -/
theorem step_refused {limit : Nat} {m : Meter} (h : ¬m.used + 1 ≤ limit) :
    m.step limit .attempt = ⟨m.used + 1, m.granted, m.cleared⟩ := by
  simp [step, h]

/-- What was granted fits into the limit, once for each clearing, and into the counter. -/
def Kept (limit : Nat) (m : Meter) : Prop :=
  m.granted ≤ limit * m.cleared + min m.used limit

/-- Nothing was granted yet. -/
theorem kept_zero (limit used cleared : Nat) : Kept limit ⟨used, 0, cleared⟩ :=
  Nat.zero_le _

/-- One step keeps the invariant. -/
theorem Kept.step {limit : Nat} {m : Meter} (h : Kept limit m) (event : Event) :
    Kept limit (m.step limit event) := by
  unfold Kept at h ⊢
  cases event with
  | attempt =>
    -- the counter grows with what is granted, up to the limit
    simp only [Meter.step]
    split <;> omega
  | clear =>
    simp only [Meter.step, Nat.mul_succ]
    omega

/-- The limit, once for each clearing and once more. -/
theorem Kept.granted_le {limit : Nat} {m : Meter} (h : Kept limit m) :
    m.granted ≤ limit * (m.cleared + 1) := by
  unfold Kept at h
  rw [Nat.mul_succ]
  omega

end Meter

end TrustPortal.Lib
