import Mathlib.Data.Int.Basic
import Mathlib.Data.List.Basic

/-!
# `TrustPortal.Sql.Value`: the PostgreSQL values the audit log is written with

The audit trigger and the verifier build the text they hash inside PostgreSQL. This file
has the SQL pieces of that text:

* `textCat`, the operator `||`, NULL when either side is NULL;
* `coalesceText`, `COALESCE(x, '')`;
* `Timestamptz` and `toCharUtc`, the rendering
  `to_char(t AT TIME ZONE 'UTC', 'YYYY-MM-DD"T"HH24:MI:SS.US"Z"')`.

A SQL value that may be NULL is an `Option`.
-/

set_option autoImplicit false

namespace TrustPortal.Sql

/-- SQL `a || b`: NULL when either side is NULL. -/
def textCat (a b : Option String) : Option String :=
  match a, b with
  | some x, some y => some (x ++ y)
  | _, _ => none

/-- SQL `COALESCE(x, '')`, which is never NULL. -/
def coalesceText (x : Option String) : Option String := some (x.getD "")

@[simp] theorem textCat_some (x y : String) : textCat (some x) (some y) = some (x ++ y) := rfl

@[simp] theorem coalesceText_eq (x : Option String) : coalesceText x = some (x.getD "") := rfl

/-- `||` is NULL exactly when one side is NULL. -/
theorem textCat_eq_some {a b : Option String} {t : String} :
    textCat a b = some t ↔ ∃ x y, a = some x ∧ b = some y ∧ x ++ y = t := by
  cases a <;> cases b <;> simp [textCat]

/-- A `timestamptz`: microseconds since 1970-01-01 00:00:00 UTC, or an infinity. -/
inductive Timestamptz
  | micros (us : Int)
  | infinity
  | negInfinity
  deriving DecidableEq, Repr

/-- A decimal number, padded on the left with zeros to at least `width` digits. -/
def zeroPad (width n : Nat) : String :=
  let digits := toString n
  String.ofList (List.replicate (width - digits.length) '0') ++ digits

/-- The proleptic Gregorian date `(year, month, day)` of a day number, day 0 being
1970-01-01. The year is astronomical: year 0 is 1 BC. -/
def civilFromDays (day : Int) : Int × Nat × Nat :=
  let z := day + 719468
  let era := z / 146097
  let doe := (z % 146097).toNat
  let yoe := (doe - doe / 1460 + doe / 36524 - doe / 146096) / 365
  let doy := doe - (365 * yoe + yoe / 4 - yoe / 100)
  let mp := (5 * doy + 2) / 153
  let month := if mp < 10 then mp + 3 else mp - 9
  (yoe + era * 400 + (if month ≤ 2 then 1 else 0), month, doy - (153 * mp + 2) / 5 + 1)

/-- `YYYY`: the year without its era. PostgreSQL prints 1 BC as `0001`. -/
def yearText (year : Int) : String :=
  zeroPad 4 (if year ≤ 0 then (1 - year).toNat else year.toNat)

/-- `to_char(t AT TIME ZONE 'UTC', 'YYYY-MM-DD"T"HH24:MI:SS.US"Z"')`, NULL for an
infinite timestamp. -/
def toCharUtc : Timestamptz → Option String
  | .infinity => none
  | .negInfinity => none
  | .micros us =>
      let (year, month, day) := civilFromDays (us / 86400000000)
      let time := (us % 86400000000).toNat
      some (yearText year ++ "-" ++ zeroPad 2 month ++ "-" ++ zeroPad 2 day
        ++ "T" ++ zeroPad 2 (time / 3600000000) ++ ":" ++ zeroPad 2 (time / 60000000 % 60)
        ++ ":" ++ zeroPad 2 (time / 1000000 % 60) ++ "." ++ zeroPad 6 (time % 1000000) ++ "Z")

example : toCharUtc (.micros 1790596800123456) = some "2026-09-28T12:00:00.123456Z" := by
  decide

/-- A finite timestamp is always rendered. -/
theorem toCharUtc_micros (us : Int) : ∃ t, toCharUtc (.micros us) = some t := ⟨_, rfl⟩

end TrustPortal.Sql
