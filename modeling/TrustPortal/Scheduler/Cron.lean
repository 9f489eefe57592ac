import Mathlib.Data.List.Sort
import TrustPortal.Python.Number

/-!
# `TrustPortal.Scheduler.Cron`: crontab expressions

A schedule is a crontab expression of five fields. APScheduler numbers the days of the week from
Monday, so `crontab_day_of_week` translates that field into day names, and `parse_cron` makes a
trigger of the fields. crontab(5) has a rule of its own for the two day fields, which needs an
`OrTrigger` where both are restricted.

APScheduler is a parameter: which texts it takes for a field, and at which minutes a field with
a text matches. A trigger of several fields fires at the minutes that all its fields match, and a
field that it was not given matches at every minute.
-/

set_option autoImplicit false

namespace TrustPortal.Scheduler

open TrustPortal.Python

/-! ## The day of the week -/

/-- `_DOW_NAMES`. -/
def DOW_NAMES : List Str := ["sun", "mon", "tue", "wed", "thu", "fri", "sat"].map str

/-- What `crontab_day_of_week` raises, a `ValueError` in every case. -/
inductive CronError
  /-- `int` does not read the text. -/
  | notANumber (text : Str)
  /-- `day of week out of range: {token}` -/
  | dayOutOfRange (token : Str)
  /-- `step must be >= 1` -/
  | stepTooSmall
  /-- `descending day-of-week range: {part}` -/
  | descendingRange (part : Str)
  deriving DecidableEq, Repr

section
variable (tables : TextTables)

/-- `int(text)`. -/
def readInt (text : Str) : Except CronError Int :=
  match intOf tables text with
  | some n => .ok n
  | none => .error (.notANumber text)

/-- `_dow_value`. -/
def dowValue (token : Str) : Except CronError Nat :=
  let token := tables.lower (strip token)
  if DOW_NAMES.contains (token.take 3) then .ok (DOW_NAMES.idxOf (token.take 3))
  else do
    let value ← readInt tables token
    if 0 ≤ value ∧ value ≤ 7 then .ok (value.toNat % 7) else .error (.dayOutOfRange token)

/-- One end of a range: 7 where the text is `7`. -/
def endpoint (token : Str) : Except CronError Nat :=
  if strip token = str "7" then .ok 7 else dowValue tables token

/-- `range(first, last + 1, step)`. -/
def pyRange (first last step : Nat) : List Nat :=
  List.range' first ((last + 1 - first + step - 1) / step) step

/-- The step of a part that has one, and the text before it. -/
def splitStep (part : Str) : Except CronError (Str × Option Nat) :=
  let (body, slash, stepText) := partition '/' part
  if slash then do
    let step ← readInt tables stepText
    if step < 1 then .error .stepTooSmall else .ok (body, some step.toNat)
  else .ok (part, none)

/-- The first and the last value of a part. -/
def rangeOf (part : Str) (step : Option Nat) : Except CronError (Nat × Nat) :=
  if part = str "*" ∨ part = [] then .ok (0, 6)
  else
    let (first, dash, last) := partition '-' part
    if dash then do
      let start ← endpoint tables first
      let stop ← endpoint tables last
      return (start, stop)
    else do
      let start ← endpoint tables part
      return (start, if step.isSome then 7 else start)

/-- One value more, if the list does not have its day. -/
def addDay (days : List Nat) (value : Nat) : List Nat :=
  if days.contains (value % 7) then days else days ++ [value % 7]

/-- What one part of the field adds to the days. -/
def addPart (days : List Nat) (part : Str) : Except CronError (List Nat) := do
  let (part, step) ← splitStep tables part
  let (start, stop) ← rangeOf tables part step
  if stop < start then .error (.descendingRange part)
  else .ok ((pyRange start stop (step.getD 1)).foldl addDay days)

/-- The names of a list of days. -/
def dayNames (days : List Nat) : Str := join (str ",") (days.map fun d => DOW_NAMES.getD d [])

/-- `crontab_day_of_week`. -/
def crontabDayOfWeek (field : Str) : Except CronError Str :=
  let field := strip field
  if field = str "*" ∨ field = str "?" then .ok (str "*")
  else do
    let days ← (field.splitOn (.ofChar ',')).foldlM (addPart tables) []
    return dayNames (days.insertionSort (· ≤ ·))

end

/-! ## Triggers -/

/-- `_day_restricted`. -/
def dayRestricted (field : Str) : Bool :=
  !((strip field).head?.any fun c => c.is '*' || c.is '?')

/-- A field of a `CronTrigger`. -/
inductive CronField
  | minute
  | hour
  | day
  | month
  | dayOfWeek
  deriving DecidableEq, Repr

/-- The fields that a `CronTrigger` was given. -/
abbrev CronTrigger := List (CronField × Str)

/-- A trigger of APScheduler. -/
inductive Trigger
  | cron (fields : CronTrigger)
  /-- `OrTrigger` -/
  | either (first second : CronTrigger)
  deriving DecidableEq, Repr

/-- APScheduler, at the minutes of a calendar in UTC. -/
structure APScheduler where
  Minute : Type
  /-- The day of the week, 0 for Sunday. -/
  weekday : Minute → Nat
  /-- `CronTrigger` takes the text for the field. -/
  accepts : CronField → Str → Bool
  /-- The field with the text matches at the minute. -/
  isMatch : CronField → Str → Minute → Bool

namespace APScheduler

variable (aps : APScheduler)

/-- The texts that the portal relies on: `*` stands for every value, and day names with commas
between them for these days. -/
structure Documented : Prop where
  weekday_lt : ∀ t, aps.weekday t < 7
  star : ∀ field t, aps.accepts field (str "*") = true ∧ aps.isMatch field (str "*") t = true
  names : ∀ days t, days ≠ [] → (∀ d ∈ days, d < 7) →
    aps.accepts .dayOfWeek (dayNames days) = true
      ∧ (aps.isMatch .dayOfWeek (dayNames days) t = true ↔ aps.weekday t ∈ days)

/-- `CronTrigger(...)`, none for the `ValueError` of a text that it does not take. -/
def cronTrigger (fields : CronTrigger) : Option CronTrigger :=
  if fields.all (fun (field, text) => aps.accepts field text) then some fields else none

/-- A `CronTrigger` fires at a minute. -/
def cronFires (fields : CronTrigger) (t : aps.Minute) : Bool :=
  fields.all fun (field, text) => aps.isMatch field text t

/-- A trigger fires at a minute. -/
def fires (t : aps.Minute) : Trigger → Bool
  | .cron fields => aps.cronFires fields t
  | .either first second => aps.cronFires first t || aps.cronFires second t

end APScheduler

/-- `parse_cron`. -/
def parseCron (tables : TextTables) (aps : APScheduler) (expression : Option Str) :
    Option Trigger :=
  match expression.map words with
  | some [minute, hour, day, month, dayOfWeek] =>
    match crontabDayOfWeek tables dayOfWeek with
    | .error _ => none
    | .ok dow =>
      if dayRestricted day && dayRestricted dayOfWeek then do
        let first ← aps.cronTrigger [(.minute, minute), (.hour, hour), (.day, day), (.month, month)]
        let second ← aps.cronTrigger [(.minute, minute), (.hour, hour), (.month, month),
          (.dayOfWeek, dow)]
        return .either first second
      else
        (aps.cronTrigger [(.minute, minute), (.hour, hour), (.day, day), (.month, month),
          (.dayOfWeek, dow)]).map .cron
  | _ => none

end TrustPortal.Scheduler
