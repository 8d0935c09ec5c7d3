import Emis.Common.Dates
import Emis.Common.Errors

/-!
# Date ranges and aging buckets

`modules/reports/domain/range.ts`, and of `contracts/reports.ts` the buckets that
unpaid instalments are aged into.
-/

namespace Emis.Reports

/-- `Date.parse` of the midnight that starts a date, in UTC. -/
def dateParse (date : Day) : Instant := date * 86400000

/-- `Math.round` of a number of milliseconds in days. -/
def roundDays (ms : ℤ) : ℤ := (ms + 43200000) / 86400000

def daysBetween (start stop : Day) : ℤ := roundDays (dateParse stop - dateParse start)

theorem roundDays_sub (date date' : Day) : roundDays (dateParse date - dateParse date') = date - date' := by
  unfold roundDays dateParse
  omega

def MAX_REPORT_DAYS : ℤ := 1100

structure DateRange where
  start : Day
  stop : Day
  deriving DecidableEq, Repr

/-- The dates a report covers: the month so far unless told otherwise. -/
def resolveRange (start stop : Option Day) (today : Day) : Except Error DateRange :=
  let stop := stop.getD today
  -- `${to.slice(0, 7)}-01`
  let start := start.getD (addDays stop (1 - (civilOf stop).day))
  if stop < start then
    .error (.http <| unprocessable "INVALID_DATE_RANGE" "The start date must not be after the end date.")
  else if MAX_REPORT_DAYS < daysBetween start stop + 1 then
    .error (.http <| unprocessable "DATE_RANGE_TOO_LARGE" <|
      "Pick a range of at most " ++ toString MAX_REPORT_DAYS ++ " days.")
  else .ok ⟨start, stop⟩

example : resolveRange none none 20722 = .ok ⟨20697, 20722⟩ := by decide

/-! ## Aging -/

inductive AgingBucket where
  | notDue
  | d1To30
  | d31To60
  | d61To90
  | d90Plus
  deriving DecidableEq, Repr

def AGING_BUCKETS : List AgingBucket := [.notDue, .d1To30, .d31To60, .d61To90, .d90Plus]

def AGING_LABELS : AgingBucket → String
  | .notDue => "Not yet due"
  | .d1To30 => "1–30 days overdue"
  | .d31To60 => "31–60 days overdue"
  | .d61To90 => "61–90 days overdue"
  | .d90Plus => "Over 90 days overdue"

/-- The bucket of an instalment, from the number of days past its due date. -/
def agingBucketFor (daysOverdue : ℤ) : AgingBucket :=
  if daysOverdue ≤ 0 then .notDue
  else if daysOverdue ≤ 30 then .d1To30
  else if daysOverdue ≤ 60 then .d31To60
  else if daysOverdue ≤ 90 then .d61To90
  else .d90Plus

/-- Due dates from `min` to `max`; either end may be open. -/
structure DueRange where
  min : Option Day := none
  max : Option Day := none
  deriving DecidableEq, Repr

def DueRange.contains (range : DueRange) (due : Day) : Bool :=
  range.min.all (fun min => decide (min ≤ due)) && range.max.all fun max => decide (due ≤ max)

/-- The due dates that put an instalment in `bucket` on `asOf`. -/
def bucketDueRange (bucket : AgingBucket) (asOf : Day) : DueRange :=
  match bucket with
  | .notDue => { min := some asOf }
  | .d1To30 => { min := some (addDays asOf (-30)), max := some (addDays asOf (-1)) }
  | .d31To60 => { min := some (addDays asOf (-60)), max := some (addDays asOf (-31)) }
  | .d61To90 => { min := some (addDays asOf (-90)), max := some (addDays asOf (-61)) }
  | .d90Plus => { max := some (addDays asOf (-91)) }

theorem mem_agingBuckets (bucket : AgingBucket) : bucket ∈ AGING_BUCKETS := by
  cases bucket <;> decide

/-- The ranges are those of the days past the due date. -/
theorem contains_bucketDueRange (bucket : AgingBucket) (asOf due : Day) :
    (bucketDueRange bucket asOf).contains due = true ↔ agingBucketFor (asOf - due) = bucket := by
  have hspans : ∀ overdue : ℤ, agingBucketFor overdue = bucket ↔
      (match bucket with
      | .notDue => overdue ≤ 0
      | .d1To30 => 1 ≤ overdue ∧ overdue ≤ 30
      | .d31To60 => 31 ≤ overdue ∧ overdue ≤ 60
      | .d61To90 => 61 ≤ overdue ∧ overdue ≤ 90
      | .d90Plus => 91 ≤ overdue) := by
    intro overdue
    unfold agingBucketFor
    cases bucket <;> split_ifs <;> simp <;> omega
  rw [hspans]
  cases bucket <;> simp only [bucketDueRange, DueRange.contains, addDays, Option.all_some,
    Option.all_none, Bool.and_true, Bool.true_and, Bool.and_eq_true, decide_eq_true_eq, Day] <;> omega

end Emis.Reports
