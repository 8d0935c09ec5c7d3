import Emis.Cohorts.Schema

/-!
# Session dates

`cohorts/domain/schedule.ts` and `cohorts/domain/completion.ts`. Dates are day
numbers here, so a date after 9999-12-31 is one more day and not the text that
`addDays` would give.
-/

namespace Emis.Cohorts

def MAX_SESSIONS : ℕ := 400

/-- 0 = Sunday … 6 = Saturday. -/
def weekdayOf (date : Day) : ℕ := ((date + 4) % 7).toNat

/-- Does this holiday close the branch on that date? -/
def isHoliday (date : Day) (branchId : Uuid) (holidays : List HolidayRule) : Bool :=
  holidays.any fun h =>
    (h.branchId == none || h.branchId == some branchId) &&
      (if h.isRecurringAnnually then
        (civilOf h.date).month == (civilOf date).month && (civilOf h.date).day == (civilOf date).day
      else h.date == date)

structure ScheduleInput where
  startDate : Day
  endDate : Day
  daysOfWeek : List ℕ
  branchId : Uuid
  holidays : List HolidayRule

/-- Does the cohort meet on that day? -/
def ScheduleInput.meets (input : ScheduleInput) (day : Day) : Bool :=
  input.daysOfWeek.contains (weekdayOf day) && !isHoliday day input.branchId input.holidays

/-- The loop over the days from `day` on; `fuel` bounds the days that are left. -/
def sessionDatesFrom (input : ScheduleInput) : ℕ → Day → List Day → List Day
  | 0, _, dates => dates
  | fuel + 1, day, dates =>
      if day ≤ input.endDate ∧ dates.length ≤ MAX_SESSIONS then
        sessionDatesFrom input fuel (addDays day 1)
          (if input.meets day then dates ++ [day] else dates)
      else dates

def sessionDates (input : ScheduleInput) : List Day :=
  sessionDatesFrom input (input.endDate - input.startDate + 1).toNat input.startDate []

/-! ## Completion -/

inductive CompletionOutcome where
  | incomplete (missing : List String)
  | passed
  | failed (reasons : List String)
  deriving DecidableEq, Repr

def evaluateCompletion (course : CourseRow) (score attendancePercent : Option ℚ) :
    CompletionOutcome :=
  let missing :=
    (if course.minScore.isSome && score.isNone then ["score"] else []) ++
      if course.minAttendancePercent.isSome && attendancePercent.isNone then
        ["attendancePercent"]
      else []
  if missing ≠ [] then .incomplete missing
  else
    let reasons :=
      (if course.minScore.any fun m => score.getD 0 < m then ["score"] else []) ++
        if course.minAttendancePercent.any fun m => attendancePercent.getD 0 < m then
          ["attendancePercent"]
        else []
    if reasons = [] then .passed else .failed reasons

end Emis.Cohorts
