import Emis.Cohorts.Schedule
import Emis.Common.Calendar

/-!
# Session dates as texts

`sessionDates` with the texts it compares, and `addDays` of `common/dates.ts`, which
cuts them to ten characters.
-/

namespace Emis.Cohorts

/-- A text that `z.iso.date()` takes, with its day. -/
structure IsoDate where
  text : List Char
  day : Day
  ok : isoDate text = some day

/-- The first of a month of a year of six digits. -/
def expandedMonth : List Char → Option Day
  | ['+', y₁, y₂, y₃, y₄, y₅, y₆, '-', m₁, m₂] =>
      if [y₁, y₂, y₃, y₄, y₅, y₆, m₁, m₂].all Char.isDigit then
        let year := digitsValue [y₁, y₂, y₃, y₄, y₅, y₆]
        let month := digitsValue [m₁, m₂]
        if civilOf (dayOf year month 1) = ⟨year, month, 1⟩ then some (dayOf year month 1) else none
      else none
  | _ => none

/-- The midnight that a `Date` made of the text and `T00:00:00Z` stands for. Of the
forms of a date text these two come up. -/
def parseDate (date : List Char) : Option Day := (isoDate date).or (expandedMonth date)

/-- `addDays`, which throws where the text is no date. -/
def addDaysText (date : List Char) (days : ℤ) : Option (List Char) :=
  (parseDate date).map fun day => dateText (day + days)

structure HolidayText where
  date : IsoDate
  isRecurringAnnually : Bool
  branchId : Option Uuid

/-- `isHoliday`. -/
def isHolidayText (date : List Char) (branchId : Uuid) (holidays : List HolidayText) : Bool :=
  holidays.any fun h =>
    (h.branchId == none || h.branchId == some branchId) &&
      if h.isRecurringAnnually then h.date.text.drop 5 == date.drop 5 else h.date.text == date

structure SessionInput where
  startDate : IsoDate
  endDate : IsoDate
  daysOfWeek : List ℕ
  branchId : Uuid
  holidays : List HolidayText

/-- What the loop's body asks. The week day of what is no date is in no list. -/
def SessionInput.meetsText (input : SessionInput) (date : List Char) : Bool :=
  (parseDate date).any (fun day => input.daysOfWeek.contains (weekdayOf day)) &&
    !isHolidayText date input.branchId input.holidays

inductive Outcome where
  | running
  | threw
  | returned (dates : List (List Char))
  deriving DecidableEq, Repr

/-- The loop of `sessionDates` after so many rounds at most. -/
def SessionInput.loop (input : SessionInput) : ℕ → List Char → List (List Char) → Outcome
  | 0, _, _ => .running
  | rounds + 1, day, dates =>
      if day ≤ input.endDate.text ∧ dates.length ≤ MAX_SESSIONS then
        match addDaysText day 1 with
        | some next => input.loop rounds next (if input.meetsText day then dates ++ [day] else dates)
        | none => .threw
      else .returned dates

def SessionInput.sessionDates (input : SessionInput) (rounds : ℕ) : Outcome :=
  input.loop rounds input.startDate.text []

/-! ## By days -/

/-- The rule with its day. -/
def HolidayText.rule (h : HolidayText) : HolidayRule := ⟨h.date.day, h.isRecurringAnnually, h.branchId⟩

/-- The same input with days for texts. -/
def SessionInput.schedule (input : SessionInput) : ScheduleInput :=
  ⟨input.startDate.day, input.endDate.day, input.daysOfWeek, input.branchId,
    input.holidays.map HolidayText.rule⟩

/-- So many days on end. -/
def daysFrom (day : Day) : ℕ → List Day
  | 0 => []
  | count + 1 => day :: daysFrom (day + 1) count

/-- The dates from start to end that fall on a chosen week day and are no holiday
of the branch. -/
def SessionInput.meetings (input : SessionInput) : List Day :=
  (daysFrom input.startDate.day (input.endDate.day + 1 - input.startDate.day).toNat).filter
    input.schedule.meets

theorem mem_daysFrom {day x : Day} {count : ℕ} : x ∈ daysFrom day count ↔ day ≤ x ∧ x < day + count := by
  induction count generalizing day with
  | zero =>
      simp only [daysFrom, List.not_mem_nil, false_iff, Day] at *
      omega
  | succ count ih =>
      simp only [daysFrom, List.mem_cons, ih, Day] at *
      omega

theorem daysFrom_pairwise (day : Day) (count : ℕ) : (daysFrom day count).Pairwise (· < ·) := by
  induction count generalizing day with
  | zero => exact List.Pairwise.nil
  | succ count ih =>
      refine List.pairwise_cons.2 ⟨fun x hx => ?_, ih _⟩
      have hx := (mem_daysFrom.1 hx).1
      simp only [Day] at *
      omega

theorem filter_daysFrom_succ (day : Day) (count : ℕ) (p : Day → Bool) :
    (daysFrom day (count + 1)).filter p = [day].filter p ++ (daysFrom (day + 1) count).filter p := by
  rw [← List.filter_append]
  rfl

section Texts

variable {day : Day}

theorem IsoDate.text_eq (date : IsoDate) : FourDigits date.day ∧ dateText date.day = date.text :=
  dateText_of_isoDate date.ok

theorem parseDate_dateText (h : FourDigits day) : parseDate (dateText day) = some day := by
  rw [parseDate, isoDate_dateText h, Option.some_or]

theorem addDaysText_dateText (h : FourDigits day) : addDaysText (dateText day) 1 = some (dateText (day + 1)) := by
  rw [addDaysText, parseDate_dateText h, Option.map_some]

theorem meetsText_dateText (input : SessionInput) (h : FourDigits day) :
    input.meetsText (dateText day) = input.schedule.meets day := by
  have hholiday : isHolidayText (dateText day) input.branchId input.holidays =
      isHoliday day input.branchId (input.holidays.map HolidayText.rule) := by
    rw [isHolidayText, isHoliday, List.any_map]
    congr 1
    funext r
    obtain ⟨hfour, htext⟩ := r.date.text_eq
    rw [← htext, Function.comp_apply, HolidayText.rule]
    congr 1
    split
    · rw [Bool.eq_iff_iff]
      simp only [beq_iff_eq, Bool.and_eq_true]
      exact drop_dateText_eq_iff hfour h
    · rw [Bool.eq_iff_iff]
      simp only [beq_iff_eq]
      exact ⟨dateText_injective hfour h, fun heq => heq ▸ rfl⟩
  rw [SessionInput.meetsText, hholiday, parseDate_dateText h]
  rfl

end Texts

/-! ## The loop -/

section Loop

variable {input : SessionInput} {day : Day} {dates : List (List Char)}

theorem loop_past {text : List Char} (h : ¬ text ≤ input.endDate.text) (rounds : ℕ) :
    input.loop (rounds + 1) text dates = .returned dates := by
  rw [SessionInput.loop, if_neg fun hmore => h hmore.1]

theorem loop_full (h : MAX_SESSIONS < dates.length) (text : List Char) (rounds : ℕ) :
    input.loop (rounds + 1) text dates = .returned dates := by
  rw [SessionInput.loop, if_neg fun hmore => absurd hmore.2 (not_le.2 h)]

/-- One round, on a date of the calendar. -/
theorem loop_day (h : FourDigits day) (hend : day ≤ input.endDate.day) (hroom : dates.length ≤ MAX_SESSIONS)
    (rounds : ℕ) :
    input.loop (rounds + 1) (dateText day) dates =
      input.loop rounds (dateText (day + 1))
        (dates ++ ([day].filter input.schedule.meets).map dateText) := by
  obtain ⟨hfour, htext⟩ := input.endDate.text_eq
  have hle : dateText day ≤ input.endDate.text := by
    rw [← htext]
    exact (dateText_le_iff h hfour).2 hend
  rw [SessionInput.loop, if_pos ⟨hle, hroom⟩, addDaysText_dateText h, meetsText_dateText input h]
  by_cases hmeets : input.schedule.meets day = true <;> simp [hmeets]

/-- More rounds change nothing once it has returned. -/
theorem loop_mono {rounds : ℕ} {text : List Char} {result : List (List Char)}
    (h : input.loop rounds text dates = .returned result) (more : ℕ) :
    input.loop (rounds + more) text dates = .returned result := by
  induction rounds generalizing text dates with
  | zero => cases h
  | succ rounds ih =>
      rw [Nat.add_right_comm, SessionInput.loop]
      rw [SessionInput.loop] at h
      split
      · rename_i hmore
        rw [if_pos hmore] at h
        cases hnext : addDaysText text 1 with
        | none =>
            rw [hnext] at h
            cases h
        | some next =>
            rw [hnext] at h
            exact ih h
      · rename_i hdone
        rwa [if_neg hdone] at h

/-- As long as there is room for all of them, so many days are walked through. -/
theorem loop_days {count : ℕ} (hfirst : FourDigits day) (hlast : day + count ≤ input.endDate.day + 1)
    (hroom : dates.length + ((daysFrom day count).filter input.schedule.meets).length ≤ MAX_SESSIONS)
    (rounds : ℕ) :
    input.loop (rounds + count) (dateText day) dates =
      input.loop rounds (dateText (day + count))
        (dates ++ ((daysFrom day count).filter input.schedule.meets).map dateText) := by
  induction count generalizing day dates with
  | zero => simp [daysFrom]
  | succ count ih =>
      have hend := input.endDate.text_eq.1
      have hsplit := filter_daysFrom_succ day count input.schedule.meets
      rw [hsplit, List.length_append] at hroom
      rw [hsplit, List.map_append, ← List.append_assoc, ← Nat.add_assoc]
      have hshift : day + ((count + 1 : ℕ) : ℤ) = day + 1 + count := by
        simp only [Day]
        omega
      rw [hshift] at hlast ⊢
      cases count with
      | zero =>
          rw [loop_day hfirst (by simp only [Day] at *; omega) (by omega)]
          simp [daysFrom]
      | succ count =>
          rw [loop_day hfirst (by simp only [Day] at *; omega) (by omega)]
          apply ih
          · apply hfirst.between hend <;> simp only [Day] at * <;> omega
          · exact hlast
          · rw [List.length_append, List.length_map]
            omega

/-- With too many of them it stops at one more than there may be. -/
theorem loop_many {count : ℕ} (hfirst : FourDigits day) (hlast : day + count ≤ input.endDate.day + 1)
    (hlen : dates.length ≤ MAX_SESSIONS + 1)
    (hmany : MAX_SESSIONS + 1 ≤ dates.length + ((daysFrom day count).filter input.schedule.meets).length) :
    input.loop (count + 1) (dateText day) dates = .returned
      ((dates ++ ((daysFrom day count).filter input.schedule.meets).map dateText).take (MAX_SESSIONS + 1)) := by
  induction count generalizing day dates with
  | zero =>
      have hfull : dates.length = MAX_SESSIONS + 1 := by
        simp only [daysFrom, List.filter_nil, List.length_nil] at hmany
        omega
      rw [loop_full (by omega), ← hfull, List.take_left]
  | succ count ih =>
      have hend := input.endDate.text_eq.1
      have hsplit := filter_daysFrom_succ day count input.schedule.meets
      have hshift : day + ((count + 1 : ℕ) : ℤ) = day + 1 + count := by
        simp only [Day]
        omega
      rw [hshift] at hlast
      by_cases hfull : dates.length = MAX_SESSIONS + 1
      · rw [loop_full (by omega), ← hfull, List.take_left]
      rw [hsplit, List.length_append] at hmany
      rw [hsplit, List.map_append, ← List.append_assoc,
        loop_day hfirst (by simp only [Day] at *; omega) (by omega)]
      have hone : ([day].filter input.schedule.meets).length ≤ 1 := List.length_filter_le _ _
      have hnext : (dates ++ ([day].filter input.schedule.meets).map dateText).length =
          dates.length + ([day].filter input.schedule.meets).length := by
        rw [List.length_append, List.length_map]
      cases count with
      | zero =>
          simp only [daysFrom, List.filter_nil, List.length_nil] at hmany
          simp only [daysFrom, List.filter_nil, List.map_nil, List.append_nil]
          have hexact : dates.length + ([day].filter input.schedule.meets).length = MAX_SESSIONS + 1 := by omega
          rw [loop_full (by omega), List.take_of_length_le (by omega)]
      | succ count =>
          apply ih
          · apply hfirst.between hend <;> simp only [Day] at * <;> omega
          · exact hlast
          · omega
          · omega

/-- 10000-01-01, cut to ten characters: the day after it is cut to the same. -/
def afterLast : List Char := "+010000-01".toList

theorem dateText_last : dateText (2932896 + 1) = afterLast := by rfl

theorem addDaysText_afterLast : addDaysText afterLast 1 = some afterLast := by rfl

/-- From there it goes on until the list is full. -/
theorem loop_afterLast (hend : afterLast ≤ input.endDate.text) {rounds : ℕ} {result : List (List Char)}
    (h : input.loop rounds afterLast dates = .returned result) : MAX_SESSIONS < result.length := by
  induction rounds generalizing dates with
  | zero => cases h
  | succ rounds ih =>
      rw [SessionInput.loop, addDaysText_afterLast] at h
      split at h
      · exact ih h
      · rename_i hdone
        obtain rfl := Outcome.returned.inj h
        by_contra hroom
        exact hdone ⟨hend, not_lt.1 hroom⟩

end Loop

/-! ## What it returns -/

/-- It ends, with the meetings in ascending order, or with as many as tell that
there are too many. -/
def SessionInput.Exact (input : SessionInput) : Prop :=
  ∃ rounds dates, input.sessionDates rounds = .returned dates ∧ dates.Pairwise (· < ·) ∧
    dates = (input.meetings.map dateText).take (MAX_SESSIONS + 1)

theorem meetings_ascending (input : SessionInput) :
    ((input.meetings.map dateText).take (MAX_SESSIONS + 1)).Pairwise (· < ·) := by
  have hstart := input.startDate.text_eq.1
  have hend := input.endDate.text_eq.1
  have hsorted : input.meetings.Pairwise (· < ·) := (daysFrom_pairwise _ _).filter _
  have hfour : ∀ day ∈ input.meetings, FourDigits day := by
    intro day hday
    have hrange := mem_daysFrom.1 (List.mem_of_mem_filter hday)
    apply hstart.between hend <;> simp only [Day] at * <;> omega
  have htexts : (input.meetings.map dateText).Pairwise (· < ·) := by
    rw [List.pairwise_map]
    exact hsorted.imp_of_mem fun ha hb hab => dateText_lt (hfour _ ha) (hfour _ hb) hab
  exact htexts.sublist (List.take_sublist _ _)

theorem endDate_last_iff (input : SessionInput) :
    input.endDate.text = "9999-12-31".toList ↔ input.endDate.day = 2932896 := by
  obtain ⟨hfour, htext⟩ := input.endDate.text_eq
  have hlast : dateText 2932896 = "9999-12-31".toList := by rfl
  rw [← htext, ← hlast]
  constructor
  · exact dateText_injective hfour (by simp [FourDigits])
  · intro h
    rw [h]

/-- It does so except where the last day of the year 9999 is walked past. -/
theorem sessionDates_exact_iff (input : SessionInput) :
    input.Exact ↔
      input.endDate.text ≠ "9999-12-31".toList ∨ MAX_SESSIONS + 1 ≤ input.meetings.length := by
  obtain ⟨hstart, hstartText⟩ := input.startDate.text_eq
  obtain ⟨hend, hendText⟩ := input.endDate.text_eq
  rw [Ne, endDate_last_iff]
  have hcount : input.startDate.day ≤ input.endDate.day →
      input.startDate.day + (input.endDate.day + 1 - input.startDate.day).toNat = input.endDate.day + 1 := by
    intro hle
    simp only [Day] at *
    omega
  have hascending := meetings_ascending input
  unfold SessionInput.Exact SessionInput.sessionDates
  rw [← hstartText]
  by_cases hempty : input.endDate.day < input.startDate.day
  · -- Nothing to walk through.
    have hnone : input.meetings = [] := by
      have hzero : (input.endDate.day + 1 - input.startDate.day).toNat = 0 := by
        simp only [Day] at *
        omega
      rw [SessionInput.meetings, hzero]
      rfl
    have hpast : ¬ dateText input.startDate.day ≤ input.endDate.text := by
      rw [← hendText, dateText_le_iff hstart hend]
      exact not_le.2 hempty
    constructor
    · intro _
      left
      have hbound := hstart.2
      simp only [Day] at *
      omega
    · intro _
      refine ⟨1, [], loop_past hpast 0, List.Pairwise.nil, ?_⟩
      rw [hnone]
      rfl
  have hle : input.startDate.day ≤ input.endDate.day := not_lt.1 hempty
  have hreach := hcount hle
  by_cases hmany : MAX_SESSIONS + 1 ≤ input.meetings.length
  · -- The list is full before the last day is past.
    have hloop := @loop_many input input.startDate.day []
      (input.endDate.day + 1 - input.startDate.day).toNat hstart (le_of_eq hreach) (by simp)
      (by rw [List.length_nil, Nat.zero_add]; exact hmany)
    rw [List.nil_append] at hloop
    exact ⟨fun _ => Or.inr hmany, fun _ => ⟨_, _, hloop, hascending, rfl⟩⟩
  · have hfew : input.meetings.length ≤ MAX_SESSIONS := by omega
    have hloop := @loop_days input input.startDate.day []
      (input.endDate.day + 1 - input.startDate.day).toNat hstart (le_of_eq hreach)
      (by rw [List.length_nil, Nat.zero_add]; exact hfew)
    rw [List.nil_append, hreach] at hloop
    have hall : (input.meetings.map dateText).take (MAX_SESSIONS + 1) = input.meetings.map dateText := by
      apply List.take_of_length_le
      rw [List.length_map]
      omega
    rw [hall] at hascending ⊢
    constructor
    · rintro ⟨rounds, dates, hrun, -, rfl⟩
      left
      intro hlast
      -- The day after is cut to a text that comes before the last day.
      have hmore := loop_mono hrun (input.endDate.day + 1 - input.startDate.day).toNat
      rw [hloop, hlast, dateText_last] at hmore
      have hbefore : afterLast ≤ input.endDate.text := by
        rw [(endDate_last_iff input).2 hlast]
        decide
      have hfull := loop_afterLast hbefore hmore
      rw [List.length_map] at hfull
      omega
    · rintro (hlast | hfull)
      · have hnext : FourDigits (input.endDate.day + 1) := by
          obtain ⟨hlow, hhigh⟩ := hend
          constructor <;> simp only [Day] at * <;> omega
        have hpast : ¬ dateText (input.endDate.day + 1) ≤ input.endDate.text := by
          rw [← hendText, dateText_le_iff hnext hend]
          simp only [Day] at *
          omega
        exact ⟨_, _, (hloop 1).trans (loop_past hpast 0), hascending, rfl⟩
      · exact absurd hfull hmany

/-- The Mondays of 9999-12-31, a Friday. -/
def newYearsEve : SessionInput where
  startDate := ⟨"9999-12-31".toList, 2932896, by decide +kernel⟩
  endDate := ⟨"9999-12-31".toList, 2932896, by decide +kernel⟩
  daysOfWeek := [1]
  branchId := 1
  holidays := []

theorem loop_newYearsEve (rounds : ℕ) : newYearsEve.loop rounds afterLast [] = .running := by
  induction rounds with
  | zero => rfl
  | succ rounds ih =>
      have hon : afterLast ≤ newYearsEve.endDate.text ∧ ([] : List (List Char)).length ≤ MAX_SESSIONS := by
        decide
      have hmeets : newYearsEve.meetsText afterLast = false := by rfl
      rw [SessionInput.loop, if_pos hon, addDaysText_afterLast, hmeets]
      exact ih

/-- The loop never ends. -/
theorem sessionDates_endless : ¬ ∃ rounds dates, newYearsEve.sessionDates rounds = .returned dates := by
  rintro ⟨rounds, dates, h⟩
  cases rounds with
  | zero => cases h
  | succ rounds =>
      have hon : newYearsEve.startDate.text ≤ newYearsEve.endDate.text ∧
          ([] : List (List Char)).length ≤ MAX_SESSIONS := by decide
      have hnext : addDaysText newYearsEve.startDate.text 1 = some afterLast := by rfl
      have hmeets : newYearsEve.meetsText newYearsEve.startDate.text = false := by rfl
      rw [SessionInput.sessionDates, SessionInput.loop, if_pos hon, hnext, hmeets] at h
      exact absurd ((loop_newYearsEve rounds).symm.trans h) nofun

/-- Mondays and Thursdays of two weeks, but for a holiday. -/
example : SessionInput.sessionDates
    ⟨⟨"2026-09-01".toList, 20697, by decide +kernel⟩, ⟨"2026-09-14".toList, 20710, by decide +kernel⟩, [1, 4], 1,
      [⟨⟨"2025-09-10".toList, 20341, by decide +kernel⟩, true, none⟩]⟩ 15 =
    .returned ["2026-09-03".toList, "2026-09-07".toList, "2026-09-14".toList] := by
  rfl

end Emis.Cohorts
