import Emis.Common.Dates
import Mathlib.Data.Int.Notation

/-!
# Which fee reminder is due

`modules/billing/domain/reminder-stages.ts`.
-/

namespace Emis.Reminders

inductive ReminderStage where
  | dueIn3
  | dueToday
  | overdue3
  | overdue7
  deriving DecidableEq, Repr

/-- Days past the due date from which a stage applies, negative before it. -/
def ReminderStage.threshold : ReminderStage → ℤ
  | .dueIn3 => -3
  | .dueToday => 0
  | .overdue3 => 3
  | .overdue7 => 7

def REMINDER_STAGES : List ReminderStage := [.dueIn3, .dueToday, .overdue3, .overdue7]

def GRACE_DAYS : ℤ := 2

def LOOKAHEAD_DAYS : ℤ := 3

def LOOKBACK_DAYS : ℤ := 7 + GRACE_DAYS

def daysPastDue (today dueDate : Day) : ℤ := today - dueDate

/-- The latest stage reached. -/
def currentStage (daysPast : ℤ) : Option ReminderStage :=
  REMINDER_STAGES.foldl (fun current stage => if stage.threshold ≤ daysPast then some stage else current) none

/-- The stage to send, unless it has been sent or lies too far in the past. -/
def stageToSend (daysPast : ℤ) (alreadySent : List ReminderStage) : Option ReminderStage :=
  match currentStage daysPast with
  | none => none
  | some current =>
      if alreadySent.contains current then none
      else if GRACE_DAYS < daysPast - current.threshold then none
      else some current

/-! ## What is sent when -/

theorem currentStage_eq (daysPast : ℤ) : currentStage daysPast =
    if 7 ≤ daysPast then some .overdue7 else if 3 ≤ daysPast then some .overdue3
    else if 0 ≤ daysPast then some .dueToday else if -3 ≤ daysPast then some .dueIn3 else none := by
  rfl

theorem currentStage_spec {daysPast : ℤ} {stage : ReminderStage} (h : currentStage daysPast = some stage) :
    stage.threshold ≤ daysPast ∧ ∀ other : ReminderStage, other.threshold ≤ daysPast →
      other.threshold ≤ stage.threshold := by
  rw [currentStage_eq] at h
  split at h
  · obtain rfl := Option.some.inj h
    exact ⟨‹_›, fun other _ => by cases other <;> decide⟩
  split at h
  · obtain rfl := Option.some.inj h
    refine ⟨‹_›, fun other hother => ?_⟩
    cases other <;> simp only [ReminderStage.threshold] at hother ⊢ <;> omega
  split at h
  · obtain rfl := Option.some.inj h
    refine ⟨‹_›, fun other hother => ?_⟩
    cases other <;> simp only [ReminderStage.threshold] at hother ⊢ <;> omega
  split at h
  · obtain rfl := Option.some.inj h
    refine ⟨‹_›, fun other hother => ?_⟩
    cases other <;> simp only [ReminderStage.threshold] at hother ⊢ <;> omega
  · cases h

theorem threshold_injective : Function.Injective ReminderStage.threshold := by
  intro stage other h
  cases stage <;> cases other <;> first | rfl | simp [ReminderStage.threshold] at h

theorem stageToSend_spec {daysPast : ℤ} {sent : List ReminderStage} {stage : ReminderStage}
    (h : stageToSend daysPast sent = some stage) :
    currentStage daysPast = some stage ∧ stage ∉ sent ∧ daysPast ≤ stage.threshold + GRACE_DAYS := by
  rw [stageToSend] at h
  cases hcurrent : currentStage daysPast with
  | none => simp [hcurrent] at h
  | some current =>
      simp only [hcurrent] at h
      split at h
      · cases h
      · rename_i hsent
        split at h
        · cases h
        · rename_i hlate
          obtain rfl := Option.some.inj h
          exact ⟨rfl, by simpa using hsent, by omega⟩

/-- What is due is due in the window of the query. -/
theorem window_of_stage {today dueDate : Day} {sent : List ReminderStage} {stage : ReminderStage}
    (h : stageToSend (daysPastDue today dueDate) sent = some stage) :
    addDays today (-LOOKBACK_DAYS) ≤ dueDate ∧ dueDate ≤ addDays today LOOKAHEAD_DAYS := by
  obtain ⟨hcurrent, -, hgrace⟩ := stageToSend_spec h
  have hreached := (currentStage_spec hcurrent).1
  have hspan : -3 ≤ daysPastDue today dueDate ∧ daysPastDue today dueDate ≤ 9 := by
    cases stage <;> simp only [ReminderStage.threshold, GRACE_DAYS] at hreached hgrace <;> omega
  have hwindow : ∀ t d : ℤ, -3 ≤ t - d → t - d ≤ 9 → t + -9 ≤ d ∧ d ≤ t + 3 := by omega
  exact hwindow today dueDate hspan.1 hspan.2

/-- Later days bring later stages. -/
theorem stage_advances {today later dueDate : Day} {sent sent' : List ReminderStage}
    {stage stage' : ReminderStage} (hday : today ≤ later)
    (h : stageToSend (daysPastDue today dueDate) sent = some stage)
    (h' : stageToSend (daysPastDue later dueDate) sent' = some stage') (hne : stage ≠ stage') :
    stage.threshold < stage'.threshold := by
  have hreached := (currentStage_spec (stageToSend_spec h).1).1
  have hlater : daysPastDue today dueDate ≤ daysPastDue later dueDate := Int.sub_le_sub_right hday dueDate
  have hle := (currentStage_spec (stageToSend_spec h').1).2 stage (Int.le_trans hreached hlater)
  exact Int.lt_iff_le_and_ne.2 ⟨hle, fun heq => hne (threshold_injective heq)⟩

end Emis.Reminders
