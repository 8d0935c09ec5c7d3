import Emis.Billing.Calls
import Emis.Reminders.ReminderStages

/-!
# Fee reminders

`fee-reminders.service.ts` over the billing tables, with the students, the guardians
and the module switches it reads. An e-mail is kept as the data it is written from.
-/

namespace Emis.Reminders

open Transactions Billing

structure PersonRow where
  id : Uuid
  email : Option String
  givenName : String
  deriving DecidableEq, Repr

structure GuardianRow where
  studentId : Uuid
  name : String
  email : Option String
  isPayer : Bool
  deriving DecidableEq, Repr

inductive ReminderOutcome where
  | queued
  | noContact
  deriving DecidableEq, Repr

structure ReminderLogRow where
  installmentId : Uuid
  stage : ReminderStage
  outcome : ReminderOutcome
  /-- The date of the run; not a column. -/
  day : Day
  deriving DecidableEq, Repr

/-- `reminder_log_installment_stage_key`. -/
def ReminderLogRow.key (r : ReminderLogRow) : Uuid × ReminderStage := (r.installmentId, r.stage)

structure ReminderEmailInput where
  stage : ReminderStage
  recipientName : String
  institutionName : String
  invoiceNumber : Numbering.Text
  instalment : ℕ
  owed : ℤ
  currency : String
  dueDate : Day
  deriving DecidableEq, Repr

/-- An e-mail in the outbox. -/
structure Email where
  recipient : String
  input : ReminderEmailInput
  /-- What it is about, and the date of the run; not part of the e-mail. -/
  installmentId : Uuid
  day : Day
  deriving DecidableEq, Repr

structure Db where
  billing : Billing.Db := {}
  moduleSettings : List (String × Bool) := []
  institutionName : String := ""
  students : List PersonRow := []
  studentGuardians : List GuardianRow := []
  reminderLog : List ReminderLogRow := []
  emails : List Email := []

inductive Lock where
  | billing (l : Billing.Lock)
  | reminder (installmentId : Uuid) (stage : ReminderStage)
  deriving DecidableEq, Repr

abbrev Tx := Prog Db Lock Error

/-- A statement on the billing tables. -/
def inBilling {α : Type} (p : Billing.Tx α) : Tx α :=
  p.zoom Db.billing (fun b d => { d with billing := b }) Lock.billing

/-- `ModulesService.isEnabled`: a module without a stored row is on. -/
def isEnabled (key : String) : Tx Bool := do
  let d ← Prog.get
  return ((d.moduleSettings.find? fun m => m.1 == key).map Prod.snd).getD true

/-- `InstitutionService.localDate`. -/
def localDate (env : Env) (date : Instant) : Tx Day := inBilling (today { env with now := date })

structure Candidate where
  installmentId : Uuid
  sequence : ℕ
  dueDate : Day
  owed : ℤ
  invoiceNumber : Numbering.Text
  invoiceCreatedAt : Instant
  currency : String
  studentId : Uuid

/-- Is the instalment of the invoice worth looking at? -/
def selected (today : Day) (p : InstallmentRow) (i : InvoiceRow) : Bool :=
  i.id == p.invoiceId && (i.status == .issued || i.status == .partiallyPaid) &&
    decide (p.paidAmount < p.amount) && decide (addDays today (-LOOKBACK_DAYS) ≤ p.dueDate) &&
      decide (p.dueDate ≤ addDays today LOOKAHEAD_DAYS)

def candidateOf (p : InstallmentRow) (i : InvoiceRow) : Candidate where
  installmentId := p.id
  sequence := p.sequence
  dueDate := p.dueDate
  owed := p.amount - p.paidAmount
  invoiceNumber := i.number
  invoiceCreatedAt := i.createdAt
  currency := i.currency
  studentId := i.studentId

/-- The instalments joined with their invoices. -/
def candidates (today : Day) (d : Billing.Db) : List Candidate :=
  d.installments.flatMap fun p => (d.invoices.filter fun i => selected today p i).map (candidateOf p)

/-- `INSERT … ON CONFLICT DO NOTHING`: was the row inserted? -/
def insertReminder (row : ReminderLogRow) : Tx Bool := do
  Prog.acquire (.reminder row.installmentId row.stage)
  let d ← Prog.get
  if d.reminderLog.any fun r => r.key == row.key then
    return false
  else
    Prog.modify fun d => { d with reminderLog := d.reminderLog ++ [row] }
    return true

/-- `EmailOutbox.send`. -/
def send (email : Email) : Tx Unit := Prog.modify fun d => { d with emails := d.emails ++ [email] }

namespace FeeRemindersService

/-- What a run has looked up before its loop. -/
structure Lists where
  today : Day
  institutionName : String
  sent : List (Uuid × ReminderStage)
  people : List PersonRow
  payers : List GuardianRow

/-- The payer named on the student's record if there is one, otherwise the student. -/
def addressee (lists : Lists) (c : Candidate) : Option String × String :=
  let payer := lists.payers.find? fun p => p.studentId == c.studentId
  let student := lists.people.find? fun p => p.id == c.studentId
  ((payer.bind GuardianRow.email).or (student.bind PersonRow.email),
    ((payer.map GuardianRow.name).or (student.map PersonRow.givenName)).getD "there")

/-- One turn of the loop: has an e-mail been queued? -/
def remind (env : Env) (lists : Lists) (c : Candidate) : Tx Bool := do
  let created ← localDate env c.invoiceCreatedAt
  if created = lists.today then
    return false
  else
    let already := (lists.sent.filter fun s => s.1 == c.installmentId).map Prod.snd
    match stageToSend (daysPastDue lists.today c.dueDate) already with
    | none => return false
    | some stage =>
        -- An empty address counts as none.
        let recipient := (addressee lists c).1.filter (· ≠ "")
        let outcome := if recipient.isSome then .queued else .noContact
        let recorded ← insertReminder ⟨c.installmentId, stage, outcome, lists.today⟩
        match recorded, recipient with
        | true, some recipient =>
            send {
              recipient := recipient
              input := {
                stage := stage
                recipientName := (addressee lists c).2
                institutionName := lists.institutionName
                invoiceNumber := c.invoiceNumber
                instalment := c.sequence
                owed := c.owed
                currency := c.currency
                dueDate := c.dueDate }
              installmentId := c.installmentId
              day := lists.today }
            return true
        | _, _ => return false

def remindAll (env : Env) (lists : Lists) : List Candidate → ℕ → Tx ℕ
  | [], queued => return queued
  | c :: cs, queued => do
      let sent ← remind env lists c
      remindAll env lists cs (if sent then queued + 1 else queued)

/-- `options.today ?? institution.today()`. -/
def dateOf (env : Env) (today : Option Day) : Tx Day :=
  match today with
  | some today => return today
  | none => localDate env env.now

/-- How many e-mails were queued. -/
def run (env : Env) (today : Option Day) : Tx ℕ := do
  let enabled ← isEnabled "fee_reminders"
  if enabled then
    let today ← dateOf env today
    let _ ← inBilling (inSettings Numbering.institutionRow)
    let d ← Prog.get
    let institutionName := d.institutionName
    let d ← Prog.get
    let candidates := candidates today d.billing
    if candidates = [] then
      return 0
    else
      let installmentIds := candidates.map Candidate.installmentId
      let d ← Prog.get
      let sent := (d.reminderLog.filter fun r => installmentIds.contains r.installmentId).map ReminderLogRow.key
      let studentIds := candidates.map Candidate.studentId
      let d ← Prog.get
      let people := d.students.filter fun s => studentIds.contains s.id
      let d ← Prog.get
      let payers := d.studentGuardians.filter fun g =>
        studentIds.contains g.studentId && g.isPayer && g.email.isSome
      remindAll env ⟨today, institutionName, sent, people, payers⟩ candidates 0
  else
    return 0

end FeeRemindersService

/-! ## The requests -/

/-- A run is begun by the worker's clock; its date may be given. -/
inductive Call where
  | billing (call : Billing.Call)
  | run (now : Instant) (today : Option Day)

inductive Reply where
  | billing (r : Billing.Reply)
  | queued (n : ℕ)

def Call.code (zone : Instant → String → Day) : Call → Tx Reply
  | .billing call => .billing <$> inBilling call.code
  | .run now today => .queued <$> FeeRemindersService.run { now := now, zone := zone } today

end Emis.Reminders
