import Emis.Billing.Schema
import Emis.Cohorts.EnrollmentsService
import Emis.Documents.Templates

/-!
# Certificates, student cards and what they say of their holders

The tables of `packages/db/src/schema/documents.ts`, the columns that the services of
the documents module read elsewhere, and `verification.service.ts`.
-/

namespace Emis.Documents

open Transactions

/-- The columns of `students` that are printed or checked. -/
structure StudentRow where
  id : Uuid
  studentNumber : Str
  givenName : Str
  fatherName : Str
  grandfatherName : Option Str
  branchId : Uuid
  status : Cohorts.StudentStatus
  deriving DecidableEq, Repr

/-- `[givenName, fatherName, grandfatherName].filter(Boolean).join(' ')`. -/
def StudentRow.fullName (s : StudentRow) : Str :=
  [' '].intercalate ([some s.givenName, some s.fatherName, s.grandfatherName].filterMap present)

/-- The columns of `courses` that certificates need. -/
structure CourseRow where
  id : Uuid
  programId : Uuid
  name : Str
  certificateEligible : Bool
  deriving DecidableEq, Repr

/-- The columns of the institution row that numbering has no use for. -/
structure Settings where
  name : Str := []
  certificateRequiresPaidInFull : Bool := false
  deriving DecidableEq, Repr

structure CertificateRow where
  id : Uuid
  serial : Numbering.Text
  enrollmentId : Uuid
  studentId : Uuid
  courseId : Uuid
  studentName : Str
  courseName : Str
  completedOn : Day
  token : Str
  status : CertificateState := .issued
  issuedAt : Instant
  revokedAt : Option Instant := none
  revokedReason : Option Str := none
  version : ℕ := 1
  deriving DecidableEq, Repr

inductive CardStatus where
  | active
  | revoked
  deriving DecidableEq, Repr

structure StudentCardRow where
  id : Uuid
  studentId : Uuid
  token : Str
  validFrom : Day
  validUntil : Day
  status : CardStatus := .active
  issuedAt : Instant
  revokedAt : Option Instant := none
  deriving DecidableEq, Repr

structure Db where
  cohorts : Cohorts.Db := {}
  numbering : Numbering.Db := {}
  settings : Settings := {}
  students : List StudentRow := []
  courses : List CourseRow := []
  invoices : List Billing.InvoiceRow := []
  certificates : List CertificateRow := []
  studentCards : List StudentCardRow := []

/-- Locks of the other modules, row locks, and entries of unique indexes. -/
inductive Lock where
  | cohorts (l : Cohorts.Lock)
  | numbering (l : Numbering.Lock)
  | certificate (id : Uuid)
  | certificateSerial (serial : Numbering.Text)
  | certificateToken (token : Str)
  | inForce (enrollmentId : Uuid)
  | studentCard (id : Uuid)
  | cardToken (token : Str)
  | activeCard (studentId : Uuid)
  deriving DecidableEq, Repr

/-- What a call takes from its surroundings; `token` is its `randomBytes(32)`. -/
structure Env extends Numbering.Env where
  newId : Uuid := 0
  token : Str := []

abbrev Tx := Prog Db Lock Error

/-- A statement on enrollments and cohorts. -/
def inCohorts {α : Type} (p : Cohorts.Tx α) : Tx α :=
  p.zoom Db.cohorts (fun c d => { d with cohorts := c }) Lock.cohorts

/-- A statement of the settings module. -/
def inSettings {α : Type} (p : Numbering.Tx α) : Tx α :=
  p.zoom Db.numbering (fun n d => { d with numbering := n }) Lock.numbering

/-! ## Errors -/

namespace documentErrors

def certificateNotFound : Error := .http <| notFound "CERTIFICATE_NOT_FOUND" "Certificate not found."

def notEligible (reason : String) : Error := .http <| unprocessable "NOT_ELIGIBLE_FOR_CERTIFICATE" reason

def alreadyIssued : Error :=
  .http <| conflict "CERTIFICATE_ALREADY_ISSUED"
    "A certificate has already been issued for this enrollment. Revoke it first to issue a new one."

def balanceOutstanding : Error :=
  .http <| conflict "BALANCE_OUTSTANDING" <|
    "This institution only issues certificates once the fees are paid in full, " ++
      "and a balance is still owed."

def alreadyRevoked : Error := .http <| conflict "ALREADY_REVOKED" "This certificate is already revoked."

def verificationNotFound : Error :=
  .http <| notFound "VERIFICATION_NOT_FOUND" "We couldn't find a document for that code."

end documentErrors

/-! ## Look-ups in other modules -/

/-- `InstitutionService.localDate`. -/
def localDate (env : Env) (date : Instant) : Tx Day := do
  let inst ← inSettings Numbering.institutionRow
  return env.zone date inst.timezone

/-- `InstitutionService.today`. -/
def today (env : Env) : Tx Day := localDate env env.now

/-- `InstitutionService.get`. -/
def institution : Tx Settings := do
  let _ ← inSettings Numbering.institutionRow
  let d ← Prog.get
  return d.settings

/-- `StudentsService.requireExisting`. -/
def requireExisting (id : Uuid) : Tx StudentRow := do
  let d ← Prog.get
  Prog.expect (d.students.find? fun s => s.id == id) Cohorts.studentNotFound

/-! ## Verification -/

inductive DocumentKind where
  | certificate
  | studentCard
  deriving DecidableEq, Repr

inductive VerificationStatus where
  | valid
  | revoked
  | expired
  deriving DecidableEq, Repr

structure Verification where
  kind : DocumentKind
  status : VerificationStatus
  holderName : Str
  title : Str
  serial : Str
  issuedOn : Day
  validUntil : Option Day
  revokedOn : Option Str
  institutionName : Str

namespace VerificationService

/-- `at.toISOString().slice(0, 10)`. -/
def dateOf (date : Option Instant) : Option Str := date.map fun date => (toISOString date).take 10

def ofCertificate (institutionName : Str) (cert : CertificateRow) : Verification where
  kind := .certificate
  status := if cert.status = .revoked then .revoked else .valid
  holderName := cert.studentName
  title := cert.courseName
  serial := cert.serial
  issuedOn := cert.completedOn
  validUntil := none
  revokedOn := dateOf cert.revokedAt
  institutionName := institutionName

def ofCard (institutionName : Str) (today : Day) (card : StudentCardRow) (holder : StudentRow) : Verification where
  kind := .studentCard
  status := if card.status = .revoked then .revoked else if card.validUntil < today then .expired else .valid
  holderName := holder.fullName
  title := "Student ID".toList
  serial := holder.studentNumber
  issuedOn := card.validFrom
  validUntil := some card.validUntil
  revokedOn := dateOf card.revokedAt
  institutionName := institutionName

/-- The card with this token and its holder. -/
def cardWithHolder (d : Db) (token : Str) : Option (StudentCardRow × StudentRow) :=
  ((d.studentCards.filter fun c => c.token == token).flatMap fun c =>
    (d.students.filter fun s => s.id == c.studentId).map fun s => (c, s)).head?

/-- Whether a document is real, for whoever scans its code. -/
def verify (env : Env) (token : Str) : Tx Verification := do
  let inst ← institution
  let today ← today env
  let d ← Prog.get
  match d.certificates.find? fun c => c.token == token with
  | some cert => return ofCertificate inst.name cert
  | none =>
      let d ← Prog.get
      let found ← Prog.expect (cardWithHolder d token) documentErrors.verificationNotFound
      return ofCard inst.name today found.1 found.2

end VerificationService

end Emis.Documents
