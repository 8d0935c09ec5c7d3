import Emis.Documents.Schema

/-!
# Certificates of completion

`certificates.service.ts`: issuing and revoking, with the look-ups they make in other
modules.
-/

namespace Emis.Documents

open Transactions

structure Certificate where
  id : Uuid
  serial : Numbering.Text
  enrollmentId : Uuid
  studentId : Uuid
  studentName : Str
  courseName : Str
  completedOn : Day
  status : CertificateState
  issuedAt : Instant
  revokedAt : Option Instant
  revokedReason : Option Str
  version : ℕ
  deriving DecidableEq, Repr

def toCertificate (row : CertificateRow) : Certificate where
  id := row.id
  serial := row.serial
  enrollmentId := row.enrollmentId
  studentId := row.studentId
  studentName := row.studentName
  courseName := row.courseName
  completedOn := row.completedOn
  status := row.status
  issuedAt := row.issuedAt
  revokedAt := row.revokedAt
  revokedReason := row.revokedReason
  version := row.version

def certificatesTable : VersionedTable Db Lock CertificateRow where
  rows d := d.certificates
  put rows d := { d with certificates := rows }
  id r := r.id
  version r := r.version
  withVersion n r := { r with version := n }
  rowLock := .certificate

/-! ## Look-ups -/

structure BillingContext where
  status : Cohorts.EnrollmentStatus
  studentId : Uuid
  courseId : Uuid
  branchId : Uuid
  completedAt : Option Instant

/-- `EnrollmentsService.billingContext`, with what is used of it. -/
def billingContext (id : Uuid) : Tx (Option BillingContext) := do
  let d ← Prog.get
  return (d.cohorts.enrollments.find? fun e => e.id == id).bind fun e =>
    (d.cohorts.cohort? e.cohortId).map fun c => ⟨e.status, e.studentId, c.courseId, c.branchId, e.completedAt⟩

structure CourseWithDepartment where
  course : CourseRow
  departmentId : Uuid

/-- `CoursesService.findWithDepartment`. -/
def findWithDepartment (id : Uuid) : Tx (Option CourseWithDepartment) := do
  let d ← Prog.get
  match d.courses.find? fun c => c.id == id with
  | none => return none
  | some course =>
      let d ← Prog.get
      let program ← Prog.expect (d.cohorts.programs.find? fun p => p.id == course.programId) Cohorts.programNotFound
      return some ⟨course, program.departmentId⟩

/-- `InvoicesService.balanceForEnrollment`. -/
def balanceForEnrollment (enrollmentId : Uuid) : Tx (Option ℤ) := do
  let d ← Prog.get
  return (d.invoices.find? fun i => i.enrollmentId == some enrollmentId).map fun i =>
    if i.status = .void then 0 else i.total - i.paidTotal

/-! ## Statements -/

def addCertificate (row : CertificateRow) (d : Db) : Db := { d with certificates := d.certificates ++ [row] }

/-- `INSERT INTO certificates`; `isUniqueViolation` makes one error of its four indexes. -/
def insertCertificate (row : CertificateRow) : Tx Unit := do
  Prog.acquire (.certificate row.id)
  Prog.acquire (.certificateSerial row.serial)
  Prog.acquire (.certificateToken row.token)
  Prog.acquire (.inForce row.enrollmentId)
  let d ← Prog.get
  Prog.require (!d.certificates.any fun c => c.id == row.id || c.serial == row.serial || c.token == row.token ||
      (c.enrollmentId == row.enrollmentId && c.status == .issued)) documentErrors.alreadyIssued
  Prog.modify (addCertificate row)

namespace CertificatesService

def row (id : Uuid) (grants : List Grant) : Tx CertificateRow := do
  let d ← Prog.get
  let row ← Prog.expect (d.certificates.find? fun c => c.id == id) documentErrors.certificateNotFound
  let student ← requireExisting row.studentId
  assertBranchAccess grants .certificatesRead student.branchId
  return row

/-- The row that `issue` inserts. -/
def newCertificate (env : Env) (enrollmentId : Uuid) (student : StudentRow) (course : CourseRow)
    (serial : Numbering.Text) (completedOn : Day) : CertificateRow where
  id := env.newId
  serial := serial
  enrollmentId := enrollmentId
  studentId := student.id
  courseId := course.id
  studentName := student.fullName
  courseName := course.name
  completedOn := completedOn
  token := env.token
  issuedAt := env.now

/-- Issue a certificate for a completed enrollment. -/
def issue (env : Env) (enrollmentId : Uuid) (grants : List Grant) : Tx Certificate := do
  let ctx? ← billingContext enrollmentId
  let ctx ← Prog.expect ctx? (documentErrors.notEligible "That enrollment doesn't exist.")
  let course? ← findWithDepartment ctx.courseId
  let course ← Prog.expect course? (documentErrors.notEligible "That course doesn't exist.")
  assertScope grants .certificatesIssue
    (some { departmentId := some course.departmentId, branchId := some ctx.branchId })
  let completedAt ← Prog.expect (if ctx.status = .completed then ctx.completedAt else none) <|
    documentErrors.notEligible "Only students who completed the course can be given a certificate."
  Prog.require course.course.certificateEligible
    (documentErrors.notEligible "This course does not award a certificate.")
  let inst ← institution
  Prog.when inst.certificateRequiresPaidInFull do
    let balance ← balanceForEnrollment enrollmentId
    Prog.require (!balance.any (0 < ·)) documentErrors.balanceOutstanding
  let student ← requireExisting ctx.studentId
  let issued ← inSettings (Numbering.NumberingService.next env.toEnv .certificate none none)
  let completedOn ← localDate env completedAt
  let row := newCertificate env enrollmentId student course.course issued.number completedOn
  insertCertificate row
  return toCertificate row

/-- What `revoke` makes of a row, but for its version. -/
def revokedRow (env : Env) (reason : Str) (c : CertificateRow) : CertificateRow :=
  { c with status := .revoked, revokedAt := some env.now, revokedReason := some reason }

def revoke (env : Env) (id : Uuid) (reason : Str) (expectedVersion : ℕ) (grants : List Grant) : Tx Certificate := do
  let found ← row id grants
  Prog.require (found.status != .revoked) documentErrors.alreadyRevoked
  let result ← updateWithVersion certificatesTable id expectedVersion (revokedRow env reason)
  let row ← versionedRow result documentErrors.certificateNotFound
  return toCertificate row

end CertificatesService

end Emis.Documents
