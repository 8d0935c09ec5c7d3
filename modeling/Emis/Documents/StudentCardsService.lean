import Emis.Documents.Schema

/-!
# Student ID cards

`student-cards.service.ts`.
-/

namespace Emis.Documents

open Transactions

/-- How long a new card is valid for. -/
def CARD_VALID_DAYS : ℤ := 365

structure StudentCard where
  id : Uuid
  studentId : Uuid
  validFrom : Day
  validUntil : Day
  status : CardState
  issuedAt : Instant
  deriving DecidableEq, Repr

def activeOf (studentId : Uuid) (c : StudentCardRow) : Bool := c.studentId == studentId && c.status == .active

/-- `SET status = 'revoked', revoked_at`. -/
def revokedCard (now : Instant) (c : StudentCardRow) : StudentCardRow :=
  { c with status := .revoked, revokedAt := some now }

def revokeCards (now : Instant) (p : StudentCardRow → Bool) (d : Db) : Db :=
  { d with studentCards := changeWhere p (revokedCard now) d.studentCards }

def revokeFound (now : Instant) (studentId : Uuid) (row : StudentCardRow) : Tx Unit := do
  let hit (c : StudentCardRow) : Bool := c.id == row.id && activeOf studentId c
  let _ ← Prog.updateWhere (.studentCard row.id) (fun d => d.studentCards.any hit) (revokeCards now hit)

/-- `UPDATE student_cards SET … WHERE student_id AND status = 'active'`. -/
def revokeActive (now : Instant) (studentId : Uuid) : Tx Unit := do
  let d ← Prog.get
  (d.studentCards.filter (activeOf studentId)).forM (revokeFound now studentId)

/-- `INSERT INTO student_cards`, with its entries in the three unique indexes. -/
def insertCard (row : StudentCardRow) : Tx Unit := do
  Prog.acquire (.studentCard row.id)
  let d ← Prog.get
  Prog.require (!d.studentCards.any fun c => c.id == row.id) (.database (.unique "student_cards_pkey"))
  Prog.acquire (.cardToken row.token)
  let d ← Prog.get
  Prog.require (!d.studentCards.any fun c => c.token == row.token) (.database (.unique "student_cards_token_key"))
  Prog.acquire (.activeCard row.studentId)
  let d ← Prog.get
  Prog.require (!d.studentCards.any (activeOf row.studentId))
    (.database (.unique "student_cards_one_active_per_student_key"))
  Prog.modify fun d => { d with studentCards := d.studentCards ++ [row] }

namespace StudentCardsService

def toCard (env : Env) (row : StudentCardRow) : Tx StudentCard := do
  let today ← today env
  return {
    id := row.id
    studentId := row.studentId
    validFrom := row.validFrom
    validUntil := row.validUntil
    status := if row.status = .revoked then .revoked else if row.validUntil < today then .expired else .active
    issuedAt := row.issuedAt }

/-- The row that `issue` inserts. -/
def newCard (env : Env) (studentId : Uuid) (today : Day) : StudentCardRow where
  id := env.newId
  studentId := studentId
  token := env.token
  validFrom := today
  validUntil := addDays today CARD_VALID_DAYS
  issuedAt := env.now

/-- What `issue` does once it has let the caller through. -/
def replaceCard (env : Env) (studentId : Uuid) : Tx StudentCard := do
  revokeActive env.now studentId
  let today ← today env
  insertCard (newCard env studentId today)
  toCard env (newCard env studentId today)

def issue (env : Env) (studentId : Uuid) (grants : List Grant) : Tx StudentCard := do
  let student ← requireExisting studentId
  assertScope grants .studentsManage (some { branchId := some student.branchId })
  Prog.require (student.status == .active)
    (documentErrors.notEligible "Only active students can be given an ID card.")
  replaceCard env studentId

end StudentCardsService

end Emis.Documents
