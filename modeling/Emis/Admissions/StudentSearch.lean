import Emis.Admissions.Phone
import Emis.Admissions.StudentsService
import Emis.Common.Pagination
import Emis.Library.Like

/-!
# The list of students

`StudentsService.list` and the words of its search box, `common/db/like.ts`.
-/

namespace Emis.Admissions

open Transactions
open Cohorts (StudentStatus)
open Emis.Numbering (isBlank)

/-! ## Words -/

def escapeLike (value : Str) : Str :=
  value.flatMap fun ch => if ['\\', '%', '_'].contains ch then ['\\', ch] else [ch]

/-- `split(/\s+/).filter(Boolean)`. -/
def words (text : Str) : List Str := (text.splitOnP isBlank).filter fun word => !word.isEmpty

/-- `toLowerCase` and PostgreSQL's `lower`. -/
def lowerCase (env : Env) (s : Str) : Str := (env.lower (String.ofList s)).toList

def searchTokens (env : Env) (query : Str) (max : ℕ := 5) : List Str :=
  (words (lowerCase env query)).take max

/-- The digits of a word without its leading zeros. -/
def localDigits (token : Str) : Str := (token.filter Char.isDigit).dropWhile (· == '0')

/-- `ILIKE` pattern to find a phone number, or none when the word isn't phone-like. -/
def phonePattern (token : Str) : Option Str :=
  if 3 ≤ (localDigits token).length then some ('%' :: (localDigits token ++ ['%'])) else none

/-! ## The query -/

/-- Both sides are lower-cased, then matched. -/
def ilike (env : Env) (text pattern : Str) : Bool :=
  Like.like (lowerCase env pattern) (lowerCase env text)

namespace StudentsService

structure StudentListQuery where
  q : Option Str := none
  status : Option StudentStatus := none
  branchId : Option Uuid := none
  cursor : Option Cursor := none
  limit : ℕ := 25

/-- The nil UUID. -/
def NO_BRANCH : Uuid := 0

/-- The word must appear in the name, the student number or the phone. -/
def matchesToken (env : Env) (r : StudentRow) (token : Str) : Bool :=
  let pattern := '%' :: (escapeLike token ++ ['%'])
  ilike env (DuplicatesService.searchName env r.person).toList pattern ||
    ilike env r.studentNumber pattern ||
    (phonePattern token).any (ilike env r.person.phone.toList)

/-- The conditions but for the cursor. -/
def listed (env : Env) (query : StudentListQuery) (grants : List Grant) (r : StudentRow) : Bool :=
  query.status.all (r.status == ·) && query.branchId.all (r.branchId == ·) &&
    (branchReach grants .studentsRead).all
      (fun reach => (if reach.isEmpty then [NO_BRANCH] else reach).contains r.branchId) &&
    (searchTokens env (query.q.getD [])).all (matchesToken env r)

/-- The clock of these rows counts whole milliseconds. -/
def sortKey (r : StudentRow) : SortKey := ⟨r.createdAt * 1000, r.id⟩

def list (env : Env) (query : StudentListQuery) (grants : List Grant) : Tx (Page Student) := do
  let d ← Prog.get
  let page := listPage sortKey (listed env query grants) d.students query.limit query.cursor
  let d ← Prog.get
  return {
    items := page.items.map fun row =>
      ⟨row, orderBy (fun g => toLex (!g.isPrimary, g.createdAt))
        (d.studentGuardians.filter fun g => g.studentId == row.id)⟩
    nextCursor := page.nextCursor }

/-- All rows of a list, newest first; its pages are cut from them. -/
def found (env : Env) (query : StudentListQuery) (grants : List Grant) (d : Db) : List StudentRow :=
  newest sortKey (d.students.filter (listed env query grants))

end StudentsService

end Emis.Admissions
