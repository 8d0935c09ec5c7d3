import Emis.Catalog.Prerequisites
import Emis.Common.Permissions
import Emis.Common.Versioning
import Mathlib.Data.Int.Notation
import Mathlib.Data.Rat.Init

/-!
# Courses and their prerequisites

`setPrerequisites` of `modules/catalog/application/courses.service.ts`, with the tables
of migration `0005_catalog.sql`.
-/

namespace Emis.Catalog

open Transactions

structure ProgramRow where
  id : Uuid
  departmentId : Uuid
  deriving DecidableEq, Repr

structure CourseRow where
  id : Uuid
  programId : Uuid
  code : String
  name : String
  levelOrder : ℤ := 0
  durationWeeks : Option ℕ := none
  totalHours : Option ℕ := none
  minAttendancePercent : Option ℕ := none
  minScore : Option ℚ := none
  certificateEligible : Bool := true
  isActive : Bool := true
  sortOrder : ℤ := 0
  version : ℕ := 1
  deriving DecidableEq, Repr

structure PrerequisiteRow where
  courseId : Uuid
  prerequisiteCourseId : Uuid
  deriving DecidableEq, Repr

structure Db where
  programs : List ProgramRow := []
  courses : List CourseRow := []
  prerequisites : List PrerequisiteRow := []

/-- A course's row, and the advisory lock of a program's prerequisites. -/
inductive Lock where
  | course (id : Uuid)
  | prerequisites (programId : Uuid)
  deriving DecidableEq, Repr

abbrev Tx := Prog Db Lock Error

def coursesTable : VersionedTable Db Lock CourseRow where
  rows d := d.courses
  put rows d := { d with courses := rows }
  id r := r.id
  version r := r.version
  withVersion n r := { r with version := n }
  rowLock := .course

namespace catalogErrors

def programNotFound : Error := .http <| notFound "PROGRAM_NOT_FOUND" "Program not found."

def courseNotFound : Error := .http <| notFound "COURSE_NOT_FOUND" "Course not found."

def crossProgramPrerequisite : Error :=
  .http <| unprocessable "CROSS_PROGRAM_PREREQUISITE"
    "Prerequisites must be courses in the same program, and not the course itself."

def prerequisiteCycle : Error :=
  .http <| unprocessable "PREREQUISITE_CYCLE"
    "Those prerequisites would make courses depend on each other in a loop."

end catalogErrors

/-- `toCourse`: the row with its prerequisites. -/
structure Course where
  row : CourseRow
  prerequisiteIds : List Uuid

namespace CoursesService

def row (id : Uuid) : Tx CourseRow := do
  let d ← Prog.get
  Prog.expect (coursesTable.row? d id) catalogErrors.courseNotFound

/-- `ProgramsService.row`. -/
def programRow (id : Uuid) : Tx ProgramRow := do
  let d ← Prog.get
  Prog.expect (d.programs.find? fun p => p.id == id) catalogErrors.programNotFound

/-- The edges out of the program's courses. -/
def edgesOf (d : Db) (programId : Uuid) : List PrerequisiteRow :=
  d.prerequisites.filter fun e => d.courses.any fun c => c.id == e.courseId && c.programId == programId

/-- One more edge: `graph.set(courseId, [...(graph.get(courseId) ?? []), id])`. -/
def addEdge (graph : PrerequisiteGraph) (edge : PrerequisiteRow) : PrerequisiteGraph :=
  graph.set edge.courseId (graph.get edge.courseId ++ [edge.prerequisiteCourseId])

def graphOf (edges : List PrerequisiteRow) : PrerequisiteGraph := edges.foldl addEdge []

/-- The prerequisites must be other courses of the program that do not lead back. -/
def requirePrerequisites (before : CourseRow) (ids : List Uuid) : Tx Unit := do
  Prog.require (!ids.contains before.id) catalogErrors.crossProgramPrerequisite
  Prog.when (!ids.isEmpty) do
    let d ← Prog.get
    let found := d.courses.filter fun c => ids.contains c.id && c.programId == before.programId
    Prog.require (found.length == ids.length) catalogErrors.crossProgramPrerequisite
    let d ← Prog.get
    Prog.require (!wouldCreateCycle (graphOf (edgesOf d before.programId)) before.id ids)
      catalogErrors.prerequisiteCycle

/-- `INSERT INTO course_prerequisites`, with the constraints of the table. -/
def insertPrerequisites (rows : List PrerequisiteRow) : Tx Unit := do
  Prog.require (rows.all fun e => e.courseId != e.prerequisiteCourseId)
    (.database (.check "course_prerequisites_not_self_check"))
  let d ← Prog.get
  Prog.require (d.prerequisites ++ rows).Nodup
    (.database (.unique "course_prerequisites_course_id_prerequisite_course_id_pk"))
  Prog.modify fun d => { d with prerequisites := d.prerequisites ++ rows }

def setPrerequisites (id : Uuid) (requestedIds : List Uuid) (expectedVersion : ℕ)
    (grants : List Grant) : Tx Course := do
  let before ← row id
  let program ← programRow before.programId
  assertScope grants .catalogManage (some { departmentId := some program.departmentId })
  Prog.acquire (.prerequisites before.programId)
  let ids := requestedIds.eraseDups
  requirePrerequisites before ids
  let result ← updateWithVersion coursesTable id expectedVersion fun c => c
  let bumped ← versionedRow result catalogErrors.courseNotFound
  Prog.modify fun d => { d with prerequisites := d.prerequisites.filter fun e => e.courseId != id }
  Prog.when (!ids.isEmpty) (insertPrerequisites (ids.map fun p => ⟨id, p⟩))
  return ⟨bumped, ids⟩

end CoursesService

/-! ## Requests -/

/-- `PUT /courses/:id/prerequisites`, with the grants of who asks. -/
structure Call where
  id : Uuid
  courseIds : List Uuid
  expectedVersion : ℕ
  grants : List Grant

/-- The controller asks for the permission before the service asks for its scope. -/
def Call.code (q : Call) : Tx Course := do
  Prog.require (hasPermission q.grants .catalogManage) permissionDenied
  CoursesService.setPrerequisites q.id q.courseIds q.expectedVersion q.grants

end Emis.Catalog
