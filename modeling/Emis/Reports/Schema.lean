import Emis.Billing.Schema
import Emis.Library.Joins

/-!
# What the finance reports read

The billing tables, and of the catalog, the settings and the students what the
reports join to them.
-/

namespace Emis.Reports

open Transactions

structure CourseRow where
  id : Uuid
  programId : Uuid
  deriving DecidableEq, Repr

structure ProgramRow where
  id : Uuid
  name : String
  departmentId : Uuid
  deriving DecidableEq, Repr

structure DepartmentRow where
  id : Uuid
  name : String
  deriving DecidableEq, Repr

structure StudentRow where
  id : Uuid
  studentNumber : String
  givenName : String
  fatherName : String
  deriving DecidableEq, Repr

structure Db where
  billing : Billing.Db := {}
  currency : String := "ETB"
  courses : List CourseRow := []
  programs : List ProgramRow := []
  departments : List DepartmentRow := []
  students : List StudentRow := []

/-- The primary keys of the tables, and the foreign keys of the inner joins. -/
structure Constrained (d : Db) : Prop where
  invoiceIds : (d.billing.invoices.map Billing.InvoiceRow.id).Nodup
  installmentIds : (d.billing.installments.map Billing.InstallmentRow.id).Nodup
  paymentIds : (d.billing.payments.map Billing.PaymentRow.id).Nodup
  cohortIds : (d.billing.cohorts.map Cohorts.CohortRow.id).Nodup
  branchIds : (d.billing.numbering.branches.map Numbering.BranchRow.id).Nodup
  courseIds : (d.courses.map CourseRow.id).Nodup
  programIds : (d.programs.map ProgramRow.id).Nodup
  departmentIds : (d.departments.map DepartmentRow.id).Nodup
  studentIds : (d.students.map StudentRow.id).Nodup
  invoiceStudent : ∀ i ∈ d.billing.invoices, ∃ s ∈ d.students, s.id = i.studentId
  paymentInvoice : ∀ p ∈ d.billing.payments, ∃ i ∈ d.billing.invoices, i.id = p.invoiceId
  paymentBranch : ∀ p ∈ d.billing.payments, ∃ b ∈ d.billing.numbering.branches, b.id = p.branchId

/-- What a call takes from its surroundings. `zone` is the date of an instant in a
time zone, `midnight` what `date::timestamp AT TIME ZONE tz` gives. -/
structure Env where
  now : Instant := 0
  zone : Instant → String → Day := fun date _ => date / 86400000
  midnight : String → Day → Instant := fun _ date => date * 86400000

abbrev Tx := Prog Db Billing.Lock Error

/-- `InstitutionService.get`: the row, with its currency. -/
def institution : Tx (Numbering.InstitutionRow × String) := do
  let inst ← Prog.zoom (fun d : Db => d.billing.numbering)
    (fun n d => { d with billing := { d.billing with numbering := n } }) Billing.Lock.numbering
    Numbering.institutionRow
  let d ← Prog.get
  return (inst, d.currency)

/-- `InstitutionService.today`. -/
def today (env : Env) : Tx Day := do
  let (inst, _) ← institution
  return env.zone env.now inst.timezone

/-! ## Joins -/

/-- A row with what the reports join to it. -/
structure Joined (ρ : Type) where
  row : ρ
  invoice : Billing.InvoiceRow
  cohort : Option Cohorts.CohortRow := none
  course : Option CourseRow := none
  program : Option ProgramRow := none
  department : Option DepartmentRow := none

namespace Joined

variable {ρ τ : Type}

def departmentId (r : Joined ρ) : Option Uuid := r.program.map ProgramRow.departmentId

/-- `INNER JOIN invoices`. -/
def withInvoice (d : Db) (invoiceId : ρ → Uuid) (rows : List ρ) : List (Joined ρ) :=
  innerJoin (fun r i => i.id == invoiceId r) (fun r i => { row := r, invoice := i })
    d.billing.invoices rows

/-- `INNER JOIN` with what each row refers to. -/
def with_ (key : τ → Uuid) (foreignKey : Joined ρ → Uuid) (table : List τ) (rows : List (Joined ρ)) :
    List (Joined (ρ × τ)) :=
  innerJoin (fun r s => key s == foreignKey r)
    (fun r s => { r with row := (r.row, s) }) table rows

/-- `LEFT JOIN cohorts … LEFT JOIN courses … LEFT JOIN programs …`. -/
def withProgram (d : Db) (rows : List (Joined ρ)) : List (Joined ρ) :=
  leftJoin (fun r p => r.course.map CourseRow.programId == some p.id)
    (fun r p => { r with program := p }) d.programs <|
  leftJoin (fun r c => r.cohort.map Cohorts.CohortRow.courseId == some c.id)
    (fun r c => { r with course := c }) d.courses <|
  leftJoin (fun r c => r.invoice.cohortId == some c.id)
    (fun r c => { r with cohort := c }) d.billing.cohorts rows

/-- `LEFT JOIN departments`. -/
def withDepartment (d : Db) (rows : List (Joined ρ)) : List (Joined ρ) :=
  leftJoin (fun r p => r.departmentId == some p.id) (fun r p => { r with department := p })
    d.departments rows

end Joined

/-! ## What is joined -/

section Lookups

variable {d : Db} {ρ τ : Type}

namespace Joined

/-- The row without what the last inner join put beside it. -/
def fst (r : Joined (ρ × τ)) : Joined ρ := { r with row := r.row.1 }

/-- The class of the invoice, with its course and program. -/
def classOf (d : Db) (r : Joined ρ) : Joined ρ :=
  let cohort := d.billing.cohorts.find? fun c => r.invoice.cohortId == some c.id
  let course := d.courses.find? fun c => cohort.map Cohorts.CohortRow.courseId == some c.id
  let program := d.programs.find? fun p => course.map CourseRow.programId == some p.id
  { r with cohort := cohort, course := course, program := program }

theorem withProgram_eq (h : Constrained d) (rows : List (Joined ρ)) :
    withProgram d rows = rows.map (classOf d) := by
  rw [withProgram, leftJoin_unique fun _ => filter_unique_some h.programIds _,
    leftJoin_unique fun _ => filter_unique_some h.courseIds _,
    leftJoin_unique fun _ => filter_unique_some h.cohortIds _, List.map_map, List.map_map]
  rfl

theorem withProgram_fst (h : Constrained d) (rows : List (Joined (ρ × τ))) :
    (withProgram d rows).map fst = withProgram d (rows.map fst) := by
  rw [withProgram_eq h, withProgram_eq h, List.map_map, List.map_map]
  rfl

theorem withInvoice_sublist (h : Constrained d) (invoiceId : ρ → Uuid) (rows : List ρ) :
    ((withInvoice d invoiceId rows).map row).Sublist rows := by
  apply innerJoin_sublist _ _ row fun _ _ => rfl
  exact fun _ => filter_unique h.invoiceIds fun _ hi => by simpa using hi

theorem mem_withInvoice {invoiceId : ρ → Uuid} {rows : List ρ} {r : Joined ρ}
    (hr : r ∈ withInvoice d invoiceId rows) :
    r.row ∈ rows ∧ r.invoice ∈ d.billing.invoices ∧ r.invoice.id = invoiceId r.row := by
  obtain ⟨row, hrow, hinvoice⟩ := List.mem_flatMap.1 hr
  obtain ⟨i, hi, rfl⟩ := List.mem_map.1 hinvoice
  obtain ⟨hmem, hid⟩ := List.mem_filter.1 hi
  exact ⟨hrow, hmem, by simpa using hid⟩

/-- The department of the program. -/
def departmentOf (d : Db) (r : Joined ρ) : Joined ρ :=
  { r with department := d.departments.find? fun p => r.departmentId == some p.id }

theorem withDepartment_eq (h : Constrained d) (rows : List (Joined ρ)) :
    withDepartment d rows = rows.map (departmentOf d) :=
  leftJoin_unique (fun _ => filter_unique_some h.departmentIds _) _ _

theorem mem_with {key : τ → Uuid} {foreignKey : Joined ρ → Uuid} {table : List τ}
    {rows : List (Joined ρ)} {r : Joined (ρ × τ)} (hr : r ∈ with_ key foreignKey table rows) :
    r.row.2 ∈ table ∧ r.fst ∈ rows := by
  obtain ⟨row, hrow, hjoined⟩ := List.mem_flatMap.1 hr
  obtain ⟨s, hs, rfl⟩ := List.mem_map.1 hjoined
  exact ⟨(List.mem_filter.1 hs).1, hrow⟩

/-- Joining what every row refers to loses nothing. -/
theorem with_fst {key : τ → Uuid} {foreignKey : Joined ρ → Uuid} {table : List τ} {rows : List (Joined ρ)}
    (hkeys : (table.map key).Nodup) (hforeign : ∀ r ∈ rows, ∃ s ∈ table, key s = foreignKey r) :
    (with_ key foreignKey table rows).map fst = rows := by
  apply innerJoin_foreign _ _ fst fun _ _ => rfl
  · intro r hr
    obtain ⟨s, hs, hkey⟩ := hforeign r hr
    exact ⟨s, hs, by simpa using hkey⟩
  · exact fun _ => filter_unique hkeys fun _ hs => by simpa using hs

end Joined

end Lookups

/-! ## The institution -/

theorem alone_institution {α : Type} {d : Db} {inst : Numbering.InstitutionRow}
    (h : d.billing.numbering.institution = some inst) (k : Numbering.InstitutionRow × String → Tx α) :
    (institution >>= k).alone d = (k (inst, d.currency)).alone d := by
  simp only [institution, Numbering.institutionRow, Prog.zoom_bind, Prog.zoom_get, Prog.zoom_expect]
  simp only [Prog.alone, bind, Prog.bind, Functor.map, Function.comp_apply, Prog.get, Prog.run,
    Prog.expect, h, pure, Option.elim_some]

theorem alone_no_institution {α : Type} {d : Db} (h : d.billing.numbering.institution = none)
    (k : Numbering.InstitutionRow × String → Tx α) : (institution >>= k).alone d =
      (.error (.http ⟨500, "INTERNAL_SERVER_ERROR", "Institution row is missing"⟩), d) := by
  simp only [institution, Numbering.institutionRow, Prog.zoom_bind, Prog.zoom_get, Prog.zoom_expect]
  simp only [Prog.alone, bind, Prog.bind, Functor.map, Function.comp_apply, Prog.get, Prog.run,
    Prog.expect, h, Option.elim_none]

theorem alone_today {α : Type} {d : Db} {inst : Numbering.InstitutionRow} (env : Env)
    (h : d.billing.numbering.institution = some inst) (k : Day → Tx α) :
    (today env >>= k).alone d = (k (env.zone env.now inst.timezone)).alone d := by
  rw [today, bind_assoc, alone_institution h]
  rfl

end Emis.Reports
