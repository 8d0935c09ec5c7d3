import Emis.Common.CodedTable
import Emis.Numbering.NumberingService

/-!
# Settings: tables and requests

The tables of `packages/db/src/schema/settings.ts` that administrators edit, the requests
of `packages/contracts/src/settings.ts` and `custom-fields.ts`, and
`settings/domain/errors.ts` with `domain/presets.ts`. The lengths of names and labels
are left out.
-/

namespace Emis.Settings

open Transactions
open Emis.Numbering (OrgCode MonthDay)

/-! ## The institution -/

inductive Locale where
  | en
  | am
  deriving DecidableEq, Repr

inductive CalendarDisplay where
  | gregorian
  | ethiopian
  | both
  deriving DecidableEq, Repr

/-- `institutionFields`. -/
structure InstitutionValues where
  name : String
  shortName : String
  tagline : Option String := none
  email : Option String := none
  phone : Option String := none
  website : Option String := none
  address : Option String := none
  city : Option String := none
  country : String
  primaryColor : String
  locale : Locale
  currency : String
  timezone : String
  calendarDisplay : CalendarDisplay
  fiscalYearStart : MonthDay
  certificateRequiresPaidInFull : Bool := false
  deriving DecidableEq, Repr

structure UpdateInstitutionRequest where
  name : Option String := none
  shortName : Option String := none
  tagline : Option (Option String) := none
  email : Option (Option String) := none
  phone : Option (Option String) := none
  website : Option (Option String) := none
  address : Option (Option String) := none
  city : Option (Option String) := none
  country : Option String := none
  primaryColor : Option String := none
  locale : Option Locale := none
  currency : Option String := none
  timezone : Option String := none
  calendarDisplay : Option CalendarDisplay := none
  fiscalYearStart : Option MonthDay := none
  certificateRequiresPaidInFull : Option Bool := none

structure InstitutionRow extends InstitutionValues where
  id : Uuid
  setupCompletedAt : Option Instant := none
  version : ℕ := 1
  deriving DecidableEq, Repr

structure Institution extends InstitutionValues where
  setupCompleted : Bool
  version : ℕ
  deriving DecidableEq, Repr

def toInstitution (row : InstitutionRow) : Institution :=
  { row.toInstitutionValues with setupCompleted := row.setupCompletedAt.isSome, version := row.version }

/-! ## Branches and departments -/

structure BranchRow where
  id : Uuid
  code : OrgCode
  name : String
  address : Option String := none
  phone : Option String := none
  isActive : Bool := true
  version : ℕ := 1
  deriving DecidableEq, Repr

structure CreateBranchRequest where
  code : OrgCode
  name : String
  address : Option String := none
  phone : Option String := none

structure UpdateBranchRequest where
  name : Option String := none
  address : Option (Option String) := none
  phone : Option (Option String) := none
  isActive : Option Bool := none

structure DepartmentRow where
  id : Uuid
  code : OrgCode
  name : String
  description : String := ""
  isActive : Bool := true
  sortOrder : ℕ := 0
  version : ℕ := 1
  deriving DecidableEq, Repr

structure CreateDepartmentRequest where
  code : OrgCode
  name : String
  description : String := ""
  sortOrder : ℕ := 0

structure UpdateDepartmentRequest where
  name : Option String := none
  description : Option String := none
  sortOrder : Option ℕ := none
  isActive : Option Bool := none

/-! ## Modules -/

inductive ModuleKey where
  | website
  | preRegistration
  | placement
  | certificates
  | studentIds
  | feeReminders
  | news
  deriving DecidableEq, Repr

def ModuleKey.text : ModuleKey → String
  | .website => "website"
  | .preRegistration => "pre_registration"
  | .placement => "placement"
  | .certificates => "certificates"
  | .studentIds => "student_ids"
  | .feeReminders => "fee_reminders"
  | .news => "news"

def MODULE_KEYS : List ModuleKey :=
  [.website, .preRegistration, .placement, .certificates, .studentIds, .feeReminders, .news]

structure ModuleDefinition where
  name : String
  description : String
  requires : List ModuleKey := []

/-- What code checks with `@RequiresModule`. Everything starts enabled. -/
def MODULES : ModuleKey → ModuleDefinition
  | .website => { name := "Public website", description := "Course catalog, news and certificate verification pages." }
  | .preRegistration =>
      { name := "Online pre-registration"
        description := "Applicants register on the website and land in the admissions queue."
        requires := [.website] }
  | .placement =>
      { name := "Placement tests", description := "Record placement scores and recommend a level before enrolling." }
  | .certificates => { name := "Certificates", description := "Issue certificates with a QR code anyone can verify." }
  | .studentIds => { name := "Student ID cards", description := "Print branded student ID cards." }
  | .feeReminders =>
      { name := "Fee reminders", description := "Email students before and after an installment is due." }
  | .news =>
      { name := "News and announcements", description := "Publish posts on the website and the portal." }

/-- `isModuleKey`, with the key. -/
def moduleKey? (value : String) : Option ModuleKey := MODULE_KEYS.find? fun key => key.text == value

structure ModuleState where
  key : ModuleKey
  name : String
  description : String
  requires : List ModuleKey
  enabled : Bool
  deriving DecidableEq, Repr

/-! ## Lists of values -/

inductive DescriptorNamespace where
  | studentCategory
  | leadSource
  | discountReason
  | withdrawalReason
  deriving DecidableEq, Repr

def DESCRIPTOR_NAMESPACE_KEYS : List DescriptorNamespace :=
  [.studentCategory, .leadSource, .discountReason, .withdrawalReason]

/-- The codes and labels a list starts with. -/
def DescriptorNamespace.defaults : DescriptorNamespace → List (String × String)
  | .studentCategory => [("regular", "Regular"), ("corporate", "Corporate"), ("scholarship", "Scholarship")]
  | .leadSource =>
      [("walk_in", "Walk-in"), ("website", "Website"), ("referral", "Friend or family"),
        ("social_media", "Social media"), ("phone", "Phone call")]
  | .discountReason =>
      [("sibling", "Sibling"), ("staff", "Staff family"), ("early_payment", "Early payment"),
        ("promotion", "Promotion")]
  | .withdrawalReason =>
      [("schedule_conflict", "Schedule conflict"), ("financial", "Financial"), ("relocation", "Moved away"),
        ("other", "Other")]

structure DescriptorRow where
  id : Uuid
  ns : DescriptorNamespace
  code : String
  label : String
  sortOrder : ℕ := 0
  isActive : Bool := true
  version : ℕ := 1
  deriving DecidableEq, Repr

structure CreateDescriptorRequest where
  ns : DescriptorNamespace
  code : String
  label : String
  sortOrder : ℕ := 0

structure UpdateDescriptorRequest where
  label : Option String := none
  sortOrder : Option ℕ := none
  isActive : Option Bool := none

/-! ## Custom fields -/

inductive CustomFieldEntity where
  | student
  | application
  | staff
  | cohort
  deriving DecidableEq, Repr

inductive CustomFieldType where
  | text
  | longText
  | number
  | date
  | select
  | checkbox
  deriving DecidableEq, Repr

structure CustomFieldRow where
  id : Uuid
  entityType : CustomFieldEntity
  key : String
  label : String
  fieldType : CustomFieldType
  options : List String := []
  required : Bool := false
  helpText : String := ""
  isActive : Bool := true
  sortOrder : ℕ := 0
  version : ℕ := 1
  deriving DecidableEq, Repr

/-- `requireOptionsForSelect`: each issue with its path. -/
def requireOptionsForSelect (fieldType : CustomFieldType) (options : List String) : List (List String × String) :=
  (if fieldType = .select ∧ options.length < 2 then [(["options"], "Give a list at least 2 choices.")] else []) ++
    if options.Nodup then [] else [(["options"], "Choices must be unique.")]

/-- A body that `createCustomFieldRequestSchema` accepts. -/
structure CreateCustomFieldRequest where
  entityType : CustomFieldEntity
  key : String
  fieldType : CustomFieldType
  label : String
  options : List String := []
  required : Bool := false
  helpText : String := ""
  sortOrder : ℕ := 0
  optionsRefined : requireOptionsForSelect fieldType options = []

structure UpdateCustomFieldRequest where
  label : Option String := none
  options : Option (List String) := none
  required : Option Bool := none
  helpText : Option String := none
  sortOrder : Option ℕ := none
  isActive : Option Bool := none

/-! ## First-run setup -/

structure SetupPreset where
  key : String
  name : String
  description : String
  departments : List CreateDepartmentRequest

/-- Starting packs for the setup wizard. -/
def PRESETS : List SetupPreset :=
  [{ key := "language"
     name := "Language school"
     description := "General language courses by level, plus exam preparation."
     departments :=
       [{ code := ⟨['L', 'A', 'N', 'G'], by decide, by decide⟩
          name := "Language"
          description := "Language courses from beginner to advanced, and exam preparation." }] },
   { key := "computer"
     name := "Computer training"
     description := "Office skills, programming, web development and design."
     departments :=
       [{ code := ⟨['C', 'O', 'M', 'P'], by decide, by decide⟩
          name := "Computer"
          description := "Practical computer courses, from office basics to programming." }] },
   { key := "tutoring"
     name := "Tutoring center"
     description := "School subject tutoring and national exam preparation."
     departments :=
       [{ code := ⟨['T', 'U', 'T', 'O', 'R'], by decide, by decide⟩
          name := "Tutoring"
          description := "Subject tutoring for school students and exam preparation." }] }]

def findPreset (key : String) : Option SetupPreset := PRESETS.find? fun preset => preset.key == key

/-- A body that `completeSetupRequestSchema` accepts. -/
structure CompleteSetupRequest where
  institution : InstitutionValues
  branches : List CreateBranchRequest
  presets : List String := []
  departments : List CreateDepartmentRequest := []
  seedDefaultLists : Bool := true
  branches_ok : 1 ≤ branches.length ∧ branches.length ≤ 50

/-! ## The store -/

/-- A module without a stored switch is on. -/
structure Db where
  institution : Option InstitutionRow := none
  branches : List BranchRow := []
  departments : List DepartmentRow := []
  modules : ModuleKey → Option Bool := fun _ => none
  descriptors : List DescriptorRow := []
  customFields : List CustomFieldRow := []

/-- Row locks, entries of unique indexes, and the two advisory locks. -/
inductive Lock where
  | modules
  | activeBranches
  | institution
  | moduleSwitch (key : ModuleKey)
  | branch (id : Uuid)
  | branchCode (code : OrgCode)
  | department (id : Uuid)
  | departmentCode (code : OrgCode)
  | descriptor (id : Uuid)
  | descriptorCode (code : DescriptorNamespace × String)
  | customField (id : Uuid)
  | customFieldKey (key : CustomFieldEntity × String)
  deriving DecidableEq, Repr

abbrev Tx := Prog Db Lock Error

structure Env where
  now : Instant := 0
  newId : ℕ → Uuid := fun n => n

def branches : CodedTable Db Lock BranchRow OrgCode where
  rows := Db.branches
  put rows d := { d with branches := rows }
  id := BranchRow.id
  version := BranchRow.version
  withVersion n r := { r with version := n }
  rowLock := .branch
  code := BranchRow.code
  codeLock := .branchCode
  rows_put _ _ := rfl
  put_rows _ := rfl
  put_put _ _ _ := rfl
  id_withVersion _ _ := rfl
  code_withVersion _ _ := rfl
  version_withVersion _ _ := rfl

def departments : CodedTable Db Lock DepartmentRow OrgCode where
  rows := Db.departments
  put rows d := { d with departments := rows }
  id := DepartmentRow.id
  version := DepartmentRow.version
  withVersion n r := { r with version := n }
  rowLock := .department
  code := DepartmentRow.code
  codeLock := .departmentCode
  rows_put _ _ := rfl
  put_rows _ := rfl
  put_put _ _ _ := rfl
  id_withVersion _ _ := rfl
  code_withVersion _ _ := rfl
  version_withVersion _ _ := rfl

def descriptors : CodedTable Db Lock DescriptorRow (DescriptorNamespace × String) where
  rows := Db.descriptors
  put rows d := { d with descriptors := rows }
  id := DescriptorRow.id
  version := DescriptorRow.version
  withVersion n r := { r with version := n }
  rowLock := .descriptor
  code r := (r.ns, r.code)
  codeLock := .descriptorCode
  rows_put _ _ := rfl
  put_rows _ := rfl
  put_put _ _ _ := rfl
  id_withVersion _ _ := rfl
  code_withVersion _ _ := rfl
  version_withVersion _ _ := rfl

def customFields : CodedTable Db Lock CustomFieldRow (CustomFieldEntity × String) where
  rows := Db.customFields
  put rows d := { d with customFields := rows }
  id := CustomFieldRow.id
  version := CustomFieldRow.version
  withVersion n r := { r with version := n }
  rowLock := .customField
  code r := (r.entityType, r.key)
  codeLock := .customFieldKey
  rows_put _ _ := rfl
  put_rows _ := rfl
  put_put _ _ _ := rfl
  id_withVersion _ _ := rfl
  code_withVersion _ _ := rfl
  version_withVersion _ _ := rfl

/-- The one row of the institution. -/
def institutionTable : VersionedTable Db Lock InstitutionRow where
  rows d := d.institution.toList
  put rows d := { d with institution := rows.head? }
  id := InstitutionRow.id
  version := InstitutionRow.version
  withVersion n r := { r with version := n }
  rowLock _ := .institution

namespace settingsErrors

def codeTaken (what : String) : Error :=
  .http <| conflict "CODE_TAKEN" s!"A {what} with that code already exists."

def branchNotFound : Error := .http <| notFound "BRANCH_NOT_FOUND" "Branch not found."

def departmentNotFound : Error := .http <| notFound "DEPARTMENT_NOT_FOUND" "Department not found."

def descriptorNotFound : Error := .http <| notFound "DESCRIPTOR_NOT_FOUND" "List value not found."

def customFieldNotFound : Error := .http <| notFound "CUSTOM_FIELD_NOT_FOUND" "Custom field not found."

def unknownModule : Error := .http <| notFound "UNKNOWN_MODULE" "Unknown module."

def moduleDependency (message : String) : Error := .http <| unprocessable "MODULE_DEPENDENCY" message

def lastActiveBranch : Error := .http <| conflict "LAST_ACTIVE_BRANCH" "At least one branch must stay active."

def setupCompleted : Error :=
  .http <| conflict "SETUP_ALREADY_COMPLETED" "Setup is already done. Change settings from the Settings pages."

def unknownPreset (key : String) : Error := .http <| unprocessable "UNKNOWN_PRESET" s!"Unknown preset \"{key}\"."

/-- Thrown by `checkOptions`. -/
def invalidOptions (problem : String) : Error := .http <| unprocessable "INVALID_OPTIONS" problem

end settingsErrors

/-- Thrown where the one row of the institution is not there. -/
def institutionMissing : Error := .http ⟨500, "INTERNAL_SERVER_ERROR", "Institution row is missing"⟩

end Emis.Settings
