import Emis.Common.Permissions
import Emis.Settings.Schema

/-!
# Settings: services

`settings/application`: the modules, branches, departments, lists, custom fields, the
institution and the first-run setup. The audit entries are left out.
-/

namespace Emis.Settings

open Transactions

namespace ModulesService

def enabledIn (d : Db) (key : ModuleKey) : Bool := (d.modules key).getD true

/-- Every module with its switch. -/
def states (d : Db) : List ModuleState :=
  MODULE_KEYS.map fun key =>
    { key := key
      name := (MODULES key).name
      description := (MODULES key).description
      requires := (MODULES key).requires
      enabled := enabledIn d key }

/-- What the module needs and is off. -/
def missing (d : Db) (key : ModuleKey) : List ModuleKey := (MODULES key).requires.filter fun dep => !enabledIn d dep

/-- What is on and needs the module. -/
def dependents (d : Db) (key : ModuleKey) : List ModuleKey :=
  MODULE_KEYS.filter fun other => enabledIn d other && (MODULES other).requires.contains key

def names (keys : List ModuleKey) : String := ", ".intercalate (keys.map fun key => (MODULES key).name)

/-- A module can't be on while something it needs is off. -/
def allowed (current : Db) (key : ModuleKey) (enabled : Bool) : Bool :=
  if enabled then (missing current key).isEmpty else (dependents current key).isEmpty

def refusal (current : Db) (key : ModuleKey) (enabled : Bool) : Error :=
  settingsErrors.moduleDependency <|
    if enabled then s!"Turn on {names (missing current key)} first."
    else s!"Turn off {names (dependents current key)} first."

def switch (key : ModuleKey) (enabled : Bool) (d : Db) : Db :=
  { d with modules := Function.update d.modules key (some enabled) }

def set (value : String) (enabled : Bool) : Tx (List ModuleState) := do
  let key ← Prog.expect (moduleKey? value) settingsErrors.unknownModule
  -- One writer at a time, so two admins can't each flip one side of a dependency.
  Prog.acquire .modules
  let current ← Prog.get
  Prog.require (allowed current key enabled) (refusal current key enabled)
  Prog.when (enabledIn current key != enabled) do
    Prog.acquire (.moduleSwitch key)
    Prog.modify (switch key enabled)
  let d ← Prog.get
  return states d

end ModulesService

namespace OrganizationService

def getBranch (id : Uuid) : Tx BranchRow := do
  let d ← Prog.get
  Prog.expect (branches.row? d id) settingsErrors.branchNotFound

def newBranch (id : Uuid) (input : CreateBranchRequest) : BranchRow :=
  { id := id, code := input.code, name := input.name, address := input.address, phone := input.phone }

def createBranch (env : Env) (input : CreateBranchRequest) : Tx BranchRow := do
  let row := newBranch (env.newId 0) input
  branches.insert row (settingsErrors.codeTaken "branch")
  return row

def otherActive (d : Db) (excludingId : Uuid) : Bool := d.branches.any fun b => b.isActive && b.id != excludingId

/-- Serialized so two admins can't each deactivate one of the last two branches. -/
def assertAnotherActiveBranch (excludingId : Uuid) : Tx Unit := do
  Prog.acquire .activeBranches
  let d ← Prog.get
  Prog.require (otherActive d excludingId) settingsErrors.lastActiveBranch

def editBranch (input : UpdateBranchRequest) (b : BranchRow) : BranchRow :=
  { b with
    name := input.name.getD b.name
    address := input.address.getD b.address
    phone := input.phone.getD b.phone
    isActive := input.isActive.getD b.isActive }

def updateBranch (id : Uuid) (input : UpdateBranchRequest) (expectedVersion : ℕ) : Tx BranchRow := do
  let before ← getBranch id
  Prog.when (input.isActive == some false && before.isActive) (assertAnotherActiveBranch id)
  let result ← updateWithVersion branches.toVersionedTable id expectedVersion (editBranch input)
  versionedRow result settingsErrors.branchNotFound

def newDepartment (id : Uuid) (input : CreateDepartmentRequest) : DepartmentRow :=
  { id := id
    code := input.code
    name := input.name
    description := input.description
    sortOrder := input.sortOrder }

def createDepartment (env : Env) (input : CreateDepartmentRequest) : Tx DepartmentRow := do
  let row := newDepartment (env.newId 0) input
  departments.insert row (settingsErrors.codeTaken "department")
  return row

def editDepartment (input : UpdateDepartmentRequest) (r : DepartmentRow) : DepartmentRow :=
  { r with
    name := input.name.getD r.name
    description := input.description.getD r.description
    sortOrder := input.sortOrder.getD r.sortOrder
    isActive := input.isActive.getD r.isActive }

def updateDepartment (id : Uuid) (input : UpdateDepartmentRequest) (expectedVersion : ℕ) : Tx DepartmentRow := do
  let d ← Prog.get
  let _ ← Prog.expect (departments.row? d id) settingsErrors.departmentNotFound
  let result ← updateWithVersion departments.toVersionedTable id expectedVersion (editDepartment input)
  versionedRow result settingsErrors.departmentNotFound

end OrganizationService

namespace DescriptorsService

def newDescriptor (id : Uuid) (input : CreateDescriptorRequest) : DescriptorRow :=
  { id := id, ns := input.ns, code := input.code, label := input.label, sortOrder := input.sortOrder }

def create (env : Env) (input : CreateDescriptorRequest) : Tx DescriptorRow := do
  let row := newDescriptor (env.newId 0) input
  descriptors.insert row (settingsErrors.codeTaken "value in this list")
  return row

def edit (input : UpdateDescriptorRequest) (r : DescriptorRow) : DescriptorRow :=
  { r with
    label := input.label.getD r.label
    sortOrder := input.sortOrder.getD r.sortOrder
    isActive := input.isActive.getD r.isActive }

def update (id : Uuid) (input : UpdateDescriptorRequest) (expectedVersion : ℕ) : Tx DescriptorRow := do
  let d ← Prog.get
  let _ ← Prog.expect (descriptors.row? d id) settingsErrors.descriptorNotFound
  let result ← updateWithVersion descriptors.toVersionedTable id expectedVersion (edit input)
  versionedRow result settingsErrors.descriptorNotFound

end DescriptorsService

namespace CustomFieldsService

def newField (id : Uuid) (input : CreateCustomFieldRequest) : CustomFieldRow :=
  { id := id
    entityType := input.entityType
    key := input.key
    label := input.label
    fieldType := input.fieldType
    options := if input.fieldType = .select then input.options else []
    required := input.required
    helpText := input.helpText
    sortOrder := input.sortOrder }

def create (env : Env) (input : CreateCustomFieldRequest) : Tx CustomFieldRow := do
  let row := newField (env.newId 0) input
  customFields.insert row (settingsErrors.codeTaken "field")
  return row

/-- What is wrong with the choices of a field. -/
def optionsProblem (fieldType : CustomFieldType) (options : List String) : Option String :=
  if fieldType ≠ .select ∧ 0 < options.length then some "Only list fields have choices."
  else if fieldType = .select ∧ options.length < 2 then some "Give a list at least 2 choices."
  else if ¬ options.Nodup then some "Choices must be unique."
  else none

/-- `checkOptions`, where choices are given. -/
def checkOptions (options : Option (List String)) (fieldType : CustomFieldType) : Tx Unit :=
  match options.bind (optionsProblem fieldType) with
  | some problem => Prog.throw (settingsErrors.invalidOptions problem)
  | none => return ()

def edit (input : UpdateCustomFieldRequest) (r : CustomFieldRow) : CustomFieldRow :=
  { r with
    label := input.label.getD r.label
    options := input.options.getD r.options
    required := input.required.getD r.required
    helpText := input.helpText.getD r.helpText
    sortOrder := input.sortOrder.getD r.sortOrder
    isActive := input.isActive.getD r.isActive }

def update (id : Uuid) (input : UpdateCustomFieldRequest) (expectedVersion : ℕ) : Tx CustomFieldRow := do
  let d ← Prog.get
  let before ← Prog.expect (customFields.row? d id) settingsErrors.customFieldNotFound
  checkOptions input.options before.fieldType
  let result ← updateWithVersion customFields.toVersionedTable id expectedVersion (edit input)
  versionedRow result settingsErrors.customFieldNotFound

end CustomFieldsService

namespace InstitutionService

def row : Tx InstitutionRow := do
  let d ← Prog.get
  Prog.expect d.institution institutionMissing

/-- `row({ forUpdate: true })`: the row as it is once it is locked. -/
def lockedRow : Tx InstitutionRow := do
  let _ ← row
  Prog.acquire .institution
  row

def edit (input : UpdateInstitutionRequest) (r : InstitutionRow) : InstitutionRow :=
  { r with
    name := input.name.getD r.name
    shortName := input.shortName.getD r.shortName
    tagline := input.tagline.getD r.tagline
    email := input.email.getD r.email
    phone := input.phone.getD r.phone
    website := input.website.getD r.website
    address := input.address.getD r.address
    city := input.city.getD r.city
    country := input.country.getD r.country
    primaryColor := input.primaryColor.getD r.primaryColor
    locale := input.locale.getD r.locale
    currency := input.currency.getD r.currency
    timezone := input.timezone.getD r.timezone
    calendarDisplay := input.calendarDisplay.getD r.calendarDisplay
    fiscalYearStart := input.fiscalYearStart.getD r.fiscalYearStart
    certificateRequiresPaidInFull := input.certificateRequiresPaidInFull.getD r.certificateRequiresPaidInFull }

def update (input : UpdateInstitutionRequest) (expectedVersion : ℕ) : Tx Institution := do
  let before ← row
  let result ← updateWithVersion institutionTable before.id expectedVersion (edit input)
  toInstitution <$> versionedRow result institutionMissing

end InstitutionService

namespace SetupService

/-- The departments of one preset, in their order. -/
def presetDepartments (key : String) : Except Error (List CreateDepartmentRequest) :=
  match findPreset key with
  | some preset => .ok (preset.departments.mapIdx fun i d => { d with sortOrder := i })
  | none => .error (settingsErrors.unknownPreset key)

/-- `Map.set`: in place of the entry with the same code, or as the last. -/
def setByCode (entries : List CreateDepartmentRequest) (d : CreateDepartmentRequest) : List CreateDepartmentRequest :=
  if entries.any fun e => e.code == d.code then changeWhere (fun e => e.code == d.code) (fun _ => d) entries
  else entries ++ [d]

/-- Custom departments win over a preset one with the same code. -/
def departmentsByCode (all : List CreateDepartmentRequest) : List CreateDepartmentRequest :=
  (all.mapIdx fun i d => { d with sortOrder := if d.sortOrder = 0 then (i + 1) * 10 else d.sortOrder }).foldl setByCode []

/-- The values the lists start with. -/
def listValues : List CreateDescriptorRequest :=
  DESCRIPTOR_NAMESPACE_KEYS.flatMap fun ns =>
    ns.defaults.mapIdx fun i entry => { ns := ns, code := entry.1, label := entry.2, sortOrder := (i + 1) * 10 }

/-- The row that setup leaves. -/
def completedRow (now : Instant) (values : InstitutionValues) (r : InstitutionRow) : InstitutionRow :=
  { toInstitutionValues := values, id := r.id, setupCompletedAt := some now, version := r.version + 1 }

/-- The `i`-th row of a statement has the `i`-th id from `offset` on. -/
def numbered {α β : Type} (env : Env) (offset : ℕ) (row : Uuid → α → β) (values : List α) : List β :=
  values.mapIdx fun i value => row (env.newId (offset + i)) value

def branchRows (env : Env) (input : CompleteSetupRequest) : List BranchRow :=
  numbered env 0 OrganizationService.newBranch input.branches

def departmentRows (env : Env) (input : CompleteSetupRequest) (fromPresets : List (List CreateDepartmentRequest)) :
    List DepartmentRow :=
  numbered env 50 OrganizationService.newDepartment (departmentsByCode (fromPresets.flatten ++ input.departments))

def descriptorRows (env : Env) (input : CompleteSetupRequest) : List DescriptorRow :=
  numbered env 200 DescriptorsService.newDescriptor (if input.seedDefaultLists then listValues else [])

def complete (env : Env) (input : CompleteSetupRequest) : Tx Institution := do
  let current ← InstitutionService.lockedRow
  Prog.require current.setupCompletedAt.isNone settingsErrors.setupCompleted
  let fromPresets ← Prog.ofExcept (input.presets.mapM presetDepartments)
  (branchRows env input).forM branches.insertNew
  (departmentRows env input fromPresets).forM departments.insertNew
  (descriptorRows env input).forM descriptors.insertNew
  let row := completedRow env.now input.institution current
  Prog.modify fun d => { d with institution := some row }
  return toInstitution row

end SetupService

/-! ## Requests -/

inductive Request where
  | setModule (key : String) (enabled : Bool)
  | createBranch (env : Env) (input : CreateBranchRequest)
  | updateBranch (id : Uuid) (input : UpdateBranchRequest) (expectedVersion : ℕ)
  | createDepartment (env : Env) (input : CreateDepartmentRequest)
  | updateDepartment (id : Uuid) (input : UpdateDepartmentRequest) (expectedVersion : ℕ)
  | createDescriptor (env : Env) (input : CreateDescriptorRequest)
  | updateDescriptor (id : Uuid) (input : UpdateDescriptorRequest) (expectedVersion : ℕ)
  | createField (env : Env) (input : CreateCustomFieldRequest)
  | updateField (id : Uuid) (input : UpdateCustomFieldRequest) (expectedVersion : ℕ)
  | updateInstitution (input : UpdateInstitutionRequest) (expectedVersion : ℕ)
  | completeSetup (env : Env) (input : CompleteSetupRequest)

inductive Reply where
  | modules (states : List ModuleState)
  | branch (row : BranchRow)
  | department (row : DepartmentRow)
  | descriptor (row : DescriptorRow)
  | field (row : CustomFieldRow)
  | institution (row : Institution)
  deriving DecidableEq

/-- A request with the grants of whoever makes it. -/
structure Call where
  request : Request
  grants : List Grant

def Request.service : Request → Tx Reply
  | .setModule key enabled => .modules <$> ModulesService.set key enabled
  | .createBranch env input => .branch <$> OrganizationService.createBranch env input
  | .updateBranch id input expectedVersion => .branch <$> OrganizationService.updateBranch id input expectedVersion
  | .createDepartment env input => .department <$> OrganizationService.createDepartment env input
  | .updateDepartment id input expectedVersion =>
      .department <$> OrganizationService.updateDepartment id input expectedVersion
  | .createDescriptor env input => .descriptor <$> DescriptorsService.create env input
  | .updateDescriptor id input expectedVersion => .descriptor <$> DescriptorsService.update id input expectedVersion
  | .createField env input => .field <$> CustomFieldsService.create env input
  | .updateField id input expectedVersion => .field <$> CustomFieldsService.update id input expectedVersion
  | .updateInstitution input expectedVersion => .institution <$> InstitutionService.update input expectedVersion
  | .completeSetup env input => .institution <$> SetupService.complete env input

/-- `@RequirePermission` of the controllers is the same for all. -/
def Call.code (call : Call) : Tx Reply := do
  Prog.require (hasPermission call.grants .settingsManage) permissionDenied
  call.request.service

def administrator : List Grant := [⟨.settingsManage, .global⟩]

end Emis.Settings
