import Emis.Admissions.Phone
import Emis.Admissions.StudentsService
import Emis.Imports.Rows

/-!
# What a row may hold

`personFieldsSchema` and `guardianInputSchema` of `packages/contracts/src/students.ts`,
applied to the cells of a row. Every check of a text that fails is reported.
-/

namespace Emis.Imports

open Admissions
open Emis.Numbering (trim)

/-- The kinds of issues that the messages tell apart. -/
inductive IssueCode where
  | tooSmall
  | tooBig
  | invalid
  | custom (message : String)
  deriving DecidableEq, Repr

/-- A checked value, or what is wrong with it. -/
abbrev Checked (α : Type) := Except (List IssueCode) α

/-- `length` of a JavaScript string: UTF-16 code units. -/
def jsLength (s : Str) : ℕ := (s.map fun ch => if ch.toNat < 0x10000 then 1 else 2).sum

/-- `z.string().trim().min(low).max(high)`. -/
def textSchema (low high : ℕ) (value : Str) : Checked String :=
  let text := trim value
  if jsLength text < low then .error [.tooSmall]
  else if high < jsLength text then .error [.tooBig]
  else .ok (String.ofList text)

def nameSchema : Str → Checked String := textSchema 1 60

def genderSchema (value : Str) : Checked Gender :=
  if value = "female".toList then .ok .female
  else if value = "male".toList then .ok .male
  else .error [.invalid]

/-- Texts are compared, whether they are dates or not. -/
def dateOfBirthSchema (env : Env) (value : Str) : Checked Day :=
  let format : List IssueCode := if (isoDate value).isNone then [.invalid] else []
  let range : List IssueCode :=
    if "1900-01-01".toList ≤ value ∧ value ≤ (toISOString env.now).take 10 then []
    else [.custom "Not a valid birth date"]
  match isoDate value, format ++ range with
  | some day, [] => .ok day
  | _, issues => .error issues

def phoneField (value : Str) : Checked String :=
  if 30 < jsLength (trim value) then .error [.tooBig]
  else match phoneSchema (String.ofList value) with
    | some phone => .ok phone
    | none => .error [.custom "Enter a valid phone number, e.g. 0911 22 33 44"]

def emailSchema (env : Env) (classes : Classes) (value : Str) : Checked String :=
  let email := lowered env (trim value)
  let format : List IssueCode := if classes.isEmail email then [] else [.invalid]
  let size : List IssueCode := if 254 < jsLength email then [.tooBig] else []
  match format ++ size with
  | [] => .ok (String.ofList email)
  | issues => .error issues

/-- An empty text stands for nothing, before and after the checks. -/
def emptyToNull {α : Type} (schema : Str → Checked α) (isEmpty : α → Bool) (value : Str) : Checked (Option α) :=
  if value = [] then .ok none
  else match schema value with
    | .ok a => .ok (if isEmpty a then none else some a)
    | .error issues => .error issues

def optionalText (schema : Str → Checked String) : Str → Checked (Option String) :=
  emptyToNull schema fun text => text == ""

abbrev FieldIssue := StudentImportColumn × IssueCode

def issuesOf {α : Type} (column : StudentImportColumn) : Checked α → List FieldIssue
  | .ok _ => []
  | .error issues => issues.map fun code => (column, code)

/-- `personFieldsSchema.safeParse` of a row's cells. -/
def personFieldsSchema (env : Env) (classes : Classes) (cell : StudentImportColumn → Str) :
    Except (List FieldIssue) Person :=
  let givenName := nameSchema (cell .givenName)
  let fatherName := nameSchema (cell .fatherName)
  let grandfatherName := optionalText nameSchema (cell .grandfatherName)
  let gender := genderSchema (normalizeGender env (cell .gender))
  let dateOfBirth := emptyToNull (dateOfBirthSchema env) (fun _ => false) (normalizeDate (cell .dateOfBirth))
  let phone := phoneField (cell .phone)
  let email := optionalText (emailSchema env classes) (cell .email)
  let address := optionalText (textSchema 0 300) (cell .address)
  let city := optionalText (textSchema 0 80) (cell .city)
  match givenName, fatherName, grandfatherName, gender, dateOfBirth, phone, email, address, city with
  | .ok givenName, .ok fatherName, .ok grandfatherName, .ok gender, .ok dateOfBirth, .ok phone, .ok email,
    .ok address, .ok city =>
      .ok { givenName, fatherName, grandfatherName, gender, dateOfBirth, phone, email, address, city }
  | _, _, _, _, _, _, _, _, _ =>
      .error <| issuesOf .givenName givenName ++ issuesOf .fatherName fatherName ++
        issuesOf .grandfatherName grandfatherName ++ issuesOf .gender gender ++
        issuesOf .dateOfBirth dateOfBirth ++ issuesOf .phone phone ++ issuesOf .email email ++
        issuesOf .address address ++ issuesOf .city city

/-- `guardianInputSchema.safeParse` of a row's guardian, who is its primary contact and payer. -/
def guardianInputSchema (env : Env) (classes : Classes) (cell : StudentImportColumn → Str) :
    Except (List FieldIssue) GuardianValues :=
  let relationship := cell .guardianRelationship
  let name := textSchema 2 120 (cell .guardianName)
  let relation := textSchema 2 40 (if relationship = [] then "Guardian".toList else relationship)
  let phone := phoneField (cell .guardianPhone)
  let email := optionalText (emailSchema env classes) (cell .guardianEmail)
  match name, relation, phone, email with
  | .ok name, .ok relationship, .ok phone, .ok email =>
      .ok { name, relationship, phone, email, isPrimary := true, isPayer := true }
  | _, _, _, _ =>
      .error <| issuesOf .guardianName name ++ issuesOf .guardianRelationship relation ++
        issuesOf .guardianPhone phone ++ issuesOf .guardianEmail email

/-- What to say about a cell, in the words of the file rather than of the schema behind it. -/
def friendlyMessage : StudentImportColumn → IssueCode → String
  | _, .custom message => message
  | .gender, _ => "Use male or female (m or f also work)."
  | .dateOfBirth, _ => "Use YYYY-MM-DD or DD/MM/YYYY, and a date in the past."
  | .email, _ | .guardianEmail, _ => "That doesn't look like an email address."
  | _, .tooBig => "This value is too long."
  | _, _ => "This value is missing or not valid."

end Emis.Imports
