import Emis.Admissions.Schema

/-!
# Headings and cells

`modules/imports/domain/rows.ts`, with the columns of `packages/contracts/src/imports.ts`.
-/

namespace Emis.Imports

open Emis.Numbering (trim isBlank)

inductive StudentImportColumn where
  | givenName
  | fatherName
  | grandfatherName
  | gender
  | dateOfBirth
  | phone
  | email
  | address
  | city
  | branch
  | category
  | guardianName
  | guardianRelationship
  | guardianPhone
  | guardianEmail
  deriving DecidableEq, Repr

namespace StudentImportColumn

/-- `Object.keys(ALIASES)`. -/
def all : List StudentImportColumn :=
  [givenName, fatherName, grandfatherName, gender, dateOfBirth, phone, email, address, city, branch, category,
    guardianName, guardianRelationship, guardianPhone, guardianEmail]

def key : StudentImportColumn → String
  | givenName => "given_name"
  | fatherName => "father_name"
  | grandfatherName => "grandfather_name"
  | gender => "gender"
  | dateOfBirth => "date_of_birth"
  | phone => "phone"
  | email => "email"
  | address => "address"
  | city => "city"
  | branch => "branch"
  | category => "category"
  | guardianName => "guardian_name"
  | guardianRelationship => "guardian_relationship"
  | guardianPhone => "guardian_phone"
  | guardianEmail => "guardian_email"

end StudentImportColumn

/-- Other spellings people use for each column, all compared after tidying. -/
def ALIASES : StudentImportColumn → List String
  | .givenName => ["given_name", "first_name", "firstname", "given", "name"]
  | .fatherName => ["father_name", "fathers_name", "father", "middle_name"]
  | .grandfatherName => ["grandfather_name", "grandfathers_name", "grandfather"]
  | .gender => ["gender", "sex"]
  | .dateOfBirth => ["date_of_birth", "dob", "birth_date", "birthdate", "birthday"]
  | .phone => ["phone", "phone_number", "mobile", "telephone", "tel"]
  | .email => ["email", "email_address", "e_mail"]
  | .address => ["address"]
  | .city => ["city", "town"]
  | .branch => ["branch", "branch_code", "campus"]
  | .category => ["category", "student_category"]
  | .guardianName => ["guardian_name", "guardian", "parent_name", "parent"]
  | .guardianRelationship => ["guardian_relationship", "relationship", "parent_relationship"]
  | .guardianPhone => ["guardian_phone", "parent_phone", "guardian_mobile"]
  | .guardianEmail => ["guardian_email", "parent_email"]

/-- What is taken from Unicode and from zod: the classes `\p{L}` and `\p{N}`, and the
pattern of `z.email()`. -/
structure Classes where
  isLetterOrNumber : Char → Bool := Char.isAlphanum
  isEmail : Str → Bool := fun s => s.contains '@'

/-- `toLowerCase` of a text. -/
def lowered (env : Admissions.Env) (s : Str) : Str := (env.lower (String.ofList s)).toList

/-- `replace(/[\s\-.]+/g, '_')`. -/
def joinWords : Str → Bool → Str
  | [], _ => []
  | ch :: rest, inRun =>
      if isBlank ch || ch == '-' || ch == '.' then
        if inRun then joinWords rest true else '_' :: joinWords rest true
      else ch :: joinWords rest false

/-- `replace(/^_+|_+$/g, '')`. -/
def trimUnderscores (s : Str) : Str :=
  ((s.dropWhile (· == '_')).reverse.dropWhile (· == '_')).reverse

/-- "First Name", "first-name" and " FIRST_NAME " are the same heading. -/
def tidyHeading (env : Admissions.Env) (classes : Classes) (heading : Str) : Str :=
  trimUnderscores <| (joinWords (lowered env (trim heading)) false).filter fun ch =>
    classes.isLetterOrNumber ch || ch == '_'

/-- Column position in the file for each column the import uses, and the headings that
match nothing. -/
structure HeaderMap where
  index : List (StudentImportColumn × ℕ) := []
  ignored : List Str := []
  deriving DecidableEq, Repr

def HeaderMap.position? (map : HeaderMap) (column : StudentImportColumn) : Option ℕ :=
  (map.index.find? fun e => e.1 == column).map Prod.snd

def columnOf (tidy : Str) : Option StudentImportColumn :=
  StudentImportColumn.all.find? fun column => (ALIASES column).contains (String.ofList tidy)

/-- One heading; a second one for the same column is ignored. -/
def HeaderMap.add (env : Admissions.Env) (classes : Classes) (map : HeaderMap) (heading : Str × ℕ) : HeaderMap :=
  let unused : HeaderMap :=
    if trim heading.1 ≠ [] then { map with ignored := map.ignored ++ [trim heading.1] } else map
  match columnOf (tidyHeading env classes heading.1) with
  | none => unused
  | some column =>
      if (map.position? column).isNone then { map with index := map.index ++ [(column, heading.2)] }
      else unused

def mapHeader (env : Admissions.Env) (classes : Classes) (headings : List Str) : HeaderMap :=
  headings.zipIdx.foldl (HeaderMap.add env classes) {}

def REQUIRED : List StudentImportColumn := [.givenName, .fatherName, .gender, .phone, .branch]

def missingColumns (map : HeaderMap) : List StudentImportColumn :=
  REQUIRED.filter fun column => (map.position? column).isNone

/-- Anything that is neither stays as typed, so that it fails. -/
def normalizeGender (env : Admissions.Env) (value : Str) : Str :=
  let v := lowered env (trim value)
  if ["f", "female", "woman", "girl"].contains (String.ofList v) then "female".toList
  else if ["m", "male", "man", "boy"].contains (String.ofList v) then "male".toList
  else v

def isDateSeparator (c : Char) : Bool := c == '/' || c == '.' || c == '-'

/-- `/^(\d{1,2})[/.-](\d{1,2})[/.-](\d{4})$/`. -/
def dayMonthYear (v : Str) : Option (Str × Str × Str) :=
  let (d, v) := v.span Char.isDigit
  match v with
  | [] => none
  | c :: v =>
      let (m, v) := v.span Char.isDigit
      match v with
      | [] => none
      | c' :: y =>
          if isDateSeparator c && isDateSeparator c' && y.all Char.isDigit && (d.length == 1 || d.length == 2) &&
              (m.length == 1 || m.length == 2) && y.length == 4 then some (d, m, y)
          else none

/-- `padStart(2, '0')`. -/
def padded (digits : Str) : Str := List.replicate (2 - digits.length) '0' ++ digits

/-- A birth date as YYYY-MM-DD, from that or from DD/MM/YYYY. Anything else is returned
unchanged. -/
def normalizeDate (value : Str) : Str :=
  let v := trim value
  match dayMonthYear v with
  | none => v
  | some (d, m, y) => y ++ '-' :: padded m ++ '-' :: padded d

/-- The cell for a column, tidied, or nothing when the file has no such column. -/
def cellOf (map : HeaderMap) (cells : List Str) (column : StudentImportColumn) : Str :=
  match map.position? column with
  | none => []
  | some position => trim ((cells[position]?).getD [])

example : mapHeader {} {} (["First Name", "Sex", "phone", "mobile", "Colour"].map String.toList) =
    { index := [(.givenName, 0), (.gender, 1), (.phone, 2)], ignored := ["mobile".toList, "Colour".toList] } := by
  decide +kernel

example : normalizeDate " 3/04.2001".toList = "2001-04-03".toList := by decide

end Emis.Imports
