import Mathlib.Data.Nat.Notation

/-!
# What a request can throw

An HTTP error with the code and the text its client sees, a constraint of the
database, or a plain JavaScript error.
-/

namespace Emis

/-- Primary keys are `uuid`s, which PostgreSQL orders as 128-bit numbers. -/
abbrev Uuid := ℕ

structure HttpError where
  status : ℕ
  code : String
  message : String
  deriving DecidableEq, Repr

def badRequest (code message : String) : HttpError := ⟨400, code, message⟩
def unauthorized (code message : String) : HttpError := ⟨401, code, message⟩
def forbidden (code message : String) : HttpError := ⟨403, code, message⟩
def notFound (code message : String) : HttpError := ⟨404, code, message⟩
def conflict (code message : String) : HttpError := ⟨409, code, message⟩
def preconditionFailed (code message : String) : HttpError := ⟨412, code, message⟩
def unprocessable (code message : String) : HttpError := ⟨422, code, message⟩

/-- A statement the database refuses, with the constraint or index that fired. -/
inductive Violation where
  | check (constraint : String)
  | unique (index : String)
  | exclusion (constraint : String)
  | raised (message : String)
  deriving DecidableEq, Repr

inductive Error where
  | http (e : HttpError)
  | database (v : Violation)
  | internal (message : String)
  deriving DecidableEq, Repr

/-- `versionConflict` of `common/http/versioning.ts`. -/
def versionConflict : Error :=
  .http <| preconditionFailed "VERSION_CONFLICT"
    "Someone else changed this in the meantime. Reload and try again."

end Emis
