import Emis.Common.Errors
import Emis.Library.Program

/-!
# Permissions and record-level authorization

`packages/permissions` and `common/authz/scope.ts`.
-/

namespace Emis

open Transactions

/-- `PERMISSIONS`: `usersRead` is `users.read`, and so on. -/
inductive Permission where
  | usersRead
  | usersInvite
  | usersManage
  | rolesAssign
  | auditRead
  | settingsRead
  | settingsManage
  | catalogRead
  | catalogManage
  | calendarManage
  | facilitiesManage
  | studentsRead
  | studentsManage
  | admissionsRead
  | admissionsManage
  | placementRecord
  | cohortsRead
  | cohortsManage
  | enrollmentsRead
  | enrollmentsManage
  | resultsRecord
  | feesRead
  | feesManage
  | billingRead
  | billingInvoice
  | billingReceive
  | billingRequest
  | approvalsDecide
  | certificatesRead
  | certificatesIssue
  | certificatesRevoke
  | postsRead
  | postsManage
  | postsPublish
  | reportsFinance
  | studentsImport
  deriving DecidableEq, Repr

/-- Where a role applies: the whole institution, one branch or one department. -/
inductive Scope where
  | global
  | branch (id : Uuid)
  | department (id : Uuid)
  deriving DecidableEq, Repr

/-- One permission held at one scope. -/
structure Grant where
  permission : Permission
  scope : Scope
  deriving DecidableEq, Repr

/-- The record being acted on. -/
structure Target where
  branchId : Option Uuid := none
  departmentId : Option Uuid := none
  deriving DecidableEq, Repr

def scopeCovers (scope : Scope) (target : Option Target) : Bool :=
  match scope, target with
  | .global, _ => true
  | _, none => true
  | .branch id, some t => t.branchId == some id
  | .department id, some t => t.departmentId == some id

def hasPermission (grants : List Grant) (permission : Permission)
    (target : Option Target := none) : Bool :=
  grants.any fun grant => grant.permission == permission && scopeCovers grant.scope target

structure Scopes where
  all : Bool
  branchIds : List Uuid
  departmentIds : List Uuid

/-- Which branches and departments a permission reaches. -/
def scopesFor (grants : List Grant) (permission : Permission) : Scopes :=
  let matching := grants.filter fun grant => grant.permission == permission
  { all := matching.any fun grant => grant.scope == .global
    branchIds := matching.filterMap fun grant =>
      match grant.scope with
      | .branch id => some id
      | _ => none
    departmentIds := matching.filterMap fun grant =>
      match grant.scope with
      | .department id => some id
      | _ => none }

def permissionDenied : Error :=
  .http <| forbidden "PERMISSION_DENIED" "You don't have permission to do that."

/-- The branches a permission lets the caller see; `none` stands for `'all'`. A
department-scoped grant is not tied to any branch, so it reaches every branch. -/
def branchReach (grants : List Grant) (permission : Permission) : Option (List Uuid) :=
  let reach := scopesFor grants permission
  if reach.all || !reach.departmentIds.isEmpty then none else some reach.branchIds

variable {σ L : Type}

def assertScope (grants : List Grant) (permission : Permission) (target : Option Target) :
    Prog σ L Error Unit :=
  Prog.require (hasPermission grants permission target) permissionDenied

/-- 403 unless `branchReach` covers this branch. -/
def assertBranchAccess (grants : List Grant) (permission : Permission) (branchId : Uuid) :
    Prog σ L Error Unit :=
  match branchReach grants permission with
  | none => pure ()
  | some reach =>
      if reach.contains branchId then pure () else assertScope [] permission none

theorem keeps_assertScope {τ : Type} {φ : σ → τ} (grants : List Grant) (permission : Permission)
    (target : Option Target) :
    (assertScope grants permission target : Prog σ L Error Unit).Keeps φ := .require _ _

theorem keeps_assertBranchAccess {τ : Type} {φ : σ → τ} (grants : List Grant)
    (permission : Permission) (branchId : Uuid) :
    (assertBranchAccess grants permission branchId : Prog σ L Error Unit).Keeps φ := by
  unfold assertBranchAccess
  split
  · exact .pure _
  · exact .ite (.pure _) (keeps_assertScope _ _ _)

end Emis
