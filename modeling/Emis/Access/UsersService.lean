import Emis.Identity.AccountsService
import Emis.Identity.SessionsService

/-!
# Staff accounts and their roles

`modules/access/application/users.service.ts` and `invitations.service.ts`. The
audit entries, the emails and the tokens inside them are left out.
-/

namespace Emis.Access

open Transactions Identity

namespace accessErrors

def roleNotFound : Error := .http <| unprocessable "ROLE_NOT_FOUND" "That role does not exist."

def scopeNotAllowed (role : String) : Error :=
  .http <| unprocessable "SCOPE_NOT_ALLOWED" s!"The {role} role can't be limited to that scope."

def scopeNotAvailable : Error :=
  .http <| unprocessable "SCOPE_NOT_AVAILABLE" "That branch or department doesn't exist."

def lastAdmin : Error :=
  .http <| conflict "LAST_ADMIN" "At least one active admin must remain. Add another admin first."

def cannotChangeSelf : Error :=
  .http <| conflict "CANNOT_CHANGE_SELF" "You can't disable your own account."

def userNotFound : Error := .http <| notFound "USER_NOT_FOUND" "Staff member not found."

def assignmentNotFound : Error :=
  .http <| notFound "ROLE_ASSIGNMENT_NOT_FOUND" "Role assignment not found."

def roleAlreadyAssigned : Error :=
  .http <| conflict "ROLE_ALREADY_ASSIGNED" "They already have that role at that scope."

def invalidInvitation : Error :=
  .http <| badRequest "INVALID_INVITATION"
    "This invitation is invalid or has expired. Ask an admin to send a new one."

def alreadyActivated : Error :=
  .http <| conflict "ALREADY_ACTIVATED" "This account is already activated."

end accessErrors

def ADMIN_ROLE : String := "admin"

def INVITATION_TTL_HOURS : ℤ := 72

/-! ## What a client sees of a staff member -/

structure RoleAssignment where
  id : Uuid
  roleKey : String
  roleName : String
  scope : Scope
  deriving DecidableEq, Repr

inductive StaffStatus where
  | invited
  | active
  | disabled
  deriving DecidableEq, Repr

structure StaffUser where
  id : Uuid
  email : String
  displayName : String
  status : StaffStatus
  mfaEnabled : Bool
  mfaEnforced : Bool
  lastLoginAt : Option Instant
  createdAt : Instant
  roles : List RoleAssignment
  deriving DecidableEq, Repr

def staffStatus (account : AccountRow) : StaffStatus :=
  match account.status, account.passwordHash with
  | .disabled, _ => .disabled
  | .active, none => .invited
  | .active, some _ => .active

/-- The assignments of a person, joined with their roles. -/
def rolesOf (d : Db) (userId : Uuid) : List RoleAssignment :=
  (d.assignments.filter fun a => a.userId == userId).flatMap fun a =>
    (d.roles.filter fun r => r.id == a.roleId).map fun r =>
      { id := a.id, roleKey := r.key, roleName := r.name, scope := a.scope }

/-- The role of an assignment. -/
def Db.hasRoleKey (d : Db) (key : String) (a : AssignmentRow) : Bool :=
  d.roles.any fun r => r.id == a.roleId && r.key == key

def Db.canSignIn (d : Db) (userId : Uuid) : Bool :=
  d.accounts.any fun a => a.id == userId && a.status == .active && a.passwordHash.isSome

/-- The admins `assertAnotherAdmin` counts. -/
def Db.isActiveAdmin (d : Db) (userId : Uuid) : Bool :=
  (d.assignments.any fun a => a.userId == userId && Db.hasRoleKey d ADMIN_ROLE a) &&
    Db.canSignIn d userId

namespace UsersService

/-- `load` of one id: the account with its second factor, then the roles. -/
def load (userId : Uuid) : Tx (Option StaffUser) := do
  let accounts ← Prog.get
  let assignments ← Prog.get
  return (accounts.accountById userId).map fun account =>
    { id := account.id
      email := account.email
      displayName := account.displayName
      status := staffStatus account
      mfaEnabled := accounts.factors.any fun f => f.userId == userId && f.confirmedAt.isSome
      mfaEnforced := account.mfaEnforced
      lastLoginAt := account.lastLoginAt
      createdAt := account.createdAt
      roles := rolesOf assignments userId }

def get (userId : Uuid) : Tx StaffUser := do
  let user ← load userId
  Prog.expect user accessErrors.userNotFound

/-- Refuse to remove the last active admin. -/
def assertAnotherAdmin (excludingUserId : Uuid) : Tx Unit := do
  Prog.acquire .adminGuard
  let d ← Prog.get
  let others := ((d.assignments.filter fun a =>
    Db.hasRoleKey d ADMIN_ROLE a && Db.canSignIn d a.userId && a.userId != excludingUserId).map
      AssignmentRow.userId).dedup
  Prog.require (others.length != 0) accessErrors.lastAdmin

def scopeType : Scope → ScopeType
  | .global => .global
  | .branch _ => .branch
  | .department _ => .department

/-- `OrgScopeResolver.exists`. -/
def scopeExists (d : Db) : Scope → Bool
  | .global => true
  | .branch id => d.branches.contains id
  | .department id => d.departments.contains id

def requireGrantableRole (roleKey : String) (scope : Scope) : Tx RoleRow := do
  let d ← Prog.get
  let role ← Prog.expect (d.roles.find? fun r => r.key == roleKey) accessErrors.roleNotFound
  Prog.require (role.allowedScopes.contains (scopeType scope)) (accessErrors.scopeNotAllowed role.name)
  let d ← Prog.get
  Prog.require (scopeExists d scope) accessErrors.scopeNotAvailable
  return role

def uniqueViolation : Error := .internal "duplicate key value violates unique constraint"

/-- `INSERT INTO user_role_assignments`: entries of the unique indexes are taken
first, which waits for anybody who is adding the same entries. -/
def insertAssignment (taken : Error) (row : AssignmentRow) : Tx Unit := do
  Prog.acquire (.grant row.userId row.roleId row.scope)
  let d ← Prog.get
  Prog.require (!d.assignments.any fun a =>
    a.userId == row.userId && a.roleId == row.roleId && a.scope == row.scope) taken
  Prog.acquire (.assignment row.id)
  let d ← Prog.get
  Prog.require
    (!(d.assignments.any fun a => a.id == row.id) && !d.spentAssignments.contains row.id) taken
  Prog.modify fun d => { d with assignments := d.assignments ++ [row] }

structure InviteInput where
  email : String
  displayName : String
  roleKey : String
  scope : Scope

/-- `INSERT INTO user_invitations`, with the entries of its two unique indexes. -/
def issueInvitationToken (env : Env) (userId : Uuid) : Tx String := do
  let hash := env.hashToken env.token
  Prog.acquire (.invitation env.newInvitationId)
  Prog.acquire (.invitationToken hash)
  let d ← Prog.get
  Prog.require (!d.invitations.any fun i => i.id == env.newInvitationId)
    (.database (.unique "user_invitations_pkey"))
  Prog.require (!d.invitations.any fun i => i.tokenHash == hash)
    (.database (.unique "user_invitations_token_hash_key"))
  Prog.modify fun d => { d with
    invitations := d.invitations ++ [{
      id := env.newInvitationId
      userId := userId
      tokenHash := hash
      expiresAt := env.now + INVITATION_TTL_HOURS * 3600000 }] }
  return env.token

/-- Create the account, grant the role and issue a single-use link. -/
def invite (env : Env) (input : InviteInput) : Tx StaffUser := do
  let role ← requireGrantableRole input.roleKey input.scope
  let userId ← AccountsService.create env
    { email := input.email, displayName := input.displayName, mfaEnforced := role.mfaRequired }
  insertAssignment uniqueViolation
    { id := env.newId, userId := userId, roleId := role.id, scope := input.scope }
  let _ ← issueInvitationToken env userId
  get userId

def revoked (now : Instant) (i : InvitationRow) : InvitationRow := { i with revokedAt := some now }

def isOpen (i : InvitationRow) : Bool := i.acceptedAt.isNone && i.revokedAt.isNone

/-- The open links of the person are revoked, one locked row after the other. -/
def reissueInvitation (env : Env) (userId : Uuid) : Tx String := do
  let d ← Prog.get
  let rows := d.invitations.filter fun i => i.userId == userId && isOpen i
  rows.forM fun row => do
    let hit (i : InvitationRow) : Bool := i.id == row.id && (i.userId == userId && isOpen i)
    let _ ← Prog.updateWhere (.invitation row.id) (fun d => d.invitations.any hit) fun d =>
      { d with invitations := changeWhere hit (revoked env.now) d.invitations }
  issueInvitationToken env userId

def resendInvitation (env : Env) (userId : Uuid) : Tx Unit := do
  let user ← get userId
  Prog.require (user.status == .invited) accessErrors.alreadyActivated
  let _ ← reissueInvitation env userId

def setStatus (env : Env) (userId : Uuid) (status : AccountStatus) (actorId : Uuid) : Tx StaffUser := do
  Prog.require (userId != actorId) accessErrors.cannotChangeSelf
  let before ← get userId
  Prog.when (status == .disabled && before.roles.any fun r => r.roleKey == ADMIN_ROLE)
    (assertAnotherAdmin userId)
  AccountsService.setStatus userId status
  Prog.when (status == .disabled)
    (SessionsService.revokeAllForUser env userId "account_disabled")
  get userId

def assignRole (env : Env) (userId : Uuid) (roleKey : String) (scope : Scope) : Tx StaffUser := do
  let _ ← get userId
  let role ← requireGrantableRole roleKey scope
  insertAssignment accessErrors.roleAlreadyAssigned
    { id := env.newId, userId := userId, roleId := role.id, scope := scope }
  Prog.when role.mfaRequired (AccountsService.enforceMfa userId)
  get userId

def removeAssignment (userId assignmentId : Uuid) : Tx StaffUser := do
  let d ← Prog.get
  let assignment ← Prog.expect ((rolesOf d userId).find? fun a => a.id == assignmentId)
    accessErrors.assignmentNotFound
  Prog.when (assignment.roleKey == ADMIN_ROLE) (assertAnotherAdmin userId)
  Prog.acquire (.assignment assignmentId)
  Prog.modify fun d => { d with
    assignments := d.assignments.filter fun a => a.id != assignmentId
    spentAssignments := assignmentId :: d.spentAssignments }
  get userId

end UsersService

/-! ## Invitations -/

namespace InvitationsService

/-- A still-usable invitation for an account that hasn't set a password yet. -/
def findOpen (env : Env) (token : String) : Tx (Option InvitationRow) := do
  let d ← Prog.get
  return d.invitations.find? fun i =>
    i.tokenHash == env.hashToken token && i.acceptedAt.isNone && i.revokedAt.isNone &&
      i.expiresAt > env.now && d.accounts.any fun a =>
        a.id == i.userId && a.status == .active && a.passwordHash.isNone

/-- Set the password and consume the invitation atomically. -/
def accept (env : Env) (token password : String) : Tx Unit := do
  let invitation ← findOpen env token
  let invitation ← Prog.expect invitation accessErrors.invalidInvitation
  let hit (i : InvitationRow) : Bool := i.id == invitation.id && i.acceptedAt.isNone
  let claimed ← Prog.updateWhere (.invitation invitation.id) (fun d => d.invitations.any hit) fun d =>
    { d with invitations := changeWhere hit (fun i => { i with acceptedAt := some env.now }) d.invitations }
  Prog.require claimed accessErrors.invalidInvitation
  AccountsService.setPassword env invitation.userId password

end InvitationsService

end Emis.Access
