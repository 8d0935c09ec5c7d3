import Emis.Access.UsersService

/-!
# What statements of the staff services leave alone
-/

namespace Emis.Access

open Transactions Identity

variable {τ : Type} {φ : Db → τ}

theorem keeps_get (u : Uuid) : (UsersService.get u).Keeps φ :=
  .bind (.bind .get fun _ => .bind .get fun _ => .pure _) fun _ => .expect _ _

theorem takes_get {A : Set Lock} (u : Uuid) : (UsersService.get u).Takes A :=
  .bind (.bind .get fun _ => .bind .get fun _ => .pure _) fun _ => .expect _ _

theorem keeps_requireGrantableRole (key : String) (scope : Scope) :
    (UsersService.requireGrantableRole key scope).Keeps φ :=
  .bind .get fun _ => .bind (.expect _ _) fun _ => .bind (.require _ _) fun _ =>
    .bind .get fun _ => .bind (.require _ _) fun _ => .pure _

theorem keeps_insertAssignment (h : ∀ d rows, φ { d with assignments := rows } = φ d) (taken : Error)
    (row : AssignmentRow) : (UsersService.insertAssignment taken row).Keeps φ :=
  .bind (.acquire _) fun _ => .bind .get fun _ => .bind (.require _ _) fun _ =>
    .bind (.acquire _) fun _ => .bind .get fun _ => .bind (.require _ _) fun _ => .modify fun d => h d _

theorem keeps_issueInvitationToken (h : ∀ d rows, φ { d with invitations := rows } = φ d) (env : Env)
    (u : Uuid) : (UsersService.issueInvitationToken env u).Keeps φ :=
  .bind (.acquire _) fun _ => .bind (.acquire _) fun _ => .bind .get fun _ =>
    .bind (.require _ _) fun _ => .bind (.require _ _) fun _ =>
      .bind (.modify fun d => h d _) fun _ => .pure _

end Emis.Access
