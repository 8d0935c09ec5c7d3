import Emis.Billing.Calls
import Emis.Library.Script

/-!
# Payment plans

The payment plans of `modules/billing/application/fees.service.ts`, with the requests of
`packages/contracts/src/billing.ts`. The audit entries are left out.
-/

namespace Emis.Billing

open Transactions

/-- What is wrong with the instalments of a plan. -/
def planIssues (installments : List PlanInstallment) : List String :=
  (if (installments.map PlanInstallment.shareBp).sum = 10000 then [] else ["The shares must add up to 100%."]) ++
    if installments.IsChain fun a b => a.dueOffsetDays ≤ b.dueOffsetDays then [] else ["Due dates must not go backwards."]

def PlanInstallment.ok (p : PlanInstallment) : Prop := 1 ≤ p.shareBp ∧ p.shareBp ≤ 10000 ∧ p.dueOffsetDays ≤ 730

abbrev planName (name : String) : Prop := 2 ≤ name.length ∧ name.length ≤ 80

/-- A body that the schema accepts. -/
structure CreatePaymentPlanValues where
  name : String
  installments : List PlanInstallment
  isDefault : Bool := false
  name_ok : planName name
  count_ok : 1 ≤ installments.length ∧ installments.length ≤ 12
  each_ok : ∀ p ∈ installments, p.ok
  planIsValid : planIssues installments = []

structure UpdatePaymentPlanRequest where
  name : Option String := none
  isDefault : Option Bool := none
  isActive : Option Bool := none
  name_ok : ∀ n ∈ name, planName n

def plansTable : VersionedTable Db Lock PaymentPlanRow where
  rows := Db.paymentPlans
  put rows d := { d with paymentPlans := rows }
  id := PaymentPlanRow.id
  version := PaymentPlanRow.version
  withVersion n r := { r with version := n }
  rowLock := .paymentPlan

namespace FeesService

def notDefault (p : PaymentPlanRow) : PaymentPlanRow := { p with isDefault := false }

def clearPlans (hit : PaymentPlanRow → Bool) (d : Db) : Db :=
  { d with paymentPlans := changeWhere hit notDefault d.paymentPlans }

/-- `UPDATE … SET is_default = false WHERE is_default`. -/
def clearDefault : Tx Unit := do
  let d ← Prog.get
  (d.paymentPlans.filter PaymentPlanRow.isDefault).forM fun row => do
    let hit (p : PaymentPlanRow) : Bool := p.id == row.id && p.isDefault
    let _ ← Prog.updateWhere (.paymentPlan row.id) (fun d => d.paymentPlans.any hit) (clearPlans hit)

/-- Is there another plan with an entry of the row in an index? -/
def taken (row : PaymentPlanRow) (d : Db) : Bool :=
  d.paymentPlans.any fun p => p.id != row.id && (p.name == row.name || row.isDefault && p.isDefault)

/-- The entries of a new row in `payment_plans_name_key` and `payment_plans_one_default_key`. -/
def indexPlan (row : PaymentPlanRow) : Tx Unit := do
  Prog.acquire (.planName row.name)
  Prog.when row.isDefault (Prog.acquire .defaultPlan)
  let d ← Prog.get
  Prog.require (!taken row d) (billingErrors.codeTaken "payment plan")

def insertPlan (row : PaymentPlanRow) : Tx Unit := do
  Prog.acquire (.paymentPlan row.id)
  let d ← Prog.get
  Prog.require (!d.paymentPlans.any fun p => p.id == row.id) (billingErrors.codeTaken "payment plan")
  Prog.modify fun d => { d with paymentPlans := d.paymentPlans ++ [row] }
  indexPlan row

def createPlan (env : Env) (input : CreatePaymentPlanValues) : Tx PaymentPlanRow := do
  Prog.when input.isDefault clearDefault
  let row : PaymentPlanRow :=
    { id := env.newId 0, name := input.name, installments := input.installments, isDefault := input.isDefault }
  insertPlan row
  return row

/-- What `updatePlan` sets. -/
def updated (input : UpdatePaymentPlanRequest) (p : PaymentPlanRow) : PaymentPlanRow :=
  { p with
    name := input.name.getD p.name
    -- A retired plan can't stay the default.
    isDefault := if input.isActive = some false then false else input.isDefault.getD p.isDefault
    isActive := input.isActive.getD p.isActive }

def updatePlan (id : Uuid) (input : UpdatePaymentPlanRequest) (expectedVersion : ℕ) : Tx PaymentPlanRow := do
  Prog.when (input.isDefault == some true) clearDefault
  let result ← updateWithVersion plansTable id expectedVersion (updated input)
  let row ← versionedRow result billingErrors.paymentPlanNotFound
  indexPlan row
  return row

end FeesService

/-- A request about plans, or any other to the billing services. -/
inductive PlanCall where
  | createPlan (env : Env) (input : CreatePaymentPlanValues)
  | updatePlan (id : Uuid) (input : UpdatePaymentPlanRequest) (expectedVersion : ℕ)
  | billing (call : Call)

inductive PlanReply where
  | plan (row : PaymentPlanRow)
  | billing (reply : Reply)

def PlanCall.code : PlanCall → Tx PlanReply
  | .createPlan env input => .plan <$> FeesService.createPlan env input
  | .updatePlan id input expectedVersion => .plan <$> FeesService.updatePlan id input expectedVersion
  | .billing call => .billing <$> call.code

/-- A plan that is made the default without a word on whether it is active is active. -/
def PlanCall.usable : PlanCall → Db → Prop
  | .updatePlan id input _, d =>
      input.isDefault = some true → input.isActive = none → ∀ p ∈ d.paymentPlans, p.id = id → p.isActive = true
  | _, _ => True

end Emis.Billing
