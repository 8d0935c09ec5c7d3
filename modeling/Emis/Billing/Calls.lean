import Emis.Billing.ApprovalsService

/-!
# The requests of the billing services
-/

namespace Emis.Billing

open Transactions

/-- A request to the billing services. -/
inductive Call where
  | create (env : Env) (input : CreateInvoiceValues) (grants : List Grant)
  | record (env : Env) (input : RecordPaymentValues) (grants : List Grant) (providerKey : String)
  | requestDiscount (env : Env) (invoiceId : Uuid) (input : RequestDiscountValues)
    (grants : List Grant) (actor : Actor)
  | requestVoid (env : Env) (paymentId : Uuid) (reason : String) (grants : List Grant)
    (actor : Actor)
  | decide (env : Env) (id : Uuid) (input : DecideApprovalValues) (actor : Actor)

inductive Reply where
  | invoice (r : Invoice)
  | payment (r : Payment)
  | approval (r : ApprovalRow)

def Call.code : Call → Tx Reply
  | .create env input grants => .invoice <$> InvoicesService.create env input grants
  | .record env input grants providerKey =>
      .payment <$> PaymentsService.record env input grants providerKey
  | .requestDiscount env invoiceId input grants actor =>
      .approval <$> ApprovalsService.requestDiscount env invoiceId input grants actor
  | .requestVoid env paymentId reason grants actor =>
      .approval <$> ApprovalsService.requestVoid env paymentId reason grants actor
  | .decide env id input actor => .approval <$> ApprovalsService.decide env id input actor

/-- The store after one request. -/
def Call.after (d : Db) (call : Call) : Db := (call.code.alone d).2

/-- The store after a run. -/
def afterAll (d : Db) (calls : List Call) : Db := calls.foldl Call.after d

/-! ## An office with one student to bill -/

/-- Student 1 has a seat in a course of 1000.00, payable in two halves. -/
def office : Db where
  numbering :=
    { institution := some ⟨"Africa/Addis_Ababa", ⟨7, 8⟩⟩
      branches := [⟨1, Numbering.AB, "Bole", true⟩] }
  enrollments := [⟨1, 1, 1, .active, none, some 0, none, none, none, none, none, 1⟩]
  cohorts := [⟨1, "A1 morning", 1, none, 1, 1, none, 1, 20700, 20760, 10, .open, 1⟩]
  students := [⟨1, none⟩]
  descriptors := [⟨"discount_reason", "sibling", true⟩]
  feeStructures := [⟨1, 1, none, 0, "ETB", [⟨"Tuition", 100000⟩], 100000, true, by decide⟩]
  paymentPlans := [⟨1, "Two halves", [⟨5000, 0⟩, ⟨5000, 30⟩], true, true, 1⟩]

def cashier : List Grant :=
  [⟨.billingInvoice, .global⟩, ⟨.billingReceive, .global⟩, ⟨.billingRequest, .global⟩]

/-- The ids of the rows a call inserts, from `n` on. -/
def idsFrom (n : ℕ) : Env := { newId := fun k => n + k }

/-- Bill student 1, as invoice 10. -/
def bill : Call := .create (idsFrom 10) ⟨1, none⟩ cashier

def inCash : RecordPaymentValues := ⟨10, 60000, .cash, none, by decide, by decide, by decide⟩

/-- Pay 600.00 in cash, as payment 20. -/
def pay : Call := .record (idsFrom 20) inCash cashier "manual"

/-- User 1 asks for a tenth off, as request 30, and for a void, as request 40. -/
def askDiscount : Call :=
  .requestDiscount (idsFrom 30) 10 ⟨.percent, 1000, "sibling", "", by decide, by decide, by decide⟩
    cashier ⟨1⟩

def askVoid : Call := .requestVoid (idsFrom 40) 20 "Wrong invoice" cashier ⟨1⟩

/-- User `decider` approves request `id`; the rows have ids from `n` on. -/
def approve (n id decider : ℕ) : Call := .decide (idsFrom n) id ⟨.approve, ""⟩ ⟨decider⟩

end Emis.Billing
