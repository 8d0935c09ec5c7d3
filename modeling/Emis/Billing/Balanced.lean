import Emis.Billing.Calls
import Emis.Billing.Operations

/-!
# The books always balance

Requests, decisions, payments and new invoices, one transaction at a time and in
any order.
-/

namespace Emis.Billing

open Transactions ApprovalsService

/-! ## Maker and checker -/

section Approvals

variable {d : Db}

theorem wlp_createApproval (h : Books d) (env : Env) (payload : Payload) (subjectId : Uuid)
    (summary reason : String) (actor : Actor) :
    (create env payload subjectId summary reason actor).wlp (fun _ d' => Books d') NoCheck d := by
  simp only [create, insertApproval, Prog.wlp_bind, wlp_enforce, Prog.wlp_acquire, Prog.wlp_get,
    Prog.wlp_require, Prog.wlp_modify, Prog.wlp_pure]
  constructor
  · intro _
    constructor
    · intro hnew
      have hids : ∀ r ∈ d.approvalRequests, r.id ≠ env.newId 0 := by
        intro r hr hid
        have hrow := List.any_eq_false.1 (by simpa only [Bool.not_eq_true'] using hnew) r hr
        simp [hid] at hrow
      have hnodup : ((d.approvalRequests ++ [(⟨env.newId 0, payload, .pending, subjectId, summary,
          reason, actor.userId, none, none, none, 1⟩ : ApprovalRow)]).map ApprovalRow.id).Nodup := by
        rw [List.map_append, List.nodup_append]
        refine ⟨h.approvalIds, List.nodup_singleton _, ?_⟩
        intro x hx y hy
        obtain ⟨r, hr, rfl⟩ := List.mem_map.1 hx
        obtain rfl : y = env.newId 0 := by simpa using hy
        exact hids r hr
      exact { h.toLedgers.frame rfl rfl rfl rfl rfl with
        approvalIds := hnodup
        settled := fun i hi => (h.settled i hi).of_sums rfl rfl
        receipted := h.receipted }
    · exact fun _ => noCheck_http _
  · simp [checkApproval]

theorem wlp_requestDiscount (h : Books d) (env : Env) (invoiceId : Uuid)
    (input : RequestDiscountValues) (grants : List Grant) (actor : Actor) :
    (requestDiscount env invoiceId input grants actor).wlp (fun _ d' => Books d') NoCheck d := by
  simp only [requestDiscount, InvoicesService.row, Prog.wlp_bind, Prog.wlp_get, Prog.wlp_expect,
    Prog.wlp_require]
  refine ⟨fun invoice _ => ?_, fun _ => noCheck_http _⟩
  apply wlp_assertScope
  refine ⟨fun _ => ⟨fun _ => ⟨fun _ => ⟨fun _ => ?_, fun _ => noCheck_http _⟩,
    fun _ => noCheck_http _⟩, fun _ => noCheck_http _⟩, fun _ => noCheck_http _⟩
  exact wlp_createApproval h env _ _ _ _ actor

theorem wlp_requestVoid (h : Books d) (env : Env) (paymentId : Uuid) (reason : String)
    (grants : List Grant) (actor : Actor) :
    (requestVoid env paymentId reason grants actor).wlp (fun _ d' => Books d') NoCheck d := by
  simp only [requestVoid, PaymentsService.row, Prog.wlp_bind, Prog.wlp_get, Prog.wlp_expect,
    Prog.wlp_require]
  refine ⟨fun payment _ => ?_, fun _ => noCheck_http _⟩
  apply wlp_assertScope
  refine ⟨fun _ => ?_, fun _ => noCheck_http _⟩
  apply wlp_paymentView
  intro view
  exact wlp_createApproval h env _ _ _ _ actor

theorem wlp_applyEffect (h : Books d) (env : Env) (request : ApprovalRow) :
    (applyEffect env request).wlp (Kept d) NoCheck d := by
  unfold applyEffect
  split
  · exact wlp_applyDiscount h env _ _
  · exact wlp_voidPayment h env _

theorem checkApproval_decided {env : Env} {input : DecideApprovalValues} {actor : Actor}
    {r : ApprovalRow} (hother : r.requestedBy ≠ actor.userId) :
    checkApproval (decidedRow env input actor r) = none := by
  have hstatus : (decidedRow env input actor r).status ≠ .pending := by
    unfold decidedRow
    cases input.decision <;> simp
  have hdecider : (decidedRow env input actor r).decidedBy = some actor.userId := rfl
  have hrequester : (decidedRow env input actor r).requestedBy = r.requestedBy := rfl
  simp [checkApproval, hstatus, hdecider, hrequester, Ne.symm hother]

theorem wlp_updateApproval (h : Books d) (env : Env) (input : DecideApprovalValues) (actor : Actor)
    {request : ApprovalRow} (hmem : request ∈ d.approvalRequests)
    (hother : request.requestedBy ≠ actor.userId) :
    (updateApproval request.id request.version (decidedRow env input actor)).wlp
      (fun _ d' => Books d') NoCheck d := by
  simp only [updateApproval, Prog.wlp_bind, Prog.wlp_acquire, Prog.wlp_get, wlp_enforce]
  constructor
  · intro _
    apply wlp_versioned approvalsTable
    · intro row _ _
      have hids : (approvalsTable.bump request.id (decidedRow env input actor) d).approvalRequests.map
          ApprovalRow.id = d.approvalRequests.map ApprovalRow.id := map_changeWhere fun _ => rfl
      exact { h.toLedgers.frame rfl rfl rfl rfl rfl with
        approvalIds := by rw [hids]; exact h.approvalIds
        settled := fun i hi => (h.settled i hi).of_sums rfl rfl
        receipted := h.receipted }
    · exact noCheck_http _
    · exact noCheck_http _
  · intro x hx name hcheck
    obtain rfl : x = .check name := by simpa using hcheck
    obtain ⟨r, hr, hviolation⟩ := List.exists_of_findSome?_eq_some hx
    obtain ⟨hr, hboth⟩ := List.mem_filter.1 hr
    have hid : r.id = request.id := by
      simp only [Bool.and_eq_true, beq_iff_eq] at hboth
      exact hboth.1
    obtain rfl : r = request := eq_of_key_eq h.approvalIds hr hmem hid
    rw [checkApproval_decided hother, Option.or_none] at hviolation
    unfold approvalIsFinal at hviolation
    split at hviolation
    · cases hviolation
    · simp at hviolation

theorem wlp_decide (h : Books d) (env : Env) (id : Uuid) (input : DecideApprovalValues)
    (actor : Actor) : (ApprovalsService.decide env id input actor).wlp (fun _ d' => Books d') NoCheck d := by
  simp only [ApprovalsService.decide, Prog.wlp_bind, Prog.wlp_acquire, Prog.wlp_get, Prog.wlp_expect,
    Prog.wlp_require, Prog.wlp_when]
  refine ⟨fun request hrequest => ⟨fun _ => ⟨fun hother => ?_, fun _ => noCheck_http _⟩,
    fun _ => noCheck_http _⟩, fun _ => noCheck_http _⟩
  have hmem : request ∈ d.approvalRequests := List.mem_of_find?_eq_some hrequest
  obtain rfl : request.id = id := by simpa using List.find?_some hrequest
  have hother : request.requestedBy ≠ actor.userId := by simpa using hother
  constructor
  · intro _
    apply Prog.wlp_mono _ (fun _ he => he) (wlp_applyEffect h env request)
    rintro _ d' ⟨hd', hkept⟩
    exact wlp_updateApproval hd' env input actor (hkept ▸ hmem) hother
  · intro _
    exact wlp_updateApproval h env input actor hmem hother

end Approvals

/-! ## Any run -/

theorem wlp_code {d : Db} (h : Books d) (call : Call) :
    call.code.wlp (fun _ d' => Books d') NoCheck d := by
  cases call with
  | create env input grants => exact (Prog.wlp_map _ _).2 (wlp_create h env input grants)
  | record env input grants key => exact (Prog.wlp_map _ _).2 (wlp_record h env input grants key)
  | requestDiscount env id input grants actor =>
      exact (Prog.wlp_map _ _).2 (wlp_requestDiscount h env id input grants actor)
  | requestVoid env id reason grants actor =>
      exact (Prog.wlp_map _ _).2 (wlp_requestVoid h env id reason grants actor)
  | decide env id input actor => exact (Prog.wlp_map _ _).2 (wlp_decide h env id input actor)

theorem Books.after {d : Db} (h : Books d) (call : Call) : Books (call.after d) := by
  rcases Prog.alone_cases (wlp_code h call) with ⟨_, d', hrun, hd'⟩ | ⟨_, hrun, -⟩
  · rw [Call.after, hrun]
    exact hd'
  · rw [Call.after, hrun]
    exact h

theorem Books.afterAll {d : Db} (h : Books d) (calls : List Call) : Books (afterAll d calls) := by
  induction calls generalizing d with
  | nil => exact h
  | cons call calls ih => exact ih (h.after call)

/-- No bill has been made, nothing paid and nothing asked for; the rest of the
institution is arbitrary. -/
structure NoBills (d : Db) : Prop where
  invoices : d.invoices = []
  installments : d.installments = []
  payments : d.payments = []
  paymentAllocations : d.paymentAllocations = []
  receipts : d.receipts = []
  discounts : d.discounts = []
  approvalRequests : d.approvalRequests = []

theorem NoBills.books {d : Db} (h : NoBills d) : Books d where
  invoiceIds := by simp [h.invoices]
  installmentIds := by simp [h.installments]
  paymentIds := by simp [h.payments]
  installmentOf := by simp [h.installments]
  discountOf := by simp [h.discounts]
  allocationOf := by simp [h.paymentAllocations]
  split := by simp [h.invoices]
  range := by simp [h.installments]
  paid := by simp [h.installments]
  allocated := by simp [h.payments]
  approvalIds := by simp [h.approvalRequests]
  settled := by simp [h.invoices]
  receipted := by simp [h.payments]

/-- What balances, invoice by invoice, instalment by instalment and payment by
payment. -/
structure Balanced (d : Db) : Prop where
  total : ∀ i ∈ d.invoices,
    i.total = ((d.installments.filter fun p => p.invoiceId == i.id).map
      InstallmentRow.amount).sum
  discounted : ∀ i ∈ d.invoices, i.total = i.subtotal - i.discountTotal
  discountTotal : ∀ i ∈ d.invoices,
    i.discountTotal = ((d.discounts.filter fun x => x.invoiceId == i.id).map DiscountRow.amount).sum
  paidTotal : ∀ i ∈ d.invoices,
    i.paidTotal = ((d.installments.filter fun p => p.invoiceId == i.id).map
      InstallmentRow.paidAmount).sum
  range : ∀ p ∈ d.installments, 0 ≤ p.paidAmount ∧ p.paidAmount ≤ p.amount
  paidAmount : ∀ p ∈ d.installments,
    p.paidAmount = ((d.paymentAllocations.filter fun a => a.installmentId == p.id &&
      d.payments.any fun q => q.id == a.paymentId && q.status == .posted).map
        AllocationRow.amount).sum
  allocations : ∀ q ∈ d.payments,
    ((d.paymentAllocations.filter fun a => a.paymentId == q.id).map AllocationRow.amount).sum =
      q.amount
  receipt : ∀ q ∈ d.payments, ∃ r, d.receipts.filter (fun r => r.paymentId == q.id) = [r] ∧
    (r.status = .void ↔ q.status = .void)
  status : ∀ i ∈ d.invoices, i.status = invoiceStatusFor i.total i.paidTotal

theorem Books.balanced {d : Db} (h : Books d) : Balanced d where
  total i hi := (h.settled i hi).total
  discounted i hi := by
    have hdiscount := (h.settled i hi).discountTotal
    omega
  discountTotal i hi := by
    have hsplit := (h.split i hi).2
    rw [(h.settled i hi).discountTotal, (h.settled i hi).total]
    change i.subtotal - d.amountOf i.id = d.discountOf i.id
    omega
  paidTotal i hi := (h.settled i hi).paidTotal
  range := h.range
  paidAmount := h.paid
  allocations q hq := (h.allocated q hq).2
  receipt := h.receipted
  status i hi := (h.settled i hi).status

/-- In every state a run reaches the books balance, and no request made there
meets a CHECK. -/
theorem books_always_balance (d : Db) (h : NoBills d) (calls : List Call) :
    Balanced (afterAll d calls) ∧
      ∀ (call : Call) (name : String),
        (call.code.alone (afterAll d calls)).1 ≠ .error (.database (.check name)) := by
  have hbooks := h.books.afterAll calls
  refine ⟨hbooks.balanced, fun call name herror => ?_⟩
  rcases Prog.alone_cases (wlp_code hbooks call) with ⟨a, d', hrun, -⟩ | ⟨e, hrun, he⟩
  · rw [hrun] at herror
    cases herror
  · rw [hrun] at herror
    exact he name (Except.error.inj herror)

/-- A payment on both instalments, then a tenth off the second. -/
theorem books_always_balance_office :
    NoBills office ∧
      (afterAll office [bill, pay, askDiscount, approve 50 30 2]).installments.map
        (fun p => (p.amount, p.paidAmount)) = [(50000, 50000), (40000, 10000)] ∧
      Balanced (afterAll office [bill, pay, askDiscount, approve 50 30 2]) := by
  have hstart : NoBills office := ⟨rfl, rfl, rfl, rfl, rfl, rfl, rfl⟩
  exact ⟨hstart, by decide +kernel, (books_always_balance office hstart _).1⟩

/-- Voiding the payment takes both parts back. -/
example : (afterAll office [bill, pay, askVoid, approve 60 40 2]).installments.map
    (fun p => (p.amount, p.paidAmount)) = [(50000, 0), (50000, 0)] := by
  decide +kernel

end Emis.Billing
