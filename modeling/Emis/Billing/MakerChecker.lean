import Emis.Billing.Calls

/-!
# Maker and checker

What holds of the approval requests and of what has come of them, and what a
client may change under the locks it holds.
-/

namespace Emis.Billing

open Transactions Protocol

/-! ## Requests -/

/-- One request waits on a subject, and the decision is somebody else's. -/
structure Requests (rows : List ApprovalRow) : Prop where
  ids : (rows.map ApprovalRow.id).Nodup
  pendingOnce : ∀ r ∈ rows, ∀ r' ∈ rows, r.status = .pending → r'.status = .pending →
    r.type = r'.type → r.subjectId = r'.subjectId → r = r'
  undecided : ∀ r ∈ rows, (r.status = .pending ↔ r.decidedBy = none)
  decider : ∀ r ∈ rows, r.decidedBy ≠ some r.requestedBy

section Requests

variable {rows : List ApprovalRow} {r : ApprovalRow}

theorem Requests.insert (h : Requests rows) (hnew : ∀ s ∈ rows, s.id ≠ r.id)
    (hpending : r.status = .pending ∧ r.decidedBy = none)
    (hfree : ∀ s ∈ rows, s.status = .pending → s.type = r.type → s.subjectId ≠ r.subjectId) :
    Requests (rows ++ [r]) where
  ids := nodup_snoc h.ids hnew
  pendingOnce s hs s' hs' hp hp' htype hsubject := by
    rcases List.mem_append.1 hs with hold | hnewest
    · rcases List.mem_append.1 hs' with hold' | hnewest'
      · exact h.pendingOnce s hold s' hold' hp hp' htype hsubject
      · obtain rfl : s' = r := by simpa using hnewest'
        exact absurd hsubject (hfree s hold hp htype)
    · obtain rfl : s = r := by simpa using hnewest
      rcases List.mem_append.1 hs' with hold' | hnewest'
      · exact absurd hsubject.symm (hfree s' hold' hp' htype.symm)
      · obtain rfl : s' = s := by simpa using hnewest'
        rfl
  undecided s hs := by
    rcases List.mem_append.1 hs with hs | hs
    · exact h.undecided s hs
    · obtain rfl : s = r := by simpa using hs
      simp [hpending]
  decider s hs := by
    rcases List.mem_append.1 hs with hs | hs
    · exact h.decider s hs
    · obtain rfl : s = r := by simpa using hs
      simp [hpending]

theorem Requests.decide {f : ApprovalRow → ApprovalRow} {a : Uuid} (h : Requests rows)
    (hr : r ∈ rows) (hid : ∀ s, (f s).id = s.id) (hstatus : (f r).status ≠ .pending)
    (hdecider : (f r).decidedBy = some a) (hother : (f r).requestedBy ≠ a) :
    Requests (changeWhere (fun s => s.id == r.id) f rows) where
  ids := by
    rw [map_changeWhere hid]
    exact h.ids
  pendingOnce s hs s' hs' hp hp' := by
    rcases (mem_changeKey h.ids hr).1 hs with ⟨hs, -⟩ | rfl
    · rcases (mem_changeKey h.ids hr).1 hs' with ⟨hs', -⟩ | rfl
      · exact h.pendingOnce s hs s' hs' hp hp'
      · exact absurd hp' hstatus
    · exact absurd hp hstatus
  undecided s hs := by
    rcases (mem_changeKey h.ids hr).1 hs with ⟨hs, -⟩ | rfl
    · exact h.undecided s hs
    · simp [hstatus, hdecider]
  decider s hs := by
    rcases (mem_changeKey h.ids hr).1 hs with ⟨hs, -⟩ | rfl
    · exact h.decider s hs
    · simpa [hdecider] using Ne.symm hother

end Requests

/-! ## Effects -/

/-- What has been approved is what has been done, and it has been done once. -/
structure Applied (approved : ApprovalRow → Prop) (discounts : List DiscountRow)
    (payments : List PaymentRow) : Prop where
  discountFrom : ∀ x ∈ discounts, ∃ r, approved r ∧ r.id = x.approvalId ∧
    r.subjectId = x.invoiceId ∧ ∃ note, r.payload = .discount x.kind x.value x.reasonCode note
  discountOnce : (discounts.map DiscountRow.approvalId).Nodup
  discountMade : ∀ r, approved r → r.type = .discount → ∃ x ∈ discounts, x.approvalId = r.id
  voidFrom : ∀ p ∈ payments, p.status = .void →
    ∃ r, approved r ∧ r.type = .paymentVoid ∧ r.subjectId = p.id
  voidOnce : ∀ r r', approved r → approved r' → r.type = .paymentVoid → r'.type = .paymentVoid →
    r.subjectId = r'.subjectId → r = r'
  voidMade : ∀ r, approved r → r.type = .paymentVoid →
    ∃ p ∈ payments, p.id = r.subjectId ∧ p.status = .void

section Applied

variable {A A' : ApprovalRow → Prop} {discounts : List DiscountRow} {payments : List PaymentRow}
  {r : ApprovalRow}

theorem Applied.congr (h : Applied A discounts payments) (hA : ∀ s, A' s ↔ A s) :
    Applied A' discounts payments := by
  have heq : A' = A := funext fun s => propext (hA s)
  rw [heq]
  exact h

theorem Applied.post {p : PaymentRow} (h : Applied A discounts payments)
    (hp : p.status = .posted) : Applied A discounts (payments ++ [p]) where
  discountFrom := h.discountFrom
  discountOnce := h.discountOnce
  discountMade := h.discountMade
  voidFrom q hq hvoid := by
    rcases List.mem_append.1 hq with hq | hq
    · exact h.voidFrom q hq hvoid
    · obtain rfl : q = p := by simpa using hq
      simp [hp] at hvoid
  voidOnce := h.voidOnce
  voidMade s hs htype := by
    obtain ⟨q, hq, hboth⟩ := h.voidMade s hs htype
    exact ⟨q, List.mem_append_left _ hq, hboth⟩

theorem Applied.discount {x : DiscountRow} {note : String} (h : Applied A discounts payments)
    (hA : ∀ s, A' s ↔ A s ∨ s = r) (hpayload : r.payload = .discount x.kind x.value x.reasonCode note)
    (hid : r.id = x.approvalId) (hsubject : r.subjectId = x.invoiceId)
    (hnew : ∀ s, A s → s.id ≠ r.id) : Applied A' (discounts ++ [x]) payments := by
  have htype : r.type ≠ .paymentVoid := by simp [ApprovalRow.type, hpayload, Payload.type]
  constructor
  · intro y hy
    rcases List.mem_append.1 hy with hy | hy
    · obtain ⟨s, hs, hrest⟩ := h.discountFrom y hy
      exact ⟨s, (hA s).2 (.inl hs), hrest⟩
    · obtain rfl : y = x := by simpa using hy
      exact ⟨r, (hA r).2 (.inr rfl), hid, hsubject, note, hpayload⟩
  · apply nodup_snoc h.discountOnce
    intro y hy heq
    obtain ⟨s, hs, hsid, -⟩ := h.discountFrom y hy
    exact hnew s hs (hsid.trans (heq.trans hid.symm))
  · intro s hs hdiscount
    rcases (hA s).1 hs with hs | rfl
    · obtain ⟨y, hy, hyid⟩ := h.discountMade s hs hdiscount
      exact ⟨y, List.mem_append_left _ hy, hyid⟩
    · exact ⟨x, List.mem_append_right _ (List.mem_singleton_self x), hid.symm⟩
  · intro p hp hvoid
    obtain ⟨s, hs, hrest⟩ := h.voidFrom p hp hvoid
    exact ⟨s, (hA s).2 (.inl hs), hrest⟩
  · intro s s' hs hs' hst hst'
    rcases (hA s).1 hs with hs | rfl
    · rcases (hA s').1 hs' with hs' | rfl
      · exact h.voidOnce s s' hs hs' hst hst'
      · exact absurd hst' htype
    · exact absurd hst htype
  · intro s hs hst
    rcases (hA s).1 hs with hs | rfl
    · exact h.voidMade s hs hst
    · exact absurd hst htype

theorem Applied.void {f : PaymentRow → PaymentRow} {p : PaymentRow}
    (h : Applied A discounts payments) (hkeys : (payments.map PaymentRow.id).Nodup)
    (hA : ∀ s, A' s ↔ A s ∨ s = r) (htype : r.type = .paymentVoid) (hp : p ∈ payments)
    (hid : p.id = r.subjectId) (hposted : p.status = .posted) (hf : ∀ q, (f q).id = q.id)
    (hvoid : (f p).status = .void) :
    Applied A' discounts (changeWhere (fun q => q.id == p.id) f payments) := by
  have hkind : r.type ≠ .discount := by simp [htype]
  -- A payment that is still posted has no approved void.
  have hnone : ∀ s, A s → s.type = .paymentVoid → s.subjectId ≠ r.subjectId := by
    intro s hs hst heq
    obtain ⟨q, hq, hqid, hqvoid⟩ := h.voidMade s hs hst
    obtain rfl := eq_of_key_eq hkeys hq hp (hqid.trans (heq.trans hid.symm))
    simp [hposted] at hqvoid
  constructor
  · intro y hy
    obtain ⟨s, hs, hrest⟩ := h.discountFrom y hy
    exact ⟨s, (hA s).2 (.inl hs), hrest⟩
  · exact h.discountOnce
  · intro s hs hst
    rcases (hA s).1 hs with hs | rfl
    · exact h.discountMade s hs hst
    · exact absurd hst hkind
  · intro q hq hqvoid
    rcases (mem_changeKey hkeys hp).1 hq with ⟨hq, -⟩ | rfl
    · obtain ⟨s, hs, hrest⟩ := h.voidFrom q hq hqvoid
      exact ⟨s, (hA s).2 (.inl hs), hrest⟩
    · exact ⟨r, (hA r).2 (.inr rfl), htype, hid.symm.trans (hf p).symm⟩
  · intro s s' hs hs' hst hst' hsubject
    rcases (hA s).1 hs with hs | rfl
    · rcases (hA s').1 hs' with hs' | rfl
      · exact h.voidOnce s s' hs hs' hst hst' hsubject
      · exact absurd hsubject (hnone s hs hst)
    · rcases (hA s').1 hs' with hs' | rfl
      · exact absurd hsubject.symm (hnone s' hs' hst')
      · rfl
  · intro s hs hst
    rcases (hA s).1 hs with hs | rfl
    · obtain ⟨q, hq, hqid, hqvoid⟩ := h.voidMade s hs hst
      refine ⟨q, (mem_changeKey hkeys hp).2 (.inl ⟨hq, ?_⟩), hqid, hqvoid⟩
      intro heq
      exact hnone s hs hst (hqid.symm.trans (heq.trans hid))
    · exact ⟨f p, (mem_changeKey hkeys hp).2 (.inr rfl), (hf p).trans hid, hvoid⟩

end Applied

/-! ## The invariant and the guarantee -/

namespace Db

variable (d : Db)

def approved (r : ApprovalRow) : Prop := r ∈ d.approvalRequests ∧ r.status = .approved

end Db

structure CheckerInv (d : Db) : Prop where
  requests : Requests d.approvalRequests
  paymentIds : (d.payments.map PaymentRow.id).Nodup
  applied : Applied d.approved d.discounts d.payments

/-- What is fixed when a request is made; a decided row does not change at all. -/
structure ApprovalMoves (S : Set Lock) (r r' : ApprovalRow) : Prop where
  id : r'.id = r.id
  payload : r'.payload = r.payload
  subject : r'.subjectId = r.subjectId
  summary : r'.summary = r.summary
  reason : r'.reason = r.reason
  requester : r'.requestedBy = r.requestedBy
  change : r' = r ∨ .approval r.id ∈ S ∧ r.status = .pending ∧ r'.status ≠ .pending

structure PaymentMoves (S : Set Lock) (p p' : PaymentRow) : Prop where
  id : p'.id = p.id
  invoice : p'.invoiceId = p.invoiceId
  change : p' = p ∨ .invoice p.invoiceId ∈ S

theorem ApprovalMoves.refl {S : Set Lock} (r : ApprovalRow) : ApprovalMoves S r r :=
  ⟨rfl, rfl, rfl, rfl, rfl, rfl, .inl rfl⟩

theorem PaymentMoves.refl {S : Set Lock} (p : PaymentRow) : PaymentMoves S p p :=
  ⟨rfl, rfl, .inl rfl⟩

structure CheckerGuar (S : Set Lock) (d d' : Db) : Prop where
  approvals : Evolves (ApprovalMoves S)
    (fun r => .approval r.id ∈ S ∧ .pending r.type r.subjectId ∈ S)
    d.approvalRequests d'.approvalRequests
  payments : Evolves (PaymentMoves S) (fun p => .payment p.id ∈ S) d.payments d'.payments

/-- The rows the maker-checker rules are about. -/
def Db.checked (d : Db) : List ApprovalRow × List DiscountRow × List PaymentRow :=
  (d.approvalRequests, d.discounts, d.payments)

theorem CheckerInv.of_checked {d d' : Db} (h : CheckerInv d) (heq : d'.checked = d.checked) :
    CheckerInv d' := by
  simp only [Db.checked, Prod.mk.injEq] at heq
  obtain ⟨hrequests, hdiscounts, hpayments⟩ := heq
  refine ⟨hrequests ▸ h.requests, hpayments ▸ h.paymentIds, ?_⟩
  rw [hdiscounts, hpayments]
  apply h.applied.congr
  simp [Db.approved, hrequests]

theorem CheckerGuar.of_checked {S : Set Lock} {d d₁ d₂ : Db} (h : CheckerGuar S d d₁)
    (heq : d₂.checked = d₁.checked) : CheckerGuar S d d₂ := by
  simp only [Db.checked, Prod.mk.injEq] at heq
  obtain ⟨hrequests, -, hpayments⟩ := heq
  exact ⟨hrequests ▸ h.approvals, hpayments ▸ h.payments⟩

theorem CheckerGuar.refl {S : Set Lock} {d : Db} : CheckerGuar S d d :=
  ⟨.refl .refl, .refl .refl⟩

def checkerProtocol : Protocol Db Lock where
  Inv := CheckerInv
  Guar := CheckerGuar

/-! ## What the others leave alone -/

section Rely

variable {S : Set Lock} {d d' : Db}

/-- The holder of a request's row lock is the only one to decide it. -/
theorem rely_approval {r : ApprovalRow} (hlock : .approval r.id ∈ S)
    (hr : checkerProtocol.Rely S d d') (hmem : r ∈ d.approvalRequests) :
    r ∈ d'.approvalRequests := by
  refine hr.stable (φ := fun d => r ∈ d.approvalRequests) ?_ hmem
  rintro d₁ d₂ ⟨-, T, hdisj, hguar⟩ hmem
  obtain ⟨r', hr', hmoves⟩ := hguar.approvals.kept r hmem
  rcases hmoves.change with rfl | ⟨hT, -⟩
  · exact hr'
  · exact absurd hT (Set.disjoint_left.1 hdisj hlock)

theorem rely_noApproval {id : Uuid} (hlock : .approval id ∈ S) (hr : checkerProtocol.Rely S d d')
    (hnone : ∀ r ∈ d.approvalRequests, r.id ≠ id) : ∀ r ∈ d'.approvalRequests, r.id ≠ id := by
  refine hr.stable (φ := fun d => ∀ r ∈ d.approvalRequests, r.id ≠ id) ?_ hnone
  rintro d₁ d₂ ⟨-, T, hdisj, hguar⟩ hnone r' hr' rfl
  rcases hguar.approvals.made r' hr' with ⟨r, hr, hmoves⟩ | ⟨hT, -⟩
  · exact hnone r hr hmoves.id.symm
  · exact Set.disjoint_left.1 hdisj hlock hT

theorem rely_noPending {type : ApprovalType} {subject : Uuid} (hlock : .pending type subject ∈ S)
    (hr : checkerProtocol.Rely S d d')
    (hnone : ∀ r ∈ d.approvalRequests, r.status = .pending → r.type = type → r.subjectId ≠ subject) :
    ∀ r ∈ d'.approvalRequests, r.status = .pending → r.type = type → r.subjectId ≠ subject := by
  refine hr.stable (φ := fun d => ∀ r ∈ d.approvalRequests, r.status = .pending →
    r.type = type → r.subjectId ≠ subject) ?_ hnone
  rintro d₁ d₂ ⟨-, T, hdisj, hguar⟩ hnone r' hr' hpending rfl rfl
  rcases hguar.approvals.made r' hr' with ⟨r, hr, hmoves⟩ | ⟨-, hT⟩
  · rcases hmoves.change with rfl | ⟨-, -, hdecided⟩
    · exact hnone r' hr hpending rfl rfl
    · exact hdecided hpending
  · exact Set.disjoint_left.1 hdisj hlock hT

/-- The holder of an invoice's lock is the only one to change its payments. -/
theorem rely_payment {p : PaymentRow} (hlock : .invoice p.invoiceId ∈ S)
    (hr : checkerProtocol.Rely S d d') (hmem : p ∈ d.payments) : p ∈ d'.payments := by
  refine hr.stable (φ := fun d => p ∈ d.payments) ?_ hmem
  rintro d₁ d₂ ⟨-, T, hdisj, hguar⟩ hmem
  obtain ⟨p', hp', hmoves⟩ := hguar.payments.kept p hmem
  rcases hmoves.change with rfl | hT
  · exact hp'
  · exact absurd hT (Set.disjoint_left.1 hdisj hlock)

theorem rely_noPayment {id : Uuid} (hlock : .payment id ∈ S) (hr : checkerProtocol.Rely S d d')
    (hnone : ∀ p ∈ d.payments, p.id ≠ id) : ∀ p ∈ d'.payments, p.id ≠ id := by
  refine hr.stable (φ := fun d => ∀ p ∈ d.payments, p.id ≠ id) ?_ hnone
  rintro d₁ d₂ ⟨-, T, hdisj, hguar⟩ hnone p' hp' rfl
  rcases hguar.payments.made p' hp' with ⟨p, hp, hmoves⟩ | hT
  · exact hnone p hp hmoves.id.symm
  · exact Set.disjoint_left.1 hdisj hlock hT

/-- A payment stays on its invoice. -/
theorem rely_invoiceId {id invoiceId : Uuid} (hr : checkerProtocol.Rely S d d')
    (h : ∃ p ∈ d.payments, p.id = id ∧ p.invoiceId = invoiceId) :
    ∃ p ∈ d'.payments, p.id = id ∧ p.invoiceId = invoiceId := by
  refine hr.stable (φ := fun d => ∃ p ∈ d.payments, p.id = id ∧ p.invoiceId = invoiceId) ?_ h
  rintro d₁ d₂ ⟨-, T, -, hguar⟩ ⟨p, hp, hid, hinvoice⟩
  obtain ⟨p', hp', hmoves⟩ := hguar.payments.kept p hp
  exact ⟨p', hp', hmoves.id.trans hid, hmoves.invoice.trans hinvoice⟩

end Rely

end Emis.Billing
