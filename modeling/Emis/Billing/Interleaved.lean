import Emis.Billing.Frames

/-!
# Maker-checker in every interleaving

Each request of the billing services keeps to the maker-checker protocol, so
every interleaving of them does.
-/

namespace Emis.Billing

open Transactions Protocol ApprovalsService

variable {S : Set Lock} {f : Db → Db} {d : Db}

theorem wp_enforce {K : Unit → Set Lock → (Db → Db) → Db → Prop} {X : Error → Set Lock → Db → Prop}
    (v : Option Violation) :
    checkerProtocol.wp K X (enforce v) S f d ↔
      (v = none → K () S f d) ∧ ∀ x, v = some x → X (.database x) S d := by
  cases v <;> simp [enforce]

/-! ## Asking -/

/-- One request more, and nothing else. -/
def Asked (payload : Payload → Prop) (subjectId : Uuid) (actor : Actor) (d d' : Db) : Prop :=
  ∃ r : ApprovalRow, r.status = .pending ∧ payload r.payload ∧ r.subjectId = subjectId ∧
    r.requestedBy = actor.userId ∧
    d' = { d with approvalRequests := d.approvalRequests ++ [r] }

theorem inv_of_request {r : ApprovalRow} (hd : CheckerInv d)
    (hpending : r.status = .pending ∧ r.decidedBy = none)
    (hnew : ∀ s ∈ d.approvalRequests, s.id ≠ r.id)
    (hfree : ∀ s ∈ d.approvalRequests, s.status = .pending → s.type = r.type →
      s.subjectId ≠ r.subjectId) :
    CheckerInv { d with approvalRequests := d.approvalRequests ++ [r] } where
  requests := hd.requests.insert hnew hpending hfree
  paymentIds := hd.paymentIds
  applied := by
    apply hd.applied.congr
    intro s
    simp only [Db.approved, List.mem_append, List.mem_singleton]
    constructor
    · rintro ⟨hs | rfl, happroved⟩
      · exact ⟨hs, happroved⟩
      · simp [hpending] at happroved
    · rintro ⟨hs, happroved⟩
      exact ⟨.inl hs, happroved⟩

theorem create_safe (env : Env) (payload : Payload) (subjectId : Uuid) (summary reason : String)
    (actor : Actor) :
    checkerProtocol.wp
      (checkerProtocol.Done fun _ => Asked (fun p => p = payload) subjectId actor) Anyway
      (create env payload subjectId summary reason actor) S id d := by
  have hcheck : checkApproval (⟨env.newId 0, payload, .pending, subjectId, summary, reason,
      actor.userId, none, none, none, 1⟩ : ApprovalRow) = none := by simp [checkApproval]
  simp only [create, insertApproval, wp_bind, wp_enforce, wp_acquire, wp_get, wp_require, wp_modify,
    wp_pure, hcheck, implies_true, and_true, forall_const]
  intro d₁ _ _ d₂ hr₂ hi₂ d₃ hr₃ hi₃ hfree d' hr' hi'
  set row : ApprovalRow := ⟨env.newId 0, payload, .pending, subjectId, summary, reason,
    actor.userId, none, none, none, 1⟩ with hrow
  have hrows : ∀ s ∈ d₃.approvalRequests, s.id ≠ row.id ∧
      (s.status = .pending → s.type = row.type → s.subjectId ≠ row.subjectId) := by
    intro s hs
    simp only [Bool.not_eq_true', List.any_eq_false] at hfree
    have hnot := hfree s hs
    simp only [Bool.or_eq_true, Bool.and_eq_true, beq_iff_eq, not_or, not_and] at hnot
    exact ⟨hnot.1, fun hpending htype => hnot.2 ⟨hpending, htype⟩⟩
  have hnew := rely_noApproval (.inr (Set.mem_insert _ _)) hr' fun s hs => (hrows s hs).1
  have hnone := rely_noPending (Set.mem_insert _ _) hr' fun s hs => (hrows s hs).2
  refine ⟨⟨.snoc .refl ⟨.inr (Set.mem_insert _ _), Set.mem_insert _ _⟩, .refl .refl⟩,
    inv_of_request hi' ⟨rfl, rfl⟩ hnew hnone, row, rfl, rfl, rfl, rfl, rfl⟩

theorem requestDiscount_safe (env : Env) (invoiceId : Uuid) (input : RequestDiscountValues)
    (grants : List Grant) (actor : Actor) :
    checkerProtocol.wp (checkerProtocol.Done fun _ =>
        Asked (fun p => p = .discount input.kind input.value input.reasonCode input.note)
          invoiceId actor) Anyway
      (requestDiscount env invoiceId input grants actor) ∅ id d := by
  simp only [requestDiscount, InvoicesService.row, assertScope, wp_bind, wp_get, wp_expect,
    wp_require, implies_true, and_true]
  intro d₁ _ _ invoice _ _ _ d₂ _ _ _ _ _
  exact create_safe env _ invoiceId _ _ actor

theorem requestVoid_safe (env : Env) (paymentId : Uuid) (reason : String) (grants : List Grant)
    (actor : Actor) :
    checkerProtocol.wp (checkerProtocol.Done fun _ =>
        Asked (fun p => p.type = .paymentVoid) paymentId actor) Anyway
      (requestVoid env paymentId reason grants actor) ∅ id d := by
  simp only [requestVoid, PaymentsService.row, assertScope, wp_bind, wp_get, wp_expect, wp_require,
    implies_true, and_true]
  intro d₁ _ hi₁ payment _ _ _
  apply wp_of_silent (keeps_paymentView _) hi₁
  intro view S₂ d₂ _ _ _
  refine wp_mono (fun a S f d hdone d' hr hi => ?_) (fun _ _ _ h => h)
    (create_safe env _ paymentId _ _ actor)
  obtain ⟨hguar, hinv, r, hpending, hpayload, hrest⟩ := hdone d' hr hi
  exact ⟨hguar, hinv, r, hpending, by rw [hpayload]; rfl, hrest⟩

/-! ## The effects -/

section Effects

variable {K : Unit → Set Lock → (Db → Db) → Db → Prop} {X : Error → Set Lock → Db → Prop}

/-- What a discount writes, but for the invoice and its instalments. -/
def Discounted (request : ApprovalRow) (kind : DiscountKind) (value : ℤ) (reasonCode : String)
    (g : Db → Db) : Prop :=
  ∃ x : DiscountRow, x.invoiceId = request.subjectId ∧ x.kind = kind ∧ x.value = value ∧
    x.reasonCode = reasonCode ∧ x.approvalId = request.id ∧
    ∀ d, (g d).others = { d with discounts := d.discounts ++ [x] }.others

theorem wp_applyDiscount (env : Env) (request : ApprovalRow) (kind : DiscountKind) (value : ℤ)
    (reasonCode : String)
    (hK : ∀ S' g d', S ⊆ S' → checkerProtocol.Rely S d d' → CheckerInv d' →
      Discounted request kind value reasonCode g → K () S' g d')
    (hX : ∀ e S' d', S ⊆ S' → checkerProtocol.Rely S d d' → CheckerInv d' → X e S' d') :
    checkerProtocol.wp K X (InvoicesService.applyDiscount env request.subjectId
      ⟨kind, value, reasonCode, request.id⟩) S id d := by
  set S₁ : Set Lock := insert (.invoice request.subjectId) S with hS₁
  have hsub₁ : S ⊆ S₁ := Set.subset_insert _ _
  simp only [InvoicesService.applyDiscount, InvoicesService.lock, InvoicesService.installmentsOf,
    wp_bind, wp_acquire, wp_get, wp_expect, wp_require, wp_pure, wp_ofExcept]
  intro d₁ hr₁ _ d₂ hr₂ hi₂
  have hr₂' : checkerProtocol.Rely S d d₂ := hr₁.trans (hr₂.anti hsub₁)
  refine ⟨fun invoice _ => ⟨fun _ d₃ hr₃ hi₃ => ?_, fun _ => hX _ _ _ hsub₁ hr₂' hi₂⟩,
    fun _ => hX _ _ _ hsub₁ hr₂' hi₂⟩
  have hr₃' : checkerProtocol.Rely S d d₃ := hr₂'.trans (hr₃.anti hsub₁)
  have hblame₃ : ∀ e, X e S₁ d₃ := fun e => hX e _ _ hsub₁ hr₃' hi₃
  refine ⟨fun _ => ⟨fun _ => ⟨fun cuts _ => ?_, fun e _ => hblame₃ e⟩, fun _ => hblame₃ _⟩,
    fun _ => hblame₃ _⟩
  have hloop : (cuts.forM fun c => updateInstallment c.installmentId
      (InvoicesService.setAmount c.newAmount)).Keeps Db.others :=
    .forM _ fun _ => keeps_updateInstallment _ _ fun _ => rfl
  refine wp_of_keeps hloop hi₃ (fun _ S₄ g₄ d₄ hS₄ hg₄ hr₄ hi₄ => ?_) fun e S' d' hS' hr' hi' =>
    hX e S' d' (hsub₁.trans hS') (hr₃'.trans (hr'.anti hsub₁)) hi'
  have hr₄' : checkerProtocol.Rely S d d₄ := hr₃'.trans (hr₄.anti hsub₁)
  have hsub₄ : S ⊆ S₄ := hsub₁.trans hS₄
  set x : DiscountRow := ⟨env.newId 0, request.subjectId, kind, value,
    discountAmount kind value invoice.total, reasonCode, request.id⟩ with hx
  set S₅ : Set Lock := insert (.discount x.id) S₄
  have hsub₅ : S ⊆ S₅ := hsub₄.trans (Set.subset_insert _ _)
  simp only [insertDiscount, wp_bind, wp_enforce, wp_acquire, wp_get, wp_require, wp_modify]
  refine ⟨fun _ d₅ hr₅ _ d₆ hr₆ hi₆ => ?_, fun _ _ => hX _ _ _ hsub₄ hr₄' hi₄⟩
  have hr₆' : checkerProtocol.Rely S d d₆ :=
    hr₄'.trans ((hr₅.anti hsub₄).trans (hr₆.anti hsub₅))
  refine ⟨fun _ => ?_, fun _ => hX _ _ _ hsub₅ hr₆' hi₆⟩
  refine wp_of_keeps (keeps_settle (φ := Db.others) _ fun _ _ _ => rfl) hi₆
    (fun _ S₇ g₇ d₇ hS₇ hg₇ hr₇ hi₇ => ?_) fun e S' d' hS' hr' hi' =>
      hX e S' d' (hsub₅.trans hS') (hr₆'.trans (hr'.anti hsub₅)) hi'
  apply hK _ _ _ (hsub₅.trans hS₇) (hr₆'.trans (hr₇.anti hsub₅)) hi₇
  refine ⟨x, rfl, rfl, rfl, rfl, rfl, fun s => ?_⟩
  have hstep : ({ g₄ s with discounts := (g₄ s).discounts ++ [x] } : Db).others =
      { (g₄ s).others with discounts := (g₄ s).others.discounts ++ [x] } := rfl
  refine (hg₇ _).trans (hstep.trans ?_)
  rw [hg₄]
  rfl

/-- What a void writes, but for the invoice and its instalments. -/
def Voided (env : Env) (p : PaymentRow) (g : Db → Db) : Prop :=
  ∀ d, (g d).others =
    { d with
      payments := changeWhere (fun r => r.id == p.id) (PaymentsService.voidedRow env p) d.payments
      receipts := changeWhere (fun r => r.paymentId == p.id) (PaymentsService.voidedReceipt env)
        d.receipts }.others

theorem wp_voidPayment (env : Env) (paymentId : Uuid)
    (hK : ∀ p S' g d', S ⊆ S' → checkerProtocol.Rely S d d' → CheckerInv d' →
      .invoice p.invoiceId ∈ S' → p ∈ d'.payments → p.id = paymentId → p.status = .posted →
      Voided env p g → K () S' g d')
    (hX : ∀ e S' d', S ⊆ S' → checkerProtocol.Rely S d d' → CheckerInv d' → X e S' d') :
    checkerProtocol.wp K X (PaymentsService.voidPayment env paymentId) S id d := by
  simp only [PaymentsService.voidPayment, PaymentsService.row, InvoicesService.lock,
    wp_bind, wp_acquire, wp_get, wp_expect, wp_require]
  intro d₁ hr₁ hi₁
  refine ⟨fun found hfound d₂ hr₂ hi₂ d₃ hr₃ hi₃ => ?_, fun _ => hX _ _ _ subset_rfl hr₁ hi₁⟩
  set S₁ : Set Lock := insert (.invoice found.invoiceId) S with hS₁
  have hsub₁ : S ⊆ S₁ := Set.subset_insert _ _
  have hr₃' : checkerProtocol.Rely S d d₃ := (hr₁.trans hr₂).trans (hr₃.anti hsub₁)
  refine ⟨fun invoice _ d₄ hr₄ hi₄ => ?_, fun _ => hX _ _ _ hsub₁ hr₃' hi₃⟩
  have hr₄' : checkerProtocol.Rely S d d₄ := hr₃'.trans (hr₄.anti hsub₁)
  refine ⟨fun p hp => ⟨fun hposted d₅ hr₅ hi₅ => ?_, fun _ => hX _ _ _ hsub₁ hr₄' hi₄⟩,
    fun _ => hX _ _ _ hsub₁ hr₄' hi₄⟩
  have hr₅' : checkerProtocol.Rely S d d₅ := hr₄'.trans (hr₅.anti hsub₁)
  have hposted : p.status = .posted := by simpa using hposted
  have hpmem : p ∈ d₄.payments := List.mem_of_find?_eq_some hp
  have hpid : p.id = paymentId := by simpa using List.find?_some hp
  -- The payment read under the lock is on the invoice that was locked.
  have hpinvoice : p.invoiceId = found.invoiceId := by
    have hfirst : ∃ q ∈ d₁.payments, q.id = paymentId ∧ q.invoiceId = found.invoiceId :=
      ⟨found, List.mem_of_find?_eq_some hfound, by simpa using List.find?_some hfound, rfl⟩
    have hsame := rely_invoiceId ((hr₂.trans (hr₃.anti hsub₁)).trans (hr₄.anti hsub₁)) hfirst
    obtain ⟨q, hq, hqid, hqinvoice⟩ := hsame
    obtain rfl := eq_of_key_eq hi₄.paymentIds hq hpmem (hqid.trans hpid.symm)
    exact hqinvoice
  have hlock : .invoice p.invoiceId ∈ S₁ := hpinvoice ▸ Set.mem_insert _ _
  have hloop : ((d₅.paymentAllocations.filter fun a => a.paymentId == paymentId).forM fun a =>
      updateInstallment a.installmentId (PaymentsService.addPaid (-a.amount))).Keeps Db.others :=
    .forM _ fun _ => keeps_updateInstallment _ _ fun _ => rfl
  refine wp_of_keeps hloop hi₅ (fun _ S₆ g₆ d₆ hS₆ hg₆ hr₆ hi₆ => ?_) fun e S' d' hS' hr' hi' =>
    hX e S' d' (hsub₁.trans hS') (hr₅'.trans (hr'.anti hsub₁)) hi'
  have hr₆' : checkerProtocol.Rely S d d₆ := hr₅'.trans (hr₆.anti hsub₁)
  set S₇ : Set Lock := insert (.payment paymentId) S₆
  have hsub₆ : S ⊆ S₆ := hsub₁.trans hS₆
  have hsub₇ : S ⊆ S₇ := hsub₆.trans (Set.subset_insert _ _)
  simp only [updatePayment, updateReceipt, wp_bind, wp_enforce, wp_acquire, wp_get, wp_modify]
  intro d₇ hr₇ _ d₈ hr₈ hi₈
  have hr₈' : checkerProtocol.Rely S d d₈ :=
    hr₆'.trans ((hr₇.anti hsub₆).trans (hr₈.anti hsub₇))
  refine ⟨fun _ d₉ hr₉ hi₉ => ?_, fun _ _ => hX _ _ _ hsub₇ hr₈' hi₈⟩
  set S₉ : Set Lock := insert (.receipt paymentId) S₇
  have hsub₉ : S ⊆ S₉ := hsub₇.trans (Set.subset_insert _ _)
  have hS₁₉ : S₁ ⊆ S₉ := (hS₆.trans (Set.subset_insert _ _)).trans (Set.subset_insert _ _)
  have hr₉' : checkerProtocol.Rely S d d₉ := hr₈'.trans (hr₉.anti hsub₇)
  refine wp_of_keeps (keeps_settle (φ := Db.others) _ fun _ _ _ => rfl) hi₉
    (fun _ S₀ g₀ d' hS₀ hg₀ hr₀ hi' => ?_) fun e S' d' hS' hr' hi' =>
      hX e S' d' (hsub₉.trans hS') (hr₉'.trans (hr'.anti hsub₉)) hi'
  have hkept : p ∈ d'.payments := by
    have hsub : S₁ ⊆ S₆ := hS₆
    have hr : checkerProtocol.Rely S₁ d₄ d' := by
      refine hr₅.trans (hr₆.trans ((hr₇.anti hS₆).trans ?_))
      have hS₁₇ : S₁ ⊆ S₇ := hS₆.trans (Set.subset_insert _ _)
      exact (hr₈.anti hS₁₇).trans ((hr₉.anti hS₁₇).trans (hr₀.anti hS₁₉))
    exact rely_payment hlock hr hpmem
  apply hK p _ _ _ (hsub₉.trans hS₀) (hr₉'.trans (hr₀.anti hsub₉)) hi' (hS₀ (hS₁₉ hlock)) hkept hpid
    hposted
  intro s
  have hstep : ∀ t : Db, ({ t with
      payments := changeWhere (fun r => r.id == paymentId) (PaymentsService.voidedRow env p)
        t.payments
      receipts := changeWhere (fun r => r.paymentId == paymentId)
        (PaymentsService.voidedReceipt env) t.receipts } : Db).others =
      { t.others with
        payments := changeWhere (fun r => r.id == paymentId) (PaymentsService.voidedRow env p)
          t.others.payments
        receipts := changeWhere (fun r => r.paymentId == paymentId)
          (PaymentsService.voidedReceipt env) t.others.receipts } := fun _ => rfl
  refine (hg₀ _).trans ((hstep (g₆ s)).trans ?_)
  rw [hg₆, hpid]
  rfl

end Effects

/-! ## Deciding -/

/-- The request as a decision leaves it. -/
def decision (env : Env) (input : DecideApprovalValues) (actor : Actor) (r : ApprovalRow) :
    ApprovalRow :=
  { decidedRow env input actor r with version := r.version + 1 }

/-- The requests after one has been decided. -/
def Db.decide (env : Env) (id : Uuid) (input : DecideApprovalValues) (actor : Actor) (d : Db) :
    Db :=
  { d with
    approvalRequests := changeWhere (fun r => r.id == id) (decision env input actor)
      d.approvalRequests }

/-- The change an approved request asked for, and no other but for the totals of
the invoice and its instalments. -/
def Effect (env : Env) (r : ApprovalRow) (d d' : Db) : Prop :=
  match r.payload with
  | .discount kind value reasonCode _ => ∃ x : DiscountRow,
      x.invoiceId = r.subjectId ∧ x.kind = kind ∧ x.value = value ∧ x.reasonCode = reasonCode ∧
        x.approvalId = r.id ∧ d'.others = { d with discounts := d.discounts ++ [x] }.others
  | .paymentVoid _ _ => ∃ p ∈ d.payments, p.id = r.subjectId ∧ p.status = .posted ∧
      d'.others =
        { d with
          payments := changeWhere (fun q => q.id == p.id) (PaymentsService.voidedRow env p)
            d.payments
          receipts := changeWhere (fun q => q.paymentId == p.id)
            (PaymentsService.voidedReceipt env) d.receipts }.others

/-- A pending request of somebody else has been decided; only an approval has an
effect. -/
def Decided (env : Env) (id : Uuid) (input : DecideApprovalValues) (actor : Actor) (d d' : Db) :
    Prop :=
  ∃ r ∈ d.approvalRequests, r.id = id ∧ r.status = .pending ∧ r.requestedBy ≠ actor.userId ∧
    ∃ d₁, d' = d₁.decide env id input actor ∧
      match input.decision with
      | .approve => Effect env r d d₁
      | .reject => d₁ = d

section Decision

variable {env : Env} {input : DecideApprovalValues} {actor : Actor} {r : ApprovalRow}

theorem decision_status : (decision env input actor r).status ≠ .pending := by
  unfold decision decidedRow
  cases input.decision <;> simp

theorem guar_decide (hd : CheckerInv d) (hr : r ∈ d.approvalRequests) (hpending : r.status = .pending)
    (hlock : .approval r.id ∈ S) : Evolves (ApprovalMoves S)
      (fun r => .approval r.id ∈ S ∧ .pending r.type r.subjectId ∈ S) d.approvalRequests
      (d.decide env r.id input actor).approvalRequests := by
  apply Evolves.changeWhere .refl
  intro s hs hid
  obtain rfl : s = r := eq_of_key_eq hd.requests.ids hs hr (by simpa using hid)
  exact ⟨rfl, rfl, rfl, rfl, rfl, rfl, .inr ⟨hlock, hpending, decision_status⟩⟩

theorem requests_decide (hd : CheckerInv d) (hr : r ∈ d.approvalRequests)
    (hother : r.requestedBy ≠ actor.userId) :
    Requests (d.decide env r.id input actor).approvalRequests :=
  hd.requests.decide hr (fun _ => rfl) decision_status rfl hother

/-- The request decided is approved now if that was the decision; the others are
what they were. -/
theorem approved_decide (hd : CheckerInv d) (hr : r ∈ d.approvalRequests)
    (hpending : r.status = .pending) (s : ApprovalRow) :
    (d.decide env r.id input actor).approved s ↔
      d.approved s ∨ s = decision env input actor r ∧ input.decision = .approve := by
  have hmem := @mem_changeKey _ _ ApprovalRow.id _ _ _ hd.requests.ids _ hr
    (decision env input actor) s
  constructor
  · rintro ⟨hs, happroved⟩
    rcases hmem.1 hs with ⟨hs, -⟩ | rfl
    · exact .inl ⟨hs, happroved⟩
    · right
      refine ⟨rfl, ?_⟩
      unfold decision decidedRow at happroved
      cases hdecision : input.decision with
      | approve => rfl
      | reject => simp [hdecision] at happroved
  · rintro (⟨hs, happroved⟩ | ⟨rfl, hdecision⟩)
    · refine ⟨hmem.2 (.inl ⟨hs, fun hid => ?_⟩), happroved⟩
      obtain rfl := eq_of_key_eq hd.requests.ids hs hr hid
      simp [hpending] at happroved
    · refine ⟨hmem.2 (.inr rfl), ?_⟩
      unfold decision decidedRow
      simp [hdecision]

theorem approved_ne (hd : CheckerInv d) (hr : r ∈ d.approvalRequests) (hpending : r.status = .pending)
    {s : ApprovalRow} (hs : d.approved s) : s.id ≠ r.id := by
  intro hid
  obtain rfl := eq_of_key_eq hd.requests.ids hs.1 hr hid
  have happroved := hs.2
  simp [hpending] at happroved

theorem checked_of_others {d d' : Db} (h : d'.others = d.others) : d'.checked = d.checked := by
  have hchecked : d'.others.checked = d.others.checked := by rw [h]
  exact hchecked

/-- A decision may be committed by the holder of the request's lock, with the
effect it has. -/
theorem safe_of_decision {d₁ : Db} (hd : CheckerInv d) (hr : r ∈ d.approvalRequests)
    (hpending : r.status = .pending) (hother : r.requestedBy ≠ actor.userId)
    (hlock : .approval r.id ∈ S)
    (hpayment : ∀ p ∈ d.payments, p.id = r.subjectId → r.type = .paymentVoid →
      input.decision = .approve → .invoice p.invoiceId ∈ S)
    (heffect : match input.decision with
      | .approve => Effect env r d d₁
      | .reject => d₁ = d) :
    CheckerGuar S d (d₁.decide env r.id input actor) ∧
      CheckerInv (d₁.decide env r.id input actor) := by
  have hrequests := @guar_decide S d env input actor r hd hr hpending hlock
  have hdecided := @requests_decide d env input actor r hd hr hother
  have happroved := @approved_decide d env input actor r hd hr hpending
  -- It is enough to look at the tables that are checked.
  have hgoal : ∀ d₂ : Db, d₁.checked = d₂.checked →
      CheckerGuar S d (d₂.decide env r.id input actor) ∧
        CheckerInv (d₂.decide env r.id input actor) →
      CheckerGuar S d (d₁.decide env r.id input actor) ∧
        CheckerInv (d₁.decide env r.id input actor) := by
    intro d₂ hchecked ⟨hguar, hinv⟩
    have hsame : (d₁.decide env r.id input actor).checked =
        (d₂.decide env r.id input actor).checked := by
      simp only [Db.checked, Prod.mk.injEq] at hchecked
      simp only [Db.checked, Db.decide, hchecked]
    exact ⟨hguar.of_checked hsame, hinv.of_checked hsame⟩
  cases hdecision : input.decision with
  | reject =>
      rw [hdecision] at heffect
      obtain rfl : d₁ = d := heffect
      refine ⟨⟨hrequests, .refl .refl⟩, hdecided, hd.paymentIds, ?_⟩
      apply hd.applied.congr
      intro s
      rw [happroved s, hdecision]
      simp
  | approve =>
      have hadded : ∀ s, (d.decide env r.id input actor).approved s ↔
          d.approved s ∨ s = decision env input actor r := by
        intro s
        rw [happroved s, hdecision]
        simp
      rw [hdecision] at heffect
      unfold Effect at heffect
      cases hpayload : r.payload with
      | discount kind value reasonCode note =>
          rw [hpayload] at heffect
          obtain ⟨x, hinvoice, rfl, rfl, rfl, hid, hothers⟩ := heffect
          apply hgoal _ (checked_of_others hothers)
          refine ⟨⟨hrequests, .refl .refl⟩, hdecided, hd.paymentIds, ?_⟩
          exact hd.applied.discount hadded hpayload hid.symm hinvoice.symm
            fun s hs => approved_ne hd hr hpending hs
      | paymentVoid receiptNumber amount =>
          rw [hpayload] at heffect
          obtain ⟨p, hp, hid, hposted, hothers⟩ := heffect
          have htype : r.type = .paymentVoid := by simp [ApprovalRow.type, hpayload, Payload.type]
          apply hgoal _ (checked_of_others hothers)
          refine ⟨⟨hrequests, ?_⟩, hdecided, ?_, ?_⟩
          · apply Evolves.changeWhere .refl
            intro q hq hqid
            obtain rfl : q = p := eq_of_key_eq hd.paymentIds hq hp (by simpa using hqid)
            exact ⟨rfl, rfl, .inr (hpayment q hp hid htype hdecision)⟩
          · have hkeys : (changeWhere (fun q => q.id == p.id) (PaymentsService.voidedRow env p)
                d.payments).map PaymentRow.id = d.payments.map PaymentRow.id :=
              map_changeWhere fun _ => rfl
            change (List.map PaymentRow.id (changeWhere _ _ _)).Nodup
            rw [hkeys]
            exact hd.paymentIds
          · exact hd.applied.void hd.paymentIds hadded htype hp hid hposted (fun _ => rfl) rfl

/-- After a decision that failed the request waits as before, if it was there and
had not been decided already. -/
def Undecided (id : Uuid) (e : Error) (d : Db) : Prop :=
  e = billingErrors.approvalNotFound ∧ (∀ r ∈ d.approvalRequests, r.id ≠ id) ∨
    e = billingErrors.approvalDecided ∧ (∃ r ∈ d.approvalRequests, r.id = id ∧ r.status ≠ .pending) ∨
      ∃ r ∈ d.approvalRequests, r.id = id ∧ r.status = .pending

theorem undecided_of_pending (hlock : .approval r.id ∈ S) (hr : r ∈ d.approvalRequests)
    (hpending : r.status = .pending) (e : Error) :
    checkerProtocol.Failed (Undecided r.id) e S d :=
  fun _ hrely _ => .inr (.inr ⟨r, rely_approval hlock hrely hr, rfl, hpending⟩)

theorem wp_updateApproval {g : Db → Db} (hlock : .approval r.id ∈ S) (hr : r ∈ d.approvalRequests)
    (hpending : r.status = .pending) (hother : r.requestedBy ≠ actor.userId)
    (heffect : ∀ d', checkerProtocol.Rely S d d' → CheckerInv d' →
      (∀ p ∈ d'.payments, p.id = r.subjectId → r.type = .paymentVoid →
        input.decision = .approve → .invoice p.invoiceId ∈ S) ∧
      match input.decision with
      | .approve => Effect env r d' (g d')
      | .reject => g d' = d') :
    checkerProtocol.wp (checkerProtocol.Done fun _ => Decided env r.id input actor)
      (checkerProtocol.Failed (Undecided r.id))
      (updateApproval r.id r.version (decidedRow env input actor)) S g d := by
  have hsub : S ⊆ insert (.approval r.id) S := Set.subset_insert _ _
  have hblame : ∀ e S' d', S ⊆ S' → checkerProtocol.Rely S d d' →
      checkerProtocol.Failed (Undecided r.id) e S' d' := fun e S' d' hS hrely =>
    undecided_of_pending (hS hlock) (rely_approval hlock hrely hr) hpending e
  simp only [updateApproval, wp_bind, wp_acquire, wp_get, wp_enforce]
  intro d₁ hr₁ _ d₂ hr₂ _
  have hr₂' : checkerProtocol.Rely S d d₂ := hr₁.trans (hr₂.anti hsub)
  constructor
  · intro _
    refine wp_versioned approvalsTable (fun d₃ d₄ row hr₃ _ _ hr₄ _ _ d' hr' hi' => ?_)
      fun e S' d' _ hS hrely _ => hblame e S' d' (hsub.trans hS) (hr₂'.trans (hrely.anti hsub))
    have hr₄' : checkerProtocol.Rely S d d₄ := hr₂'.trans
      ((hr₃.anti hsub).trans (hr₄.anti (hsub.trans (Set.subset_insert _ _))))
    have hall : checkerProtocol.Rely S d d' :=
      hr₄'.trans (hr'.anti (hsub.trans (Set.subset_insert _ _)))
    have hr' : r ∈ d'.approvalRequests := rely_approval hlock hall hr
    obtain ⟨hpayment, hwrites⟩ := heffect d' hall hi'
    have hS : S ⊆ insert (approvalsTable.rowLock r.id) (insert (.approval r.id) S) :=
      hsub.trans (Set.subset_insert _ _)
    obtain ⟨hguar, hinv⟩ := safe_of_decision hi' hr' hpending hother (hS hlock)
      (fun p hp hid htype hdecision => hS (hpayment p hp hid htype hdecision)) hwrites
    exact ⟨hguar, hinv, r, hr', rfl, hpending, hother, g d', rfl, hwrites⟩
  · exact fun x _ => hblame _ _ _ hsub hr₂'

theorem decide_safe (env : Env) (id : Uuid) (input : DecideApprovalValues) (actor : Actor) :
    checkerProtocol.wp (checkerProtocol.Done fun _ => Decided env id input actor)
      (checkerProtocol.Failed (Undecided id)) (ApprovalsService.decide env id input actor) ∅
      (fun d => d) d := by
  simp only [ApprovalsService.decide, wp_bind, wp_acquire, wp_get, wp_expect, wp_require, wp_when]
  intro d₁ _ _ d₂ _ hi₂
  set S₁ : Set Lock := insert (.approval id) ∅ with hS₁
  constructor
  · intro r hfind
    have hr : r ∈ d₂.approvalRequests := List.mem_of_find?_eq_some hfind
    obtain rfl : r.id = id := by simpa using List.find?_some hfind
    have hlock : .approval r.id ∈ S₁ := Set.mem_insert _ _
    constructor
    · intro hpending
      have hpending : r.status = .pending := by simpa using hpending
      constructor
      · intro hother
        have hother : r.requestedBy ≠ actor.userId := by simpa using hother
        have hblame : ∀ e S' d', S₁ ⊆ S' → checkerProtocol.Rely S₁ d₂ d' → CheckerInv d' →
            checkerProtocol.Failed (Undecided r.id) e S' d' := fun e S' d' hS hrely _ =>
          undecided_of_pending (hS hlock) (rely_approval hlock hrely hr) hpending e
        constructor
        · intro hdecision
          have hdecision : input.decision = .approve := by simpa using hdecision
          unfold applyEffect
          cases hpayload : r.payload with
          | discount kind value reasonCode note =>
              refine wp_applyDiscount env r kind value reasonCode (fun S' g d' hS hrely hi' hg => ?_)
                hblame
              apply wp_updateApproval (hS hlock) (rely_approval hlock hrely hr) hpending hother
              intro d'' _ _
              constructor
              · intro p _ _ htype
                simp [ApprovalRow.type, hpayload, Payload.type] at htype
              · rw [hdecision]
                obtain ⟨x, hinvoice, hkind, hvalue, hreason, hid, hothers⟩ := hg
                unfold Effect
                rw [hpayload]
                exact ⟨x, hinvoice, hkind, hvalue, hreason, hid, hothers d''⟩
          | paymentVoid receiptNumber amount =>
              refine wp_voidPayment env r.subjectId
                (fun p S' g d' hS hrely hi' hinvoice hp hid hposted hg => ?_) hblame
              apply wp_updateApproval (hS hlock) (rely_approval hlock hrely hr) hpending hother
              intro d'' hrely' hi''
              have hp'' : p ∈ d''.payments := rely_payment hinvoice hrely' hp
              constructor
              · intro q hq hqid _ _
                obtain rfl := eq_of_key_eq hi''.paymentIds hq hp'' (hqid.trans hid.symm)
                exact hinvoice
              · rw [hdecision]
                unfold Effect
                rw [hpayload]
                exact ⟨p, hp'', hid, hposted, hg d''⟩
        · intro hdecision
          have hdecision : input.decision = .reject := by
            cases h : input.decision with
            | approve => simp [h] at hdecision
            | reject => rfl
          apply wp_updateApproval hlock hr hpending hother
          intro d'' _ _
          rw [hdecision]
          constructor
          · intro _ _ _ _ happrove
            cases happrove
          · rfl
      · exact fun _ => undecided_of_pending hlock hr hpending _
    · intro hdecided d' hrely _
      have hdecided : r.status ≠ .pending := by simpa using hdecided
      exact .inr (.inl ⟨rfl, r, rely_approval hlock hrely hr, rfl, hdecided⟩)
  · intro hnone d' hrely _
    have hnone : ∀ r ∈ d₂.approvalRequests, r.id ≠ id := by
      intro r hr
      simpa using List.find?_eq_none.1 hnone r hr
    exact .inl ⟨rfl, rely_noApproval (Set.mem_insert _ _) hrely hnone⟩

end Decision

/-! ## Issuing and paying -/

theorem create_invoice_safe (env : Env) (input : CreateInvoiceValues) (grants : List Grant)
    (hd : CheckerInv d) :
    checkerProtocol.wp (checkerProtocol.Done fun _ d d' => d'.checked = d.checked) Anyway
      (InvoicesService.create env input grants) ∅ id d := by
  have hcreate := keeps_create (φ := Db.checked) (fun _ _ _ => rfl) (fun _ _ => rfl) (fun _ _ => rfl) env input grants
  apply wp_of_keeps hcreate hd
  intro _ S' g d' _ hg _ _ d'' _ hi''
  exact ⟨CheckerGuar.refl.of_checked (hg d''), hi''.of_checked (hg d''), hg d''⟩

theorem inv_of_payment {p : PaymentRow} (hd : CheckerInv d) (hnew : ∀ q ∈ d.payments, q.id ≠ p.id)
    (hposted : p.status = .posted) : CheckerInv { d with payments := d.payments ++ [p] } where
  requests := hd.requests
  paymentIds := nodup_snoc hd.paymentIds hnew
  applied := hd.applied.post hposted

theorem record_safe (env : Env) (input : RecordPaymentValues) (grants : List Grant)
    (providerKey : String) :
    checkerProtocol.wp (checkerProtocol.Done fun _ d d' => ∃ p : PaymentRow, p.status = .posted ∧
        d'.checked = (d.approvalRequests, d.discounts, d.payments ++ [p])) Anyway
      (PaymentsService.record env input grants providerKey) ∅ id d := by
  simp only [PaymentsService.record, InvoicesService.lock, InvoicesService.installmentsOf,
    assertScope, insertPayment, wp_bind, wp_acquire, wp_get, wp_expect, wp_require, wp_pure,
    wp_modify, wp_enforce, implies_true, and_true]
  intro provider _ _ d₁ _ _ d₂ _ _ invoice _ _ _ d₃ _ _
  rcases allocatePayment ((id d₃).installmentsOf invoice.id) input.amount with ⟨allocations, remainder⟩
  dsimp only
  intro _ _ d₄ _ _ d₅ _ hi₅ hfree
  set payment := PaymentsService.newPayment env invoice provider input with hpayment
  have hfree : ∀ p ∈ d₅.payments, p.id ≠ payment.id := by simpa using hfree
  -- What follows does not touch the tables that are checked.
  simp only [← wp_bind]
  apply wp_of_keeps (φ := Db.checked) _ hi₅
  · intro _ S₆ g d₆ hS₆ hg hr₆ _ d' hr' hi'
    have hlock : .payment payment.id ∈ S₆ := hS₆ (Set.mem_insert _ _)
    have hnew := rely_noPayment (Set.mem_insert _ _) (hr₆.trans (hr'.anti hS₆)) hfree
    have hguar : CheckerGuar S₆ d' { d' with payments := d'.payments ++ [payment] } :=
      ⟨.refl .refl, .snoc .refl hlock⟩
    exact ⟨hguar.of_checked (hg _), (inv_of_payment hi' hnew rfl).of_checked (hg _), payment, rfl,
      hg _⟩
  · exact keeps_afterPayment env invoice payment allocations

end Emis.Billing
