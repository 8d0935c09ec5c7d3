import Emis.Billing.Interleaved

/-!
# What two people have agreed on

Any number of clients ask, approve, reject, issue invoices and record payments
at the same time.
-/

namespace Emis.Billing

open Transactions Protocol

variable {ι : Type} [DecidableEq ι]

/-! ## Answers -/

/-- What an answer says of the store before and after it. -/
def Answered : Call → Reply → Db → Db → Prop
  | .create .., _, d, d' => d'.checked = d.checked
  | .record .., _, d, d' => ∃ p : PaymentRow, p.status = .posted ∧
      d'.checked = (d.approvalRequests, d.discounts, d.payments ++ [p])
  | .requestDiscount _ invoiceId input _ actor, _, d, d' =>
      Asked (fun p => p = .discount input.kind input.value input.reasonCode input.note) invoiceId
        actor d d'
  | .requestVoid _ paymentId _ _ actor, _, d, d' =>
      Asked (fun p => p.type = .paymentVoid) paymentId actor d d'
  | .decide env id input actor, _, d, d' => Decided env id input actor d d'

/-- What an error says of the store. -/
def Refused : Call → Error → Db → Prop
  | .decide _ id _ _, e, d => Undecided id e d
  | _, _, _ => True

theorem code_safe (call : Call) {d : Db} (hd : CheckerInv d) :
    checkerProtocol.wp (checkerProtocol.Done (Answered call)) (checkerProtocol.Failed (Refused call))
      call.code ∅ id d := by
  cases call with
  | create env input grants =>
      rw [Call.code, wp_map]
      exact wp_mono (fun _ _ _ _ h => h) (fun _ _ _ _ _ _ _ => trivial)
        (create_invoice_safe env input grants hd)
  | record env input grants key =>
      rw [Call.code, wp_map]
      exact wp_mono (fun _ _ _ _ h => h) (fun _ _ _ _ _ _ _ => trivial)
        (record_safe env input grants key)
  | requestDiscount env invoiceId input grants actor =>
      rw [Call.code, wp_map]
      exact wp_mono (fun _ _ _ _ h => h) (fun _ _ _ _ _ _ _ => trivial)
        (requestDiscount_safe env invoiceId input grants actor)
  | requestVoid env paymentId reason grants actor =>
      rw [Call.code, wp_map]
      exact wp_mono (fun _ _ _ _ h => h) (fun _ _ _ _ _ _ _ => trivial)
        (requestVoid_safe env paymentId reason grants actor)
  | decide env id input actor =>
      rw [Call.code, wp_map]
      exact decide_safe env id input actor

/-! ## Every state -/

/-- Nothing has been asked for, and nothing discounted or voided. -/
structure NoRequests (d : Db) : Prop where
  approvalRequests : d.approvalRequests = []
  discounts : d.discounts = []
  posted : ∀ p ∈ d.payments, p.status = .posted
  paymentIds : (d.payments.map PaymentRow.id).Nodup

theorem NoRequests.inv {d : Db} (h : NoRequests d) : CheckerInv d where
  requests := by
    rw [h.approvalRequests]
    exact ⟨List.nodup_nil, by simp, by simp, by simp⟩
  paymentIds := h.paymentIds
  applied := by
    have hnone : ∀ r, ¬ d.approved r := fun r hr => by simp [Db.approved, h.approvalRequests] at hr
    refine ⟨by simp [h.discounts], by simp [h.discounts], fun r hr => absurd hr (hnone r), ?_,
      fun r _ hr => absurd hr (hnone r), fun r hr => absurd hr (hnone r)⟩
    intro p hp hvoid
    simp [h.posted p hp] at hvoid

/-- Requests and effects correspond, row by row. -/
structure MakerChecker (d : Db) : Prop where
  /-- A discount has the one approved request it names, and its terms. -/
  discount : ∀ x ∈ d.discounts, ∃ r, d.approvalRequests.filter (fun r => r.id == x.approvalId) = [r] ∧
    r.status = .approved ∧ r.subjectId = x.invoiceId ∧
      ∃ note, r.payload = .discount x.kind x.value x.reasonCode note
  discounted : ∀ r ∈ d.approvalRequests, r.status = .approved → r.type = .discount →
    ∃ x, d.discounts.filter (fun x => x.approvalId == r.id) = [x]
  void : ∀ p ∈ d.payments, p.status = .void → ∃ r,
    d.approvalRequests.filter (fun r => r.status == .approved && r.type == .paymentVoid &&
      r.subjectId == p.id) = [r]
  voided : ∀ r ∈ d.approvalRequests, r.status = .approved → r.type = .paymentVoid →
    ∃ p ∈ d.payments, p.id = r.subjectId ∧ p.status = .void
  decider : ∀ r ∈ d.approvalRequests, r.status ≠ .pending →
    ∃ a, r.decidedBy = some a ∧ a ≠ r.requestedBy
  /-- What is pending or rejected has not come to anything. -/
  unapproved : ∀ r ∈ d.approvalRequests, r.status ≠ .approved → ∀ x ∈ d.discounts, x.approvalId ≠ r.id
  pendingOnce : ∀ type subjectId, (d.approvalRequests.filter fun r =>
    r.status == .pending && r.type == type && r.subjectId == subjectId).length ≤ 1

theorem filter_eq_singleton {ρ : Type} [DecidableEq ρ] {rows : List ρ} (hrows : rows.Nodup)
    {q : ρ → Bool} {r : ρ} (hr : r ∈ rows) (hq : q r = true)
    (honly : ∀ s ∈ rows, q s = true → s = r) : rows.filter q = [r] := by
  have hperm : (rows.filter q).Perm [r] := by
    rw [List.perm_ext_iff_of_nodup (hrows.filter _) (List.nodup_singleton r)]
    intro s
    rw [List.mem_filter, List.mem_singleton]
    constructor
    · exact fun ⟨hs, hqs⟩ => honly s hs hqs
    · rintro rfl
      exact ⟨hr, hq⟩
  exact List.perm_singleton.1 hperm

theorem length_filter_le_one {ρ : Type} {rows : List ρ} (hrows : rows.Nodup) {q : ρ → Bool}
    (honly : ∀ r ∈ rows, ∀ s ∈ rows, q r = true → q s = true → r = s) :
    (rows.filter q).length ≤ 1 := by
  have hnodup := hrows.filter q
  cases hfilter : rows.filter q with
  | nil => simp
  | cons r rest =>
      cases rest with
      | nil => simp
      | cons s rest =>
          have hmem : ∀ x ∈ [r, s], x ∈ rows ∧ q x = true := by
            intro x hx
            apply List.mem_filter.1
            rw [hfilter]
            simp only [List.mem_cons] at hx ⊢
            tauto
          obtain ⟨hr, hqr⟩ := hmem r (by simp)
          obtain ⟨hs, hqs⟩ := hmem s (by simp)
          rw [hfilter, honly r hr s hs hqr hqs] at hnodup
          simp at hnodup

theorem CheckerInv.makerChecker {d : Db} (h : CheckerInv d) : MakerChecker d := by
  have hrows : d.approvalRequests.Nodup := .of_map _ h.requests.ids
  have hsame : ∀ {r s : ApprovalRow}, r ∈ d.approvalRequests → s ∈ d.approvalRequests →
      r.id = s.id → r = s := fun hr hs => eq_of_key_eq h.requests.ids hr hs
  constructor
  · intro x hx
    obtain ⟨r, ⟨hr, happroved⟩, hid, hrest⟩ := h.applied.discountFrom x hx
    refine ⟨r, filter_eq_singleton hrows hr (by simpa using hid) fun s hs hsid => ?_, happroved, hrest⟩
    exact hsame hs hr ((by simpa using hsid : s.id = x.approvalId).trans hid.symm)
  · intro r hr happroved htype
    obtain ⟨x, hx, hid⟩ := h.applied.discountMade r ⟨hr, happroved⟩ htype
    refine ⟨x, filter_eq_singleton (.of_map _ h.applied.discountOnce) hx (by simpa using hid)
      fun y hy hyid => ?_⟩
    exact eq_of_key_eq h.applied.discountOnce hy hx
      ((by simpa using hyid : y.approvalId = r.id).trans hid.symm)
  · intro p hp hvoid
    obtain ⟨r, hr, htype, hid⟩ := h.applied.voidFrom p hp hvoid
    refine ⟨r, filter_eq_singleton hrows hr.1 (by simp [hr.2, htype, hid]) fun s hs hall => ?_⟩
    simp only [Bool.and_eq_true, beq_iff_eq] at hall
    exact h.applied.voidOnce s r ⟨hs, hall.1.1⟩ hr hall.1.2 htype (hall.2.trans hid.symm)
  · exact fun r hr happroved htype => h.applied.voidMade r ⟨hr, happroved⟩ htype
  · intro r hr hdecided
    cases hdecider : r.decidedBy with
    | none => exact absurd ((h.requests.undecided r hr).2 hdecider) hdecided
    | some a =>
        refine ⟨a, rfl, fun heq => h.requests.decider r hr ?_⟩
        rw [hdecider, heq]
  · intro r hr hother x hx hid
    obtain ⟨s, ⟨hs, happroved⟩, hsid, -⟩ := h.applied.discountFrom x hx
    obtain rfl := hsame hs hr (hsid.trans hid)
    exact hother happroved
  · intro type subjectId
    apply length_filter_le_one hrows
    intro r hr s hs hqr hqs
    simp only [Bool.and_eq_true, beq_iff_eq] at hqr hqs
    exact h.requests.pendingOnce r hr s hs hqr.1.1 hqs.1.1 (hqr.1.2.trans hqs.1.2.symm)
      (hqr.2.trans hqs.2.symm)

/-! ## Every run -/

/-- A request keeps what it asks for, and once decided it keeps everything. -/
def Final (d d' : Db) : Prop :=
  ∀ r ∈ d.approvalRequests, ∃ r' ∈ d'.approvalRequests, r'.id = r.id ∧ r'.payload = r.payload ∧
    r'.subjectId = r.subjectId ∧ r'.requestedBy = r.requestedBy ∧ (r.status ≠ .pending → r' = r)

theorem Final.refl (d : Db) : Final d d := fun r hr => ⟨r, hr, rfl, rfl, rfl, rfl, fun _ => rfl⟩

theorem Final.trans {d d' d'' : Db} (h : Final d d') (h' : Final d' d'') : Final d d'' := by
  intro r hr
  obtain ⟨r', hr', hid, hpayload, hsubject, hrequester, hdecided⟩ := h r hr
  obtain ⟨r'', hr'', hid', hpayload', hsubject', hrequester', hdecided'⟩ := h' r' hr'
  refine ⟨r'', hr'', hid'.trans hid, hpayload'.trans hpayload, hsubject'.trans hsubject,
    hrequester'.trans hrequester, fun hne => ?_⟩
  obtain rfl := hdecided hne
  exact hdecided' hne

theorem CheckerGuar.final {S : Set Lock} {d d' : Db} (h : CheckerGuar S d d') : Final d d' := by
  intro r hr
  obtain ⟨r', hr', hmoves⟩ := h.approvals.kept r hr
  refine ⟨r', hr', hmoves.id, hmoves.payload, hmoves.subject, hmoves.requester, fun hne => ?_⟩
  rcases hmoves.change with heq | ⟨-, hpending, -⟩
  · exact heq
  · exact absurd hpending hne

theorem final_of_reachable {w w' : World ι Call Db Lock Error Reply}
    (h : checkerProtocol.Sound Answered Refused w) (hw : Reachable Call.code w w') :
    Final w.db w'.db := by
  induction hw with
  | start => exact .refl _
  | step hw hstep ih =>
      rcases (h.reachable (fun q _ hd => code_safe q hd) hw).change hstep with heq | ⟨S, hguar⟩
      · rw [heq]
        exact ih
      · exact ih.trans (CheckerGuar.final hguar)

/-- One request after another is an interleaving too. -/
theorem reachable_afterAll (i : ι) (calls : List Call) {start : World ι Call Db Lock Error Reply}
    {d : Db} (hw : Reachable Call.code start ⟨d, fun _ => none⟩) :
    Reachable Call.code start ⟨afterAll d calls, fun _ => none⟩ := by
  induction calls generalizing d with
  | nil => exact hw
  | cons call calls ih =>
      apply ih
      exact hw.serve Call.code i call
        ((transactional_code call).wlp (Φ := fun _ _ => True) (E := fun _ => True)
          (fun _ _ _ => trivial) fun _ => trivial)

/-- Nobody approves a request of their own. -/
example : (afterAll office [bill, askDiscount, approve 50 30 1]).discounts = [] := by
  decide +kernel

end Emis.Billing
