import Emis.Billing.Books

/-!
# Every operation keeps the books

Each of the services' transactions either throws, and not because a constraint
fired, or leaves books that balance.
-/

namespace Emis.Billing

open Transactions InvoicesService PaymentsService

/-- Not a CHECK constraint that fired. -/
def NoCheck (e : Error) : Prop := ∀ name, e ≠ .database (.check name)

/-! ## Statements -/

section Statements

variable {d : Db} {E : Error → Prop}

@[simp] theorem wlp_enforce {Φ : Unit → Db → Prop} (v : Option Violation) :
    (enforce v).wlp Φ E d ↔ (v = none → Φ () d) ∧ ∀ x, v = some x → E (.database x) := by
  cases v <;> simp [enforce]

theorem findSome?_check {ρ : Type} {rows : List ρ} {check : ρ → Option Violation}
    (h : ∀ r ∈ rows, check r = none) : rows.findSome? check = none :=
  List.findSome?_eq_none_iff.2 h

theorem wlp_updateInstallment {Φ : Unit → Db → Prop} {id : Uuid}
    {f : InstallmentRow → InstallmentRow}
    (hcheck : ∀ r ∈ d.installments, r.id = id → checkInstallment (f r) = none)
    (hΦ : Φ () { d with installments := changeWhere (fun r => r.id == id) f d.installments }) :
    (updateInstallment id f).wlp Φ E d := by
  have hnone : (d.installments.filter fun r => r.id == id).findSome?
      (fun r => checkInstallment (f r)) = none := by
    apply findSome?_check
    intro r hr
    obtain ⟨hmem, hid⟩ := List.mem_filter.1 hr
    exact hcheck r hmem (by simpa using hid)
  simp only [updateInstallment, Prog.wlp_bind, Prog.wlp_acquire, Prog.wlp_get, wlp_enforce,
    Prog.wlp_modify, hnone]
  exact ⟨fun _ => hΦ, by simp⟩

theorem checkInstallment_eq_none {r : InstallmentRow} :
    checkInstallment r = none ↔ 0 ≤ r.paidAmount ∧ r.paidAmount ≤ r.amount := by
  unfold checkInstallment
  split
  · simp only [reduceCtorEq, false_iff]
    omega
  · split
    · simpa using by omega
    · simp only [true_iff]
      omega

theorem payIn_nil (d : Db) : payIn [] d = d := by
  have hmap : d.installments.map (fun r => addPaid (put ([] : List (Uuid × ℤ)) r.id) r) =
      d.installments := by
    conv_rhs => rw [← List.map_id d.installments]
    apply List.map_congr_left
    intro r _
    simp [addPaid, put]
  rw [payIn, hmap]

theorem payIn_cons (m : Uuid × ℤ) (moves : List (Uuid × ℤ)) (d : Db) :
    payIn moves { d with
      installments := changeWhere (fun r => r.id == m.1) (addPaid m.2) d.installments } =
        payIn (m :: moves) d := by
  simp only [payIn, changeWhere, List.map_map]
  congr 1
  apply List.map_congr_left
  intro r _
  by_cases hid : r.id = m.1
  · simp [hid, addPaid, put_cons, Int.add_assoc]
  · simp [hid, addPaid, put_cons, Ne.symm hid]

/-- The loops that add to the paid amounts, or take back, one allocation at a
time: in between no amount leaves the range it starts and ends in. -/
theorem wlp_payLoop {Φ : Unit → Db → Prop} {moves : List (Uuid × ℤ)}
    (hsign : (∀ m ∈ moves, 0 ≤ m.2) ∨ ∀ m ∈ moves, m.2 ≤ 0)
    (hrange : ∀ q ∈ d.installments, 0 ≤ q.paidAmount ∧ q.paidAmount ≤ q.amount)
    (hfinal : ∀ q ∈ d.installments,
      0 ≤ q.paidAmount + put moves q.id ∧ q.paidAmount + put moves q.id ≤ q.amount)
    (hΦ : Φ () (payIn moves d)) :
    (moves.forM fun m => updateInstallment m.1 (addPaid m.2)).wlp Φ E d := by
  induction moves generalizing d with
  | nil =>
      rw [payIn_nil] at hΦ
      exact hΦ
  | cons m moves ih =>
      have hrest : (∀ m ∈ moves, 0 ≤ m.2) ∨ ∀ m ∈ moves, m.2 ≤ 0 := by
        rcases hsign with h | h
        · exact .inl fun m hm => h m (List.mem_cons_of_mem _ hm)
        · exact .inr fun m hm => h m (List.mem_cons_of_mem _ hm)
      have hstep : ∀ q ∈ d.installments, q.id = m.1 →
          0 ≤ q.paidAmount + m.2 ∧ q.paidAmount + m.2 ≤ q.amount := by
        intro q hq hid
        have hrangeq := hrange q hq
        have hfinalq := hfinal q hq
        rw [put_cons, if_pos hid.symm] at hfinalq
        rcases hsign with h | h
        · have hm := h m List.mem_cons_self
          have hput : 0 ≤ put moves q.id :=
            total_nonneg fun m hm _ => h m (List.mem_cons_of_mem _ hm)
          omega
        · have hm := h m List.mem_cons_self
          have hput : put moves q.id ≤ 0 := by
            have hneg : 0 ≤ total (fun m => m.1 == q.id) (fun m => -m.2) moves :=
              total_nonneg fun m hm _ => Int.neg_nonneg_of_nonpos (h m (List.mem_cons_of_mem _ hm))
            rw [total_neg] at hneg
            exact Int.neg_nonneg.1 hneg
          omega
      rw [Prog.wlp_forM_cons]
      apply wlp_updateInstallment
      · exact fun q hq hid => checkInstallment_eq_none.2 (hstep q hq hid)
      · refine ih hrest ?_ ?_ ?_
        · intro q' hq'
          obtain ⟨q, hq, rfl⟩ := mem_changeWhere.1 hq'
          by_cases hid : q.id = m.1
          · simpa [hid, addPaid] using hstep q hq hid
          · simpa [hid] using hrange q hq
        · intro q' hq'
          obtain ⟨q, hq, rfl⟩ := mem_changeWhere.1 hq'
          have hfinalq := hfinal q hq
          rw [put_cons] at hfinalq
          by_cases hid : q.id = m.1
          · rw [if_pos hid.symm] at hfinalq
            simpa [hid, addPaid, Int.add_assoc] using hid ▸ hfinalq
          · rw [if_neg (Ne.symm hid), Int.zero_add] at hfinalq
            simpa [hid] using hfinalq
        · rw [payIn_cons]
          exact hΦ

theorem cutIn_nil (d : Db) : cutIn [] d = d := by
  have hmap : d.installments.map (fun r =>
      { r with amount := r.amount - put ([] : List (Uuid × ℤ)) r.id }) = d.installments := by
    conv_rhs => rw [← List.map_id d.installments]
    apply List.map_congr_left
    intro r _
    simp [put]
  rw [cutIn, hmap]

theorem cutIn_cons (hids : (d.installments.map InstallmentRow.id).Nodup)
    {t : InstallmentRow × ℤ} (ht : t.1 ∈ d.installments) (moves : List (Uuid × ℤ)) :
    cutIn moves { d with
      installments := changeWhere (fun r => r.id == t.1.id) (setAmount (t.1.amount - t.2))
        d.installments } =
      cutIn ((t.1.id, t.2) :: moves) d := by
  simp only [cutIn, changeWhere, List.map_map]
  congr 1
  apply List.map_congr_left
  intro r hr
  by_cases hid : r.id = t.1.id
  · have hrow : r = t.1 := eq_of_key_eq hids hr ht hid
    simp only [Function.comp_apply, hrow, beq_self_eq_true, if_true, put_cons, setAmount]
    congr 1
    ring
  · have hne : t.1.id ≠ r.id := Ne.symm hid
    simp [hid, put_cons, hne]

/-- The loop that sets the amounts of the instalments a discount is cut off. -/
theorem wlp_cutLoop {Φ : Unit → Db → Prop} {taken : List (InstallmentRow × ℤ)}
    (hids : (d.installments.map InstallmentRow.id).Nodup)
    (hrange : ∀ q ∈ d.installments, 0 ≤ q.paidAmount ∧ q.paidAmount ≤ q.amount)
    (htaken : ∀ t ∈ taken, t.1 ∈ d.installments ∧ t.2 ≤ owed t.1)
    (hnodup : (taken.map fun t => t.1.id).Nodup)
    (hΦ : Φ () (cutIn (taken.map fun t => (t.1.id, t.2)) d)) :
    (taken.forM fun t => updateInstallment t.1.id (setAmount (t.1.amount - t.2))).wlp Φ E d := by
  induction taken generalizing d with
  | nil =>
      rw [List.map_nil, cutIn_nil] at hΦ
      exact hΦ
  | cons t taken ih =>
      obtain ⟨ht, hfits⟩ := htaken t List.mem_cons_self
      have hnew := List.nodup_cons.1 hnodup
      have hnewRange : 0 ≤ t.1.paidAmount ∧ t.1.paidAmount ≤ t.1.amount - t.2 := by
        have hrow := hrange t.1 ht
        rw [owed] at hfits
        omega
      rw [Prog.wlp_forM_cons]
      apply wlp_updateInstallment
      · intro q hq hid
        obtain rfl : q = t.1 := eq_of_key_eq hids hq ht hid
        exact checkInstallment_eq_none.2 hnewRange
      · refine ih ?_ ?_ ?_ hnew.2 ?_
        · have hkeys : (changeWhere (fun r => r.id == t.1.id) (setAmount (t.1.amount - t.2))
              d.installments).map InstallmentRow.id = d.installments.map InstallmentRow.id :=
            map_changeWhere fun _ => rfl
          rw [hkeys]
          exact hids
        · intro q' hq'
          obtain ⟨q, hq, rfl⟩ := mem_changeWhere.1 hq'
          by_cases hid : q.id = t.1.id
          · obtain rfl : q = t.1 := eq_of_key_eq hids hq ht hid
            simpa [setAmount] using hnewRange
          · simpa [hid] using hrange q hq
        · intro t' ht'
          obtain ⟨hmem, hfits'⟩ := htaken t' (List.mem_cons_of_mem _ ht')
          have hne : t'.1.id ≠ t.1.id := fun heq =>
            hnew.1 (List.mem_map.2 ⟨t', ht', heq⟩)
          refine ⟨mem_changeWhere.2 ⟨t'.1, hmem, ?_⟩, hfits'⟩
          rw [if_neg (by simpa using hne)]
        · rw [cutIn_cons hids ht]
          exact hΦ

end Statements

theorem noCheck_http (e : HttpError) : NoCheck (.http e) := nofun

theorem noCheck_internal (m : String) : NoCheck (.internal m) := nofun

theorem noCheck_unique (i : String) : NoCheck (.database (.unique i)) := nofun

theorem wlp_settle {d : Db} {Φ : InvoiceRow → Db → Prop} {before : InvoiceRow} (h : Ledgers d)
    (hbefore : before ∈ d.invoices) (hΦ : ∀ r, Φ r (settleIn before d)) :
    (settle before.id).wlp Φ NoCheck d := by
  have hnone : (d.invoices.filter fun r => r.id == before.id).findSome? (fun r =>
      checkInvoice (settledRow before (d.installmentsOf before.id) r)) = none := by
    apply findSome?_check
    intro r hr
    obtain ⟨hmem, hid⟩ := List.mem_filter.1 hr
    obtain rfl : r = before := eq_of_key_eq h.invoiceIds hmem hbefore (by simpa using hid)
    exact checkInvoice_settled h hbefore
  simp only [settle, InvoicesService.row, InvoicesService.installmentsOf, updateInvoice,
    Prog.wlp_bind, Prog.wlp_get, Prog.wlp_expect, Prog.wlp_pure, Prog.wlp_acquire, wlp_enforce,
    Prog.wlp_modify, invoice?_of_mem h hbefore, Option.some_inj, forall_eq', hnone]
  refine ⟨⟨fun _ => ⟨fun r _ => hΦ r, fun _ => noCheck_http _⟩, by simp⟩, by simp⟩

/-! ## What is spread -/

section Spread

variable {d : Db} {i : Uuid} {rows : List InstallmentRow} {amount : ℤ}

/-- The amounts `spread` puts on the instalments of one invoice. -/
def movesOf (taken : List (InstallmentRow × ℤ)) : List (Uuid × ℤ) :=
  taken.map fun t => (t.1.id, t.2)

theorem spread_moves (h : Ledgers d) (hrows : rows.Perm (d.installmentsOf i)) (hamount : 0 ≤ amount) :
    MovesOn d i (movesOf (spread amount rows).1) ∧
      (∀ m ∈ movesOf (spread amount rows).1, 0 < m.2) ∧
      ((movesOf (spread amount rows).1).map Prod.snd).sum + (spread amount rows).2 = amount ∧
      ((spread amount rows).1.map fun t => t.1.id).Nodup ∧
      ∀ q ∈ d.installments,
        put (movesOf (spread amount rows).1) q.id ≤ q.amount - q.paidAmount := by
  obtain ⟨htaken, hsub, hsum, -⟩ := @spread_spec amount rows hamount
  set taken := (spread amount rows).1 with htakenDef
  have hmem : ∀ t ∈ taken, t.1 ∈ d.installments ∧ t.1.invoiceId = i := fun t ht =>
    mem_installmentsOf.1 (hrows.subset (htaken t ht).1)
  have hnodup : (taken.map fun t => t.1.id).Nodup := by
    have hkeys : (rows.map InstallmentRow.id).Nodup :=
      (hrows.map _).nodup_iff.2 (nodup_installmentsOf h i)
    have hsubKeys := (hsub.map InstallmentRow.id).nodup hkeys
    rwa [List.map_map] at hsubKeys
  refine ⟨?_, ?_, ?_, hnodup, ?_⟩
  · intro m hm
    obtain ⟨t, ht, rfl⟩ := List.mem_map.1 hm
    exact ⟨t.1, (hmem t ht).1, (hmem t ht).2, rfl⟩
  · intro m hm
    obtain ⟨t, ht, rfl⟩ := List.mem_map.1 hm
    exact (htaken t ht).2.1
  · have hsnd : (movesOf taken).map Prod.snd = taken.map Prod.snd := by simp [movesOf]
    rw [hsnd]
    exact hsum
  · intro q hq
    by_cases hid : q.id ∈ (movesOf taken).map Prod.fst
    · obtain ⟨m, hm, hkey⟩ := List.mem_map.1 hid
      have hkeys : ((movesOf taken).map Prod.fst).Nodup := by
        simpa [movesOf, Function.comp_def] using hnodup
      have hput := put_of_mem hkeys hm
      obtain ⟨t, ht, rfl⟩ := List.mem_map.1 hm
      obtain rfl : t.1 = q := eq_of_key_eq h.installmentIds (hmem t ht).1 hq hkey
      rw [hput]
      exact (htaken t ht).2.2
    · rw [put_of_notMem hid]
      have hrange := h.range q hq
      omega

end Spread

/-! ## Voiding -/

theorem checkPayment_eq_none {r : PaymentRow} : checkPayment r = none ↔ 0 < r.amount := by
  simp [checkPayment]

theorem wlp_updatePayment {d : Db} {Φ : Unit → Db → Prop} {E : Error → Prop} {id : Uuid}
    {f : PaymentRow → PaymentRow} (hf : ∀ r, (f r).amount = r.amount)
    (hpos : ∀ r ∈ d.payments, 0 < r.amount)
    (hΦ : Φ () { d with payments := changeWhere (fun r => r.id == id) f d.payments }) :
    (updatePayment id f).wlp Φ E d := by
  have hnone : (d.payments.filter fun r => r.id == id).findSome?
      (fun r => checkPayment (f r)) = none := by
    apply findSome?_check
    intro r hr
    rw [checkPayment_eq_none, hf]
    exact hpos r (List.mem_filter.1 hr).1
  simp only [updatePayment, Prog.wlp_bind, Prog.wlp_acquire, Prog.wlp_get, wlp_enforce,
    Prog.wlp_modify, hnone]
  exact ⟨fun _ => hΦ, by simp⟩

/-- A transaction that keeps the books and the requests. -/
def Kept (d : Db) (_ : Unit) (d' : Db) : Prop :=
  Books d' ∧ d'.approvalRequests = d.approvalRequests

theorem wlp_voidPayment {d : Db} (h : Books d) (env : Env) (paymentId : Uuid) :
    (voidPayment env paymentId).wlp (Kept d) NoCheck d := by
  simp only [voidPayment, PaymentsService.row, InvoicesService.lock, Prog.wlp_bind, Prog.wlp_get,
    Prog.wlp_expect, Prog.wlp_acquire, Prog.wlp_require]
  refine ⟨fun found hfound => ⟨fun invoice hinvoice => ⟨fun payment hpayment => ⟨fun hposted => ?_,
    fun _ => noCheck_http _⟩, fun _ => noCheck_http _⟩, fun _ => noCheck_http _⟩,
    fun _ => noCheck_http _⟩
  obtain rfl : found = payment := Option.some_inj.1 (hfound.symm.trans hpayment)
  obtain ⟨hmem, rfl⟩ := mem_of_payment? hpayment
  obtain ⟨himem, hiid⟩ := mem_of_invoice? hinvoice
  have hposted : found.status = .posted := by simpa using hposted
  have hmoves := movesOn_backMoves h.toLedgers hmem
  have hreverse : Ledgers (reverseIn env found d) := h.toLedgers.reverse hmem hposted
  refine (Prog.wlp_forM_map (fun a : AllocationRow => (a.installmentId, -a.amount)) _
    fun m => updateInstallment m.1 (addPaid m.2)).1 ?_
  refine wlp_payLoop (.inr ?_) h.range ?_ ?_
  · intro m hm
    obtain ⟨a, ha, rfl⟩ := List.mem_map.1 hm
    have hpos := (h.allocationOf a (List.mem_filter.1 ha).1).1
    change -a.amount ≤ 0
    omega
  · exact fun q hq => hreverse.range _ (List.mem_map_of_mem hq)
  refine wlp_updatePayment (fun _ => rfl) (fun p hp => (h.allocated p hp).1) ?_
  simp only [updateReceipt, Prog.wlp_bind, Prog.wlp_acquire, Prog.wlp_modify]
  set d' : Db := { reverseIn env found d with
    receipts := changeWhere (fun r => r.paymentId == found.id) (voidedReceipt env) d.receipts }
    with hd'
  have hledgers : Ledgers d' := hreverse.frame rfl rfl rfl rfl rfl
  have hsettled : ∀ j ∈ (settleIn invoice d').invoices, Settled (settleIn invoice d') j := by
    refine settled_settleIn hledgers himem (h.settled invoice himem).not_void fun j hj hne => ?_
    refine (h.settled j hj).of_sums (amountOf_payIn j.id) ?_
    exact paidOf_payIn_other h.toLedgers hmoves (hiid ▸ hne)
  have hreceipted : ∀ p ∈ d'.payments, Receipted (settleIn invoice d') p := by
    intro p hp
    obtain ⟨q, hq, rfl⟩ := mem_changeWhere.1 hp
    obtain ⟨r, hr, hvoid⟩ := h.receipted q hq
    have hreceipt : r.paymentId = q.id := by
      have hr' : r ∈ d.receipts.filter fun r => r.paymentId == q.id := by simp [hr]
      simpa using (List.mem_filter.1 hr').2
    have hfilter : (settleIn invoice d').receipts.filter (fun r => r.paymentId == q.id) =
        changeWhere (fun r => r.paymentId == found.id) (voidedReceipt env) [r] := by
      rw [← hr]
      exact filter_changeWhere fun _ => rfl
    by_cases hid : q.id = found.id
    · rw [if_pos (by simpa using hid)]
      refine ⟨voidedReceipt env r, ?_, by simp [voidedReceipt, voidedRow]⟩
      change (settleIn invoice d').receipts.filter (fun r => r.paymentId == q.id) = _
      rw [hfilter, changeWhere, List.map_singleton, if_pos (by simpa [hreceipt] using hid)]
    · rw [if_neg (by simpa using hid)]
      refine ⟨r, ?_, hvoid⟩
      rw [hfilter, changeWhere, List.map_singleton, if_neg (by simpa [hreceipt] using hid)]
  exact wlp_settle hledgers himem fun _ => ⟨{ hledgers.settle with
    approvalIds := h.approvalIds
    settled := hsettled
    receipted := hreceipted }, rfl⟩

/-! ## Numbers and dates -/

section Settings

variable {d : Db}

theorem wlp_inSettings {α : Type} {p : Numbering.Tx α} {Φ : α → Db → Prop}
    {E : Error → Prop}
    (h : p.wlp (fun a n => Φ a { d with numbering := n }) E d.numbering) :
    (inSettings p).wlp Φ E d := by
  have hview : ∀ (n : Numbering.Db) (d : Db), ({ d with numbering := n } : Db).numbering = n :=
    fun _ _ => rfl
  exact (Prog.wlp_zoom hview (fun _ _ _ => rfl) (fun _ => rfl) p).2 h

theorem fillPieces_error {ctx : Numbering.NumberContext} {seq : Numbering.Text}
    {ps : List Numbering.Piece} {e : Error} (h : Numbering.fillPieces ctx seq ps = .error e) :
    NoCheck e := by
  induction ps generalizing e with
  | nil => cases h
  | cons p ps ih =>
      cases p with
      | literal c =>
          cases hrest : Numbering.fillPieces ctx seq ps with
          | ok rest => simp [Numbering.fillPieces, hrest, bind, Except.bind, pure, Except.pure] at h
          | error e' =>
              obtain rfl : e' = e := by simpa [Numbering.fillPieces, hrest, bind, Except.bind] using h
              exact ih hrest
      | token t =>
          cases hvalue : Numbering.fillToken ctx seq t.name with
          | error e' =>
              obtain rfl : e' = e := by
                simpa [Numbering.fillPieces, hvalue, bind, Except.bind] using h
              unfold Numbering.fillToken at hvalue
              split_ifs at hvalue
              split at hvalue
              · cases hvalue
                exact noCheck_internal _
              · cases hvalue
          | ok value =>
              cases hrest : Numbering.fillPieces ctx seq ps with
              | ok rest =>
                  simp [Numbering.fillPieces, hvalue, hrest, bind, Except.bind, pure,
                    Except.pure] at h
              | error e' =>
                  obtain rfl : e' = e := by
                    simpa [Numbering.fillPieces, hvalue, hrest, bind, Except.bind] using h
                  exact ih hrest

theorem wlp_branchCode {n : Numbering.Db} {key : Numbering.NumberSeriesKey}
    {pattern : Numbering.NumberPattern} {branchId : Option Uuid}
    {Φ : Option Numbering.OrgCode → Numbering.Db → Prop} (hΦ : ∀ code, Φ code n) :
    (Numbering.NumberingService.branchCodeFor key pattern branchId).wlp Φ NoCheck n := by
  unfold Numbering.NumberingService.branchCodeFor
  split
  · simp only [Prog.wlp_bind, Prog.wlp_expect, Prog.wlp_get, Prog.wlp_pure]
    exact ⟨fun id _ => ⟨fun b _ => hΦ _, fun _ => noCheck_http _⟩, fun _ => noCheck_internal _⟩
  · exact hΦ _

theorem wlp_next {Φ : Numbering.IssuedNumber → Db → Prop} (env : Numbering.Env)
    (key : Numbering.NumberSeriesKey) (branchId : Option Uuid)
    (hΦ : ∀ r n, Φ r { d with numbering := n }) :
    (inSettings (Numbering.NumberingService.next env key branchId none)).wlp Φ NoCheck d := by
  apply wlp_inSettings
  simp only [Numbering.NumberingService.next, Numbering.institutionRow, Prog.wlp_bind,
    Prog.wlp_get, Prog.wlp_expect, Prog.wlp_pure, Prog.wlp_ofExcept, Prog.wlp_acquire,
    Prog.wlp_modify]
  refine ⟨fun inst _ => wlp_branchCode fun code => ⟨fun scope _ => ⟨fun lastValue _ =>
    ⟨fun number _ => hΦ _ _, fun e he => ?_⟩, fun _ => noCheck_internal _⟩, fun e he => ?_⟩,
    fun _ => noCheck_http _⟩
  · exact fillPieces_error he
  · exact fillPieces_error he

theorem wlp_today {Φ : Day → Db → Prop} (env : Env) (hΦ : ∀ day, Φ day d) :
    (today env).wlp Φ NoCheck d := by
  rw [today, Prog.wlp_bind]
  apply wlp_inSettings
  simp only [Numbering.institutionRow, Prog.wlp_bind, Prog.wlp_get, Prog.wlp_expect]
  exact ⟨fun inst _ => hΦ _, fun _ => noCheck_http _⟩

end Settings

end Emis.Billing
