import Emis.Billing.Balanced
import Emis.Reports.ReportsService

/-!
# Revenue and the cash book

The report of a range groups the payments that were received between two
midnights. Whatever it groups them by, each is counted once, and two ranges that
meet add up.
-/

namespace Emis.Reports

open Transactions Billing ReportsService

instance : Add Tally := ⟨fun s t => ⟨s.count + t.count, s.amount + t.amount⟩⟩

/-! ## The cash book -/

section CashBook

variable {d : Billing.Db}

/-- What the invoices say was paid is what was received and not voided. -/
theorem sum_paidTotal (h : Books d) : (d.invoices.map InvoiceRow.paidTotal).sum =
    total (fun p => p.status == .posted) PaymentRow.amount d.payments := by
  have hinvoices : (d.invoices.map InvoiceRow.paidTotal).sum =
      (d.installments.map InstallmentRow.paidAmount).sum := by
    have hpaid : d.invoices.map InvoiceRow.paidTotal =
        (d.invoices.map InvoiceRow.id).map fun id =>
          ((d.installments.filter fun p => p.invoiceId == id).map InstallmentRow.paidAmount).sum := by
      rw [List.map_map]
      exact List.map_congr_left fun i hi => (h.settled i hi).paidTotal
    rw [hpaid]
    apply sum_filter_keys InstallmentRow.paidAmount h.invoiceIds
    intro p hp
    obtain ⟨i, hi, hid⟩ := h.installmentOf p hp
    exact hid ▸ List.mem_map_of_mem hi
  set kept := d.paymentAllocations.filter fun a => d.posted a.paymentId with hkept
  have hinstallments : (d.installments.map InstallmentRow.paidAmount).sum =
      (kept.map AllocationRow.amount).sum := by
    have hgiven : d.installments.map InstallmentRow.paidAmount =
        (d.installments.map InstallmentRow.id).map fun id =>
          ((kept.filter fun a => a.installmentId == id).map AllocationRow.amount).sum := by
      rw [List.map_map]
      apply List.map_congr_left
      intro p hp
      rw [h.paid p hp, Db.given, total, hkept, Function.comp_apply, List.filter_filter]
    rw [hgiven]
    apply sum_filter_keys AllocationRow.amount h.installmentIds
    intro a ha
    obtain ⟨-, p, -, -, q, hq, hid, -⟩ := h.allocationOf a (List.mem_filter.1 ha).1
    exact hid ▸ List.mem_map_of_mem hq
  have hpayments : (kept.map AllocationRow.amount).sum =
      total (fun p => p.status == .posted) PaymentRow.amount d.payments := by
    set posted := d.payments.filter fun p => p.status == .posted with hposted
    have hids : (posted.map PaymentRow.id).Nodup := (List.filter_sublist.map _).nodup h.paymentIds
    have hamount : posted.map PaymentRow.amount = (posted.map PaymentRow.id).map fun id =>
        ((kept.filter fun a => a.paymentId == id).map AllocationRow.amount).sum := by
      rw [List.map_map]
      apply List.map_congr_left
      intro p hp
      obtain ⟨hmem, hstatus⟩ := List.mem_filter.1 hp
      rw [← (h.allocated p hmem).2, Db.allocated, total, hkept, Function.comp_apply, List.filter_filter]
      congr 2
      apply List.filter_congr
      intro a _
      by_cases hid : a.paymentId = p.id
      · simp [hid, posted_of_mem h.toLedgers hmem, hstatus]
      · simp [hid]
    rw [total, ← hposted, hamount]
    symm
    apply sum_filter_keys AllocationRow.amount hids
    intro a ha
    obtain ⟨hmem, hkeep⟩ := List.mem_filter.1 ha
    obtain ⟨-, p, hp, hid, -⟩ := h.allocationOf a hmem
    rw [← hid, posted_of_mem h.toLedgers hp] at hkeep
    exact hid ▸ List.mem_map_of_mem (List.mem_filter.2 ⟨hp, hkeep⟩)
  rw [hinvoices, hinstallments, hpayments]

end CashBook

/-! ## The payments of a report -/

section Received

variable {d : Db}

/-- Every payment is joined once. -/
theorem received_payments (h : Constrained d) :
    (received d).map (fun r => r.row.1) = d.billing.payments := by
  have hinvoices : (Joined.withInvoice d PaymentRow.invoiceId d.billing.payments).map Joined.row =
      d.billing.payments := by
    apply innerJoin_foreign _ _ Joined.row fun _ _ => rfl
    · intro p hp
      obtain ⟨i, hi, hid⟩ := h.paymentInvoice p hp
      exact ⟨i, hi, by simpa using hid⟩
    · exact fun _ => filter_unique h.invoiceIds fun _ hi => by simpa using hi
  have hbranches : (Joined.with_ Numbering.BranchRow.id (fun r => r.row.branchId)
      d.billing.numbering.branches (Joined.withInvoice d PaymentRow.invoiceId d.billing.payments)).map
        Joined.fst = Joined.withInvoice d PaymentRow.invoiceId d.billing.payments := by
    apply Joined.with_fst h.branchIds
    intro r hr
    exact h.paymentBranch r.row (Joined.mem_withInvoice hr).1
  rw [← hbranches, List.map_map] at hinvoices
  rw [received, Joined.withDepartment_eq h, Joined.withProgram_eq h, List.map_map, List.map_map]
  exact hinvoices

/-- What a received payment is joined to is in its table. -/
theorem mem_received (h : Constrained d) {r : Received} (hr : r ∈ received d) :
    r.row.2 ∈ d.billing.numbering.branches ∧ (∀ p, r.program = some p → p ∈ d.programs) ∧
      ∀ p, r.department = some p → p ∈ d.departments := by
  rw [received, Joined.withDepartment_eq h, Joined.withProgram_eq h] at hr
  obtain ⟨r', hr', rfl⟩ := List.mem_map.1 hr
  obtain ⟨r'', hr'', rfl⟩ := List.mem_map.1 hr'
  exact ⟨(Joined.mem_with hr'').1, fun _ => List.mem_of_find?_eq_some, fun _ => List.mem_of_find?_eq_some⟩

/-- The label of a group goes with its key. -/
theorem label_of_key (h : Constrained d) (env : Env) (tz : String) (by_ : RevenueGrouping)
    {r s : Received} (hr : r ∈ received d) (hs : s ∈ received d)
    (hkey : (grouping env tz by_ r).1 = (grouping env tz by_ s).1) :
    grouping env tz by_ r = grouping env tz by_ s := by
  obtain ⟨hbranch, hprogram, hdepartment⟩ := mem_received h hr
  obtain ⟨hbranch', hprogram', hdepartment'⟩ := mem_received h hs
  apply Prod.ext hkey
  cases by_ with
  | day | month | method => exact hkey
  | branch =>
      have hrow : r.row.2 = s.row.2 := eq_of_key_eq h.branchIds hbranch hbranch' (Caption.id.inj hkey)
      simp only [grouping, hrow]
  | department =>
      simp only [grouping] at hkey ⊢
      cases hr' : r.department with
      | none => cases hs' : s.department <;> simp_all
      | some p =>
          cases hs' : s.department with
          | none => simp [hr', hs'] at hkey
          | some q =>
              have hid : p.id = q.id := by simpa [hr', hs'] using hkey
              rw [eq_of_key_eq h.departmentIds (hdepartment p hr') (hdepartment' q hs') hid]
  | program =>
      simp only [grouping] at hkey ⊢
      cases hr' : r.program with
      | none => cases hs' : s.program <;> simp_all
      | some p =>
          cases hs' : s.program with
          | none => simp [hr', hs'] at hkey
          | some q =>
              have hid : p.id = q.id := by simpa [hr', hs'] using hkey
              rw [eq_of_key_eq h.programIds (hprogram p hr') (hprogram' q hs') hid]

end Received

/-- Rows that count each of the payments once, under its key. -/
structure CountsOnce (keyOf : Received → Caption) (payments : List Received) (rows : List RevenueRow) :
    Prop where
  keys : (rows.map RevenueRow.key).Nodup
  counted : ∀ p ∈ payments, ∃ row ∈ rows, row.key = keyOf p
  tallies : ∀ row ∈ rows, (∃ p ∈ payments, keyOf p = row.key) ∧
    row.toTally = tally (fun p : Received => p.row.1.amount) (payments.filter fun p => keyOf p == row.key)

namespace CountsOnce

variable {keyOf : Received → Caption} {payments : List Received} {rows rows' : List RevenueRow}

/-- The rows add up to the payments. -/
theorem addUp_eq (h : CountsOnce keyOf payments rows) :
    addUp rows = tally (fun p : Received => p.row.1.amount) payments := by
  have hcover : ∀ p ∈ payments, keyOf p ∈ rows.map RevenueRow.key := by
    intro p hp
    obtain ⟨row, hrow, hkey⟩ := h.counted p hp
    exact hkey ▸ List.mem_map_of_mem hrow
  have hcount := sum_filter_keys (fun _ : Received => 1) h.keys hcover
  have hamount := sum_filter_keys (fun p : Received => p.row.1.amount) h.keys hcover
  rw [List.map_map] at hcount hamount
  have hcounts : rows.map (fun r => r.count) = rows.map
      ((fun k => ((payments.filter fun p => keyOf p == k).map fun _ => 1).sum) ∘ RevenueRow.key) := by
    apply List.map_congr_left
    intro row hrow
    rw [(h.tallies row hrow).2]
    simp [tally]
  have hamounts : rows.map (fun r => r.amount) = rows.map ((fun k =>
      ((payments.filter fun p => keyOf p == k).map fun p => p.row.1.amount).sum) ∘ RevenueRow.key) := by
    apply List.map_congr_left
    intro row hrow
    rw [(h.tallies row hrow).2]
    rfl
  rw [addUp, hcounts, hamounts, hcount, hamount, tally]
  simp

/-- The order and the labels of the rows do not matter. -/
theorem of_perm (h : CountsOnce keyOf payments rows) {shown : RevenueRow → RevenueRow}
    (hshown : ∀ r, (shown r).key = r.key ∧ (shown r).toTally = r.toTally) (hperm : rows'.Perm rows) :
    CountsOnce keyOf payments (rows'.map shown) := by
  have hkeys : (rows'.map shown).map RevenueRow.key = rows'.map RevenueRow.key := by
    rw [List.map_map]
    exact List.map_congr_left fun r _ => (hshown r).1
  constructor
  · rw [hkeys]
    exact (hperm.map _).nodup_iff.2 h.keys
  · intro p hp
    obtain ⟨row, hrow, hkey⟩ := h.counted p hp
    exact ⟨shown row, List.mem_map_of_mem (hperm.symm.subset hrow), (hshown row).1.trans hkey⟩
  · intro row hrow
    obtain ⟨r, hr, rfl⟩ := List.mem_map.1 hrow
    rw [(hshown r).1, (hshown r).2]
    exact h.tallies r (hperm.subset hr)

end CountsOnce

/-! ## The rows of a report -/

section Rows

variable {d : Db}

/-- The payments of one status that the query counts. -/
def counted (d : Db) (env : Env) (tz : String) (range : DateRange) (query : RevenueValues)
    (grants : List Grant) (status : PaymentStatus) : List Received :=
  (received d).filter fun r =>
    r.row.1.status == status && inWindow env tz range r && covered query grants r

theorem countsOnce_revenueRows (h : Constrained d) (env : Env) (tz : String) (range : DateRange)
    (query : RevenueValues) (grants : List Grant) (status : PaymentStatus) :
    CountsOnce (fun r => (grouping env tz query.groupBy r).1) (counted d env tz range query grants status)
      (revenueRows env tz range query grants status d) := by
  set payments := counted d env tz range query grants status with hpayments
  have hmem : ∀ p ∈ payments, p ∈ received d := fun p hp => (List.mem_filter.1 hp).1
  -- Groups with one key would have one label, and so be one group.
  have hkeys : ((groupBy (grouping env tz query.groupBy) payments).map fun g => g.1.1).Nodup := by
    have hpairs := groupBy_keys_nodup (grouping env tz query.groupBy) payments
    rw [List.Nodup, List.pairwise_map] at hpairs ⊢
    apply hpairs.imp_of_mem
    intro g g' hg hg' hne heq
    obtain ⟨⟨p, hp, hpg⟩, -⟩ := mem_groupBy.1 hg
    obtain ⟨⟨q, hq, hqg⟩, -⟩ := mem_groupBy.1 hg'
    apply hne
    rw [← hpg, ← hqg]
    exact label_of_key h env tz _ (hmem p hp) (hmem q hq) (by rw [hpg, hqg, heq])
  constructor
  · rw [revenueRows, List.map_map]
    exact hkeys
  · intro p hp
    obtain ⟨g, hg, hkey⟩ := exists_group (grouping env tz query.groupBy) hp
    exact ⟨_, List.mem_map_of_mem hg, congrArg Prod.fst hkey⟩
  · intro row hrow
    obtain ⟨g, hg, rfl⟩ := List.mem_map.1 hrow
    obtain ⟨⟨p, hp, hpg⟩, -⟩ := mem_groupBy.1 hg
    refine ⟨⟨p, hp, by rw [hpg]⟩, ?_⟩
    have hsame : g.2 = payments.filter fun q => (grouping env tz query.groupBy q).1 == g.1.1 := by
      apply group_eq_filter hg
      intro q hq
      rw [beq_iff_eq]
      constructor
      · intro hkey
        rw [← hpg] at hkey ⊢
        exact label_of_key h env tz _ (hmem q hq) (hmem p hp) hkey
      · exact fun heq => by rw [heq]
    rw [hsame]

variable {range : DateRange} {inst : Numbering.InstitutionRow}

/-- An accepted request is answered with rows that count each payment in the window once. -/
theorem revenue_answer (h : Constrained d) (env : Env) (query : RevenueValues) (grants : List Grant)
    (hinst : d.billing.numbering.institution = some inst)
    (hrange : resolveRange query.start query.stop (env.zone env.now inst.timezone) = .ok range) :
    ∃ report, (revenue env query grants).alone d = (.ok report, d) ∧ report.range = range ∧
      CountsOnce (fun r => (grouping env inst.timezone query.groupBy r).1)
        (counted d env inst.timezone range query grants .posted) report.rows ∧
      report.totals = tally (fun p : Received => p.row.1.amount)
        (counted d env inst.timezone range query grants .posted) ∧
      report.voided = tally (fun p : Received => p.row.1.amount)
        (counted d env inst.timezone range query grants .void) := by
  set rows := ((revenueRows env inst.timezone range query grants .posted d).insertionSort fun r s =>
    revenueOrder query.groupBy r s = true).map fun r =>
      if query.groupBy = .method then { r with label := (METHOD_LABELS r.key).getD r.key } else r with hrows
  have hrun : (revenue env query grants).alone d = (.ok ⟨range, query.groupBy, d.currency, rows, addUp rows,
      addUp (revenueRows env inst.timezone range query grants .void d)⟩, d) := by
    rw [revenue, alone_institution hinst]
    simp only []
    rw [alone_today env hinst, hrange]
    rfl
  have hposted : CountsOnce (fun r => (grouping env inst.timezone query.groupBy r).1)
      (counted d env inst.timezone range query grants .posted) rows := by
    apply (countsOnce_revenueRows h env inst.timezone range query grants .posted).of_perm
    · intro r
      split <;> exact ⟨rfl, rfl⟩
    · exact List.perm_insertionSort _ _
  clear_value rows
  refine ⟨_, hrun, rfl, hposted, hposted.addUp_eq, ?_⟩
  exact (countsOnce_revenueRows h env inst.timezone range query grants .void).addUp_eq

end Rows

/-! ## Midnights -/

/-- The midnight that PostgreSQL takes a date to start with. Where a clock change
repeats the hour after it, that is the later one, so the date may have begun before. -/
structure Midnights (env : Env) (tz : String) : Prop where
  before : ∀ t date, t < env.midnight tz date → env.zone t tz ≤ date
  after : ∀ t date, env.midnight tz date ≤ t → date ≤ env.zone t tz

theorem Midnights.mono {env : Env} {tz : String} (h : Midnights env tz) {date date' : Day}
    (hlt : date < date') : env.midnight tz date ≤ env.midnight tz date' := by
  by_contra hgt
  have hbefore := h.before _ _ (not_le.1 hgt)
  have hafter := h.after _ _ (le_refl (env.midnight tz date'))
  exact absurd hlt (not_lt.2 (hafter.trans hbefore))

/-- The payments of one status that were received on a local day of the range. -/
def receivedOn (d : Db) (env : Env) (tz : String) (range : DateRange) (query : RevenueValues)
    (grants : List Grant) (status : PaymentStatus) : List Received :=
  (received d).filter fun r => r.row.1.status == status &&
    (decide (range.start ≤ env.zone r.row.1.receivedAt tz) &&
      decide (env.zone r.row.1.receivedAt tz ≤ range.stop)) && covered query grants r

/-- No payment that counts was received on the first day, or on the day after the
last, before the instant taken for its midnight. -/
def NoneEarly (d : Db) (env : Env) (tz : String) (range : DateRange) (query : RevenueValues)
    (grants : List Grant) : Prop :=
  ∀ r ∈ received d, r.row.1.status = .posted → covered query grants r = true →
    ∀ date, date = range.start ∨ date = range.stop + 1 → env.zone r.row.1.receivedAt tz = date →
      env.midnight tz date ≤ r.row.1.receivedAt

section Window

variable {d : Db} {env : Env} {tz : String} {range : DateRange} {query : RevenueValues}
  {grants : List Grant}

theorem inWindow_iff {r : Received} : inWindow env tz range r = true ↔
    env.midnight tz range.start ≤ r.row.1.receivedAt ∧
      r.row.1.receivedAt < env.midnight tz (range.stop + 1) := by
  simp [inWindow]

theorem mem_counted {status : PaymentStatus} {r : Received} :
    r ∈ counted d env tz range query grants status ↔ r ∈ received d ∧
      (r.row.1.status = status ∧ inWindow env tz range r = true) ∧ covered query grants r = true := by
  simp [counted, and_assoc]

theorem mem_receivedOn {status : PaymentStatus} {r : Received} :
    r ∈ receivedOn d env tz range query grants status ↔ r ∈ received d ∧
      (r.row.1.status = status ∧ range.start ≤ env.zone r.row.1.receivedAt tz ∧
        env.zone r.row.1.receivedAt tz ≤ range.stop) ∧ covered query grants r = true := by
  simp [receivedOn, and_assoc]

/-- With no early payment the window holds those of the local days. -/
theorem counted_eq (hmid : Midnights env tz) (h : NoneEarly d env tz range query grants) :
    counted d env tz range query grants .posted = receivedOn d env tz range query grants .posted := by
  apply List.filter_congr
  intro r hr
  by_cases hcovered : covered query grants r = true
  · by_cases hposted : r.row.1.status = .posted
    · have hwindow : inWindow env tz range r = (decide (range.start ≤ env.zone r.row.1.receivedAt tz) &&
          decide (env.zone r.row.1.receivedAt tz ≤ range.stop)) := by
        rw [Bool.eq_iff_iff, inWindow_iff, Bool.and_eq_true, decide_eq_true_eq, decide_eq_true_eq]
        have hearly := h r hr hposted hcovered
        constructor
        · rintro ⟨hstart, hstop⟩
          refine ⟨hmid.after _ _ hstart, ?_⟩
          have hle := hmid.before _ _ hstop
          by_contra hgt
          have hnext : env.zone r.row.1.receivedAt tz = range.stop + 1 := by
            simp only [Day] at *
            omega
          exact absurd hstop (not_lt.2 (hearly _ (.inr rfl) hnext))
        · rintro ⟨hstart, hstop⟩
          constructor
          · by_contra hlt
            have hle := hmid.before _ _ (not_le.1 hlt)
            exact hlt (hearly _ (.inl rfl) (le_antisymm hle hstart))
          · by_contra hge
            have hle := hmid.after _ _ (not_lt.1 hge)
            simp only [Day] at *
            omega
      rw [hwindow]
    · have hother : (r.row.1.status == PaymentStatus.posted) = false := by simpa using hposted
      simp only [hother, Bool.false_and]
  · simp [hcovered]

/-- Counted by days, the payments of the window are those of the local days only if
none was early. -/
theorem noneEarly_of_counted (hmid : Midnights env tz) (hstop : range.start ≤ range.stop)
    {rows : List RevenueRow}
    (hcounted : CountsOnce (fun r => (grouping env tz .day r).1)
      (counted d env tz range query grants .posted) rows)
    (h : CountsOnce (fun r => (grouping env tz .day r).1)
      (receivedOn d env tz range query grants .posted) rows) :
    NoneEarly d env tz range query grants := by
  intro r hr hposted hcovered date hdate hzone
  by_contra hlt
  rcases hdate with rfl | rfl
  · -- The row of the first day has all its payments, of which the window holds only some.
    have hmem : r ∈ receivedOn d env tz range query grants .posted :=
      mem_receivedOn.2 ⟨hr, ⟨hposted, hzone.ge, hzone.le.trans hstop⟩, hcovered⟩
    obtain ⟨row, hrow, hkey⟩ := h.counted r hmem
    have hsame : (counted d env tz range query grants .posted).filter
        (fun p => (grouping env tz .day p).1 == row.key) =
          ((receivedOn d env tz range query grants .posted).filter
            fun p => (grouping env tz .day p).1 == row.key).filter (inWindow env tz range) := by
      rw [counted, receivedOn, List.filter_filter, List.filter_filter, List.filter_filter]
      apply List.filter_congr
      intro p _
      by_cases hday : (grouping env tz .day p).1 = row.key
      · have hfirst : env.zone p.row.1.receivedAt tz = range.start := by
          rw [← hzone]
          exact Caption.day.inj (hday.trans hkey)
        simp only [hday, hfirst, beq_self_eq_true, Bool.true_and, le_refl, decide_true, hstop,
          Bool.and_true]
        cases inWindow env tz range p <;> simp
      · have hother : ((grouping env tz .day p).1 == row.key) = false := by simpa using hday
        simp only [hother, Bool.false_and, Bool.and_false]
    have hcounts := congrArg Tally.count
      (((hcounted.tallies row hrow).2).symm.trans (h.tallies row hrow).2)
    simp only [tally, hsame] at hcounts
    have hall := List.length_filter_eq_length_iff.1 hcounts r
      (List.mem_filter.2 ⟨hmem, by rw [hkey, beq_self_eq_true]⟩)
    exact hlt (inWindow_iff.1 hall).1
  · -- A payment of the day after the last has a row, which no local day of the range explains.
    have hlast : ¬ range.stop + 1 ≤ range.start := by
      simp only [Day] at *
      omega
    have hwindow : r ∈ counted d env tz range query grants .posted := by
      refine mem_counted.2 ⟨hr, ⟨hposted, inWindow_iff.2 ⟨?_, not_le.1 hlt⟩⟩, hcovered⟩
      by_contra hbefore
      exact hlast (hzone ▸ hmid.before _ _ (not_le.1 hbefore))
    obtain ⟨row, hrow, hkey⟩ := hcounted.counted r hwindow
    obtain ⟨⟨p, hp, hpkey⟩, -⟩ := h.tallies row hrow
    have hle := (mem_receivedOn.1 hp).2.1.2.2
    have hday : env.zone p.row.1.receivedAt tz = env.zone r.row.1.receivedAt tz :=
      Caption.day.inj (hpkey.trans hkey)
    rw [hday, hzone] at hle
    simp only [Day] at hle
    omega

/-! ## Two ranges that meet -/

theorem tally_filter_or {ρ : Type} (amount : ρ → ℤ) {p q q' : ρ → Bool} {rows : List ρ}
    (hor : ∀ r ∈ rows, p r = (q r || q' r)) (hand : ∀ r ∈ rows, (q r && q' r) = false) :
    tally amount (rows.filter p) = tally amount (rows.filter q) + tally amount (rows.filter q') := by
  have hsum : ∀ a b : Tally, a + b = ⟨a.count + b.count, a.amount + b.amount⟩ := fun _ _ => rfl
  induction rows with
  | nil => rfl
  | cons r rows ih =>
      have hrest := ih (fun s hs => hor s (List.mem_cons_of_mem _ hs))
        fun s hs => hand s (List.mem_cons_of_mem _ hs)
      have hr := hor r List.mem_cons_self
      have hr' := hand r List.mem_cons_self
      simp only [tally, hsum, Tally.mk.injEq] at hrest ⊢
      rw [List.filter_cons, List.filter_cons, List.filter_cons, hr]
      cases hq : q r with
      | true =>
          have hq' : q' r = false := by simpa [hq] using hr'
          simp only [hq', Bool.or_false, if_true, Bool.false_eq_true, if_false, List.length_cons,
            List.map_cons, List.sum_cons]
          omega
      | false =>
          cases hq' : q' r with
          | true =>
              simp only [Bool.or_true, if_true, Bool.false_eq_true, if_false, List.length_cons,
                List.map_cons, List.sum_cons]
              omega
          | false => simpa using hrest

/-- The window of a range is cut in two at any midnight within it. -/
theorem tally_counted_split (hmid : Midnights env tz) {date : Day} (hstart : range.start ≤ date)
    (hstop : date < range.stop) (status : PaymentStatus) :
    tally (fun p : Received => p.row.1.amount) (counted d env tz range query grants status) =
      tally (fun p : Received => p.row.1.amount)
          (counted d env tz ⟨range.start, date⟩ query grants status) +
        tally (fun p : Received => p.row.1.amount)
          (counted d env tz ⟨date + 1, range.stop⟩ query grants status) := by
  have hfirst : env.midnight tz range.start ≤ env.midnight tz (date + 1) := by
    apply hmid.mono
    simp only [Day] at *
    omega
  have hlast : env.midnight tz (date + 1) ≤ env.midnight tz (range.stop + 1) := by
    apply hmid.mono
    simp only [Day] at *
    omega
  apply tally_filter_or
  · intro r _
    have hwindow : inWindow env tz range r =
        (inWindow env tz ⟨range.start, date⟩ r || inWindow env tz ⟨date + 1, range.stop⟩ r) := by
      rw [Bool.eq_iff_iff, Bool.or_eq_true, inWindow_iff, inWindow_iff, inWindow_iff]
      simp only [Instant] at *
      omega
    rw [hwindow]
    cases r.row.1.status == status <;> simp [Bool.and_or_distrib_right]
  · intro r _
    have hapart : ¬ (inWindow env tz ⟨range.start, date⟩ r = true ∧
        inWindow env tz ⟨date + 1, range.stop⟩ r = true) := by
      rw [inWindow_iff, inWindow_iff]
      simp only [Instant] at *
      omega
    rw [← Bool.not_eq_true, Bool.and_eq_true, Bool.and_eq_true, Bool.and_eq_true, Bool.and_eq_true,
      Bool.and_eq_true]
    exact fun h => hapart ⟨h.1.1.2, h.2.1.2⟩

end Window

/-! ## The reports of a range -/

/-- The reports of a range, by whatever they are grouped, agree with the cash book. -/
structure Agrees (d : Db) (env : Env) (tz : String) (range : DateRange) (query : RevenueValues)
    (grants : List Grant) : Prop where
  /-- Each posted payment of a local day of the range, in scope, is counted once. -/
  counted : ∀ by_, ∃ report, ((revenue env { query with groupBy := by_ } grants).alone d).1 = .ok report ∧
    CountsOnce (fun r => (grouping env tz by_ r).1) (receivedOn d env tz range query grants .posted)
      report.rows
  totals : ∀ by_ by_' report report',
    ((revenue env { query with groupBy := by_ } grants).alone d).1 = .ok report →
    ((revenue env { query with groupBy := by_' } grants).alone d).1 = .ok report' →
    report.totals = report'.totals ∧ report.voided = report'.voided
  split : ∀ date, range.start ≤ date → date < range.stop → ∀ by_, ∃ whole first second,
    ((revenue env { query with groupBy := by_ } grants).alone d).1 = .ok whole ∧
    ((revenue env { query with groupBy := by_, start := some range.start, stop := some date }
      grants).alone d).1 = .ok first ∧
    ((revenue env { query with groupBy := by_, start := some (date + 1), stop := some range.stop }
      grants).alone d).1 = .ok second ∧
    whole.totals = first.totals + second.totals ∧ whole.voided = first.voided + second.voided
  /-- Unfiltered and over every payment, the total is what the invoices say was paid. -/
  all : query.branchId = none → query.departmentId = none → query.method = none →
    (scopesFor grants .reportsFinance).all = true →
    (∀ p ∈ d.billing.payments, p.status = .posted →
      range.start ≤ env.zone p.receivedAt tz ∧ env.zone p.receivedAt tz ≤ range.stop) →
    ∀ by_ report, ((revenue env { query with groupBy := by_ } grants).alone d).1 = .ok report →
      report.totals.amount = (d.billing.invoices.map InvoiceRow.paidTotal).sum

section Agreement

variable {d : Db} {env : Env} {range : DateRange} {query : RevenueValues} {grants : List Grant}
  {inst : Numbering.InstitutionRow}

theorem resolveRange_ok {start stop : Option Day} {today : Day}
    (h : resolveRange start stop today = .ok range) :
    range.start ≤ range.stop ∧ ∀ first last, range.start ≤ first → first ≤ last → last ≤ range.stop →
      resolveRange (some first) (some last) today = .ok ⟨first, last⟩ := by
  unfold resolveRange at h
  dsimp only at h
  split at h
  · cases h
  rename_i hle
  split at h
  · cases h
  rename_i hshort
  obtain rfl := Except.ok.inj h
  rw [daysBetween, roundDays_sub] at hshort
  refine ⟨not_lt.1 hle, fun first last hfirst horder hlast => ?_⟩
  unfold resolveRange
  dsimp only [Option.getD_some]
  rw [daysBetween, roundDays_sub, if_neg (not_lt.2 horder), if_neg]
  simp only [Day, MAX_REPORT_DAYS] at *
  omega

/-- Unfiltered, the payments of the local days are all that were posted. -/
theorem amount_receivedOn (h : Constrained d) (hbooks : Books d.billing) {tz : String}
    (hbranch : query.branchId = none) (hdepartment : query.departmentId = none)
    (hmethod : query.method = none) (hscope : (scopesFor grants .reportsFinance).all = true)
    (hrange : ∀ p ∈ d.billing.payments, p.status = .posted →
      range.start ≤ env.zone p.receivedAt tz ∧ env.zone p.receivedAt tz ≤ range.stop) :
    (tally (fun p : Received => p.row.1.amount)
      (receivedOn d env tz range query grants .posted)).amount =
        (d.billing.invoices.map InvoiceRow.paidTotal).sum := by
  have hall : receivedOn d env tz range query grants .posted =
      (received d).filter fun r => r.row.1.status == .posted := by
    apply List.filter_congr
    intro r hr
    have hmem : r.row.1 ∈ d.billing.payments :=
      received_payments h ▸ List.mem_map_of_mem hr
    have hcovered : covered query grants r = true := by
      simp [covered, scope, hbranch, hdepartment, hmethod, hscope]
    rw [hcovered, Bool.and_true]
    cases hstatus : r.row.1.status == .posted with
    | false => rfl
    | true =>
        obtain ⟨hstart, hstop⟩ := hrange _ hmem (by simpa using hstatus)
        simp [hstart, hstop]
  rw [sum_paidTotal hbooks, hall, ← received_payments h, total_map]
  rfl

/-- The report of a range by any grouping, for part of a query's own range too. -/
theorem answer_of_range (h : Constrained d) (query : RevenueValues) (grants : List Grant)
    (hinst : d.billing.numbering.institution = some inst)
    {start stop : Option Day}
    (hrange : resolveRange start stop (env.zone env.now inst.timezone) = .ok range) (by_ : RevenueGrouping) :
    ∃ report, ((revenue env { query with groupBy := by_, start := start, stop := stop } grants).alone d).1 =
        .ok report ∧
      CountsOnce (fun r => (grouping env inst.timezone by_ r).1)
        (counted d env inst.timezone range query grants .posted) report.rows ∧
      report.totals = tally (fun p : Received => p.row.1.amount)
        (counted d env inst.timezone range query grants .posted) ∧
      report.voided = tally (fun p : Received => p.row.1.amount)
        (counted d env inst.timezone range query grants .void) := by
  obtain ⟨report, hrun, -, hrows, htotals, hvoided⟩ :=
    revenue_answer h env { query with groupBy := by_, start := start, stop := stop } grants hinst hrange
  exact ⟨report, by rw [hrun], hrows, htotals, hvoided⟩

theorem agrees_of_noneEarly (h : Constrained d) (hbooks : Books d.billing)
    (hinst : d.billing.numbering.institution = some inst) (hmid : Midnights env inst.timezone)
    (hrange : resolveRange query.start query.stop (env.zone env.now inst.timezone) = .ok range)
    (hearly : NoneEarly d env inst.timezone range query grants) :
    Agrees d env inst.timezone range query grants := by
  have heq := counted_eq hmid hearly
  have hanswer := answer_of_range h query grants hinst hrange
  constructor
  · intro by_
    obtain ⟨report, hrun, hrows, -⟩ := hanswer by_
    exact ⟨report, hrun, heq ▸ hrows⟩
  · intro by_ by_' report report' hreport hreport'
    obtain ⟨found, hrun, -, htotals, hvoided⟩ := hanswer by_
    obtain ⟨found', hrun', -, htotals', hvoided'⟩ := hanswer by_'
    obtain rfl := Except.ok.inj (hreport.symm.trans hrun)
    obtain rfl := Except.ok.inj (hreport'.symm.trans hrun')
    exact ⟨htotals.trans htotals'.symm, hvoided.trans hvoided'.symm⟩
  · intro date hstart hstop by_
    have hparts := (resolveRange_ok hrange).2
    have hle : date + 1 ≤ range.stop := by
      simp only [Day] at *
      omega
    have hfirst := hparts range.start date (le_refl _) hstart hstop.le
    have hsecond := hparts (date + 1) range.stop (by simp only [Day] at *; omega) hle (le_refl _)
    obtain ⟨whole, hwhole, -, htotals, hvoided⟩ := hanswer by_
    obtain ⟨first, hfirstRun, -, hfirstTotals, hfirstVoided⟩ :=
      answer_of_range h query grants hinst hfirst by_
    obtain ⟨second, hsecondRun, -, hsecondTotals, hsecondVoided⟩ :=
      answer_of_range h query grants hinst hsecond by_
    refine ⟨whole, first, second, hwhole, hfirstRun, hsecondRun, ?_, ?_⟩
    · rw [htotals, hfirstTotals, hsecondTotals, tally_counted_split hmid hstart hstop]
    · rw [hvoided, hfirstVoided, hsecondVoided, tally_counted_split hmid hstart hstop]
  · intro hbranch hdepartment hmethod hscope hall by_ report hreport
    obtain ⟨found, hrun, -, htotals, -⟩ := hanswer by_
    obtain rfl := Except.ok.inj (hreport.symm.trans hrun)
    rw [htotals, heq]
    exact amount_receivedOn h hbooks hbranch hdepartment hmethod hscope hall

end Agreement

/-- In every state that bills and payments can lead to, the reports of an accepted
range agree with the cash book exactly if no payment was early. -/
theorem revenue_agrees (d₀ : Billing.Db) (hstart : NoBills d₀) (calls : List Call) (d : Db)
    (hd : d.billing = afterAll d₀ calls) (h : Constrained d) (inst : Numbering.InstitutionRow)
    (hinst : d.billing.numbering.institution = some inst) (env : Env)
    (hmid : Midnights env inst.timezone) (query : RevenueValues) (grants : List Grant) (range : DateRange)
    (hrange : resolveRange query.start query.stop (env.zone env.now inst.timezone) = .ok range) :
    Agrees d env inst.timezone range query grants ↔ NoneEarly d env inst.timezone range query grants := by
  constructor
  · intro hagrees
    obtain ⟨report, hreport, hlocal⟩ := hagrees.counted .day
    obtain ⟨found, hrun, hrows, -⟩ := answer_of_range h query grants hinst hrange .day
    obtain rfl := Except.ok.inj (hreport.symm.trans hrun)
    exact noneEarly_of_counted hmid (resolveRange_ok hrange).1 hrows hlocal
  · have hbooks : Books d.billing := by
      rw [hd]
      exact hstart.books.afterAll calls
    exact agrees_of_noneEarly h hbooks hinst hmid hrange

/-! ## A clock change at midnight -/

/-- In Havana summer time ends on 2026-11-01 at 01:00, which becomes 00:00. -/
def endOfSummer : Instant := 20758 * 86400000 + 5 * 3600000

def havana (now : Instant) : Env where
  now := now
  zone t _ := if t < endOfSummer then (t - 4 * 3600000) / 86400000 else (t - 5 * 3600000) / 86400000
  midnight _ date := date * 86400000 + if date < 20758 then 4 * 3600000 else 5 * 3600000

theorem havana_midnights (now : Instant) (tz : String) : Midnights (havana now) tz := by
  constructor
  · intro t date h
    simp only [havana, endOfSummer, Instant, Day] at *
    split_ifs at * <;> omega
  · intro t date h
    simp only [havana, endOfSummer, Instant, Day] at *
    split_ifs at * <;> omega

/-- The office, in Havana. -/
def havanaOffice : Billing.Db :=
  { office with numbering := { office.numbering with institution := some ⟨"America/Havana", ⟨1, 1⟩⟩ } }

/-- Pay 600.00 at the instant `received`. -/
def payAt (received : Instant) : Call :=
  .record { idsFrom 20 with now := received } inCash cashier "manual"

/-- What the reports read once the payment is made. -/
def booksOf (received : Instant) : Db where
  billing := afterAll havanaOffice [bill, payAt received]
  courses := [⟨1, 1⟩]
  programs := [⟨1, "English", 1⟩]
  departments := [⟨1, "Languages"⟩]
  students := [⟨1, "STU-1", "Abebe", "Kebede"⟩]

/-- November 2026, seen in December. -/
def november : RevenueValues := { start := some 20758, stop := some 20787 }

def december : Env := havana (20790 * 86400000)

theorem havanaOffice_noBills : NoBills havanaOffice := ⟨rfl, rfl, rfl, rfl, rfl, rfl, rfl⟩

/-- 2026-11-02 at noon. -/
def noon : Instant := 20759 * 86400000 + 17 * 3600000

theorem revenue_agrees_november : Constrained (booksOf noon) ∧
    Agrees (booksOf noon) december "America/Havana" ⟨20758, 20787⟩ november accountant := by
  have hconstrained : Constrained (booksOf noon) := by constructor <;> decide +kernel
  refine ⟨hconstrained, ?_⟩
  have hiff := revenue_agrees havanaOffice havanaOffice_noBills [bill, payAt noon] (booksOf noon) rfl
    hconstrained ⟨"America/Havana", ⟨1, 1⟩⟩ (by decide +kernel) december (havana_midnights _ _) november
    accountant ⟨20758, 20787⟩ (by decide +kernel)
  apply hiff.2
  have hnoon : ∀ r ∈ received (booksOf noon), r.row.1.receivedAt = noon := by decide +kernel
  intro r hr _ _ date hdate hzone
  rw [hnoon r hr] at hzone
  have hday : december.zone noon "America/Havana" = 20759 := by decide
  rcases hdate with rfl | rfl
  · simp [hday] at hzone
  · simp [hday] at hzone

/-- 2026-11-01 at 00:30, of which there are two: half an hour before summer time ends. -/
def halfPastMidnight : Instant := 20758 * 86400000 + 4 * 3600000 + 1800000

/-- The payment falls on 1 November, and the report of November has no row. -/
theorem revenue_misses_payment : NoBills havanaOffice ∧ Constrained (booksOf halfPastMidnight) ∧
    (booksOf halfPastMidnight).billing = afterAll havanaOffice [bill, payAt halfPastMidnight] ∧
    Midnights december "America/Havana" ∧
    december.zone halfPastMidnight "America/Havana" = 20758 ∧
    ¬ Agrees (booksOf halfPastMidnight) december "America/Havana" ⟨20758, 20787⟩ november accountant := by
  refine ⟨havanaOffice_noBills, by constructor <;> decide +kernel, rfl, havana_midnights _ _, by decide, ?_⟩
  intro hagrees
  obtain ⟨report, hreport, hrows⟩ := hagrees.counted .day
  have hnone : (((revenue december november accountant).alone (booksOf halfPastMidnight)).1.toOption.map
      RevenueResponse.rows) = some [] := by decide +kernel
  have hsome : (receivedOn (booksOf halfPastMidnight) december "America/Havana" ⟨20758, 20787⟩ november
      accountant .posted).length = 1 := by decide +kernel
  obtain ⟨p, hp⟩ := List.length_eq_one_iff.1 hsome
  obtain ⟨row, hrow, -⟩ := hrows.counted p (by simp [hp])
  have hempty : report.rows = [] := by
    have hreport' : ((revenue december november accountant).alone (booksOf halfPastMidnight)).1 =
        .ok report := hreport
    rw [hreport'] at hnone
    exact Option.some.inj hnone
  simp [hempty] at hrow

end Emis.Reports
