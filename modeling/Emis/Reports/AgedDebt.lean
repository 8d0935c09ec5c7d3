import Emis.Reports.ReportsService

/-!
# Aged debt adds up

The summary ages an instalment by a `CASE`, the listing by a range of due dates
and each item by the number of days. They are the same bucket, and the pages of a
bucket hold as many instalments and as much debt as its line in the summary.
-/

namespace Emis.Reports

open Transactions Billing ReportsService

theorem bucketExpr_eq (asOf due : Day) :
    bucketExpr asOf due = agingBucketFor (roundDays (dateParse asOf - dateParse due)) := by
  rw [roundDays_sub]
  rfl

theorem contains_iff (bucket : AgingBucket) (asOf due : Day) :
    (bucketDueRange bucket asOf).contains due = true ↔ bucketExpr asOf due = bucket :=
  contains_bucketDueRange bucket asOf due

section Rows

variable {d : Db}

/-- The join with the students neither loses nor repeats an instalment. -/
theorem studentInstalments_fst (h : Constrained d) :
    (studentInstalments d).map Joined.fst = instalments d := by
  have hstudents : (Joined.with_ StudentRow.id (fun r => r.invoice.studentId) d.students
      (Joined.withInvoice d InstallmentRow.invoiceId d.billing.installments)).map Joined.fst =
        Joined.withInvoice d InstallmentRow.invoiceId d.billing.installments := by
    apply Joined.with_fst h.studentIds
    intro r hr
    exact h.invoiceStudent r.invoice (Joined.mem_withInvoice hr).2.1
  rw [studentInstalments, Joined.withProgram_fst h, hstudents, instalments]

theorem instalments_ids (h : Constrained d) : ((instalments d).map fun r => r.row.id).Nodup := by
  have hrows : (instalments d).map (fun r => r.row.id) =
      ((Joined.withInvoice d InstallmentRow.invoiceId d.billing.installments).map Joined.row).map
        InstallmentRow.id := by
    rw [instalments, Joined.withProgram_eq h, List.map_map, List.map_map]
    rfl
  rw [hrows]
  exact ((Joined.withInvoice_sublist h _ _).map InstallmentRow.id).nodup h.installmentIds

theorem studentInstalments_ids (h : Constrained d) :
    ((studentInstalments d).map fun r => r.row.1.id).Nodup := by
  have hfst := congrArg (List.map fun r : Joined InstallmentRow => r.row.id) (studentInstalments_fst h)
  rw [List.map_map] at hfst
  exact hfst ▸ instalments_ids h

theorem studentInstalments_keys (h : Constrained d) : ((studentInstalments d).map dueKey).Nodup := by
  have hids := studentInstalments_ids h
  rw [List.Nodup, List.pairwise_map] at hids ⊢
  exact hids.imp fun hne heq => hne (congrArg (fun k => (ofLex k).2) heq)

/-- What is listed of a bucket. -/
def listed (d : Db) (query : OutstandingQuery) (grants : List Grant) (asOf : Day) (bucket : AgingBucket) :
    List Owed :=
  (studentInstalments d).filter fun r =>
    owedConditions query grants r.fst && (bucketDueRange bucket asOf).contains r.row.1.dueDate

/-- What is listed of a bucket is what the summary groups under it. -/
theorem listed_fst (h : Constrained d) (query : OutstandingQuery) (grants : List Grant) (asOf : Day)
    (bucket : AgingBucket) : (listed d query grants asOf bucket).map Joined.fst =
      ((instalments d).filter (owedConditions query grants)).filter fun r =>
        bucketExpr asOf r.row.dueDate == bucket := by
  rw [← studentInstalments_fst h, List.filter_map, List.filter_map, List.filter_filter, listed]
  congr 1
  apply List.filter_congr
  intro r _
  rw [Bool.and_comm]
  congr 1
  rw [Bool.eq_iff_iff, contains_iff]
  simp [Joined.fst]

theorem listed_length_le (h : Constrained d) (query : OutstandingQuery) (grants : List Grant) (asOf : Day)
    (bucket : AgingBucket) :
    (listed d query grants asOf bucket).length ≤ d.billing.installments.length := by
  have hrows : (studentInstalments d).length = (instalments d).length := by
    rw [← studentInstalments_fst h, List.length_map]
  have hinvoices := (Joined.withInvoice_sublist h InstallmentRow.invoiceId d.billing.installments).length_le
  rw [List.length_map] at hinvoices
  calc (listed d query grants asOf bucket).length ≤ (studentInstalments d).length :=
        List.length_filter_le _ _
    _ = (instalments d).length := hrows
    _ = (Joined.withInvoice d InstallmentRow.invoiceId d.billing.installments).length := by
        rw [instalments, Joined.withProgram_eq h, List.length_map]
    _ ≤ d.billing.installments.length := hinvoices

end Rows

/-! ## The summary and the listing -/

section Answers

variable {d : Db} {inst : Numbering.InstitutionRow}

theorem alone_measuredOn {α : Type} (hinst : d.billing.numbering.institution = some inst) (env : Env)
    (asOf : Option Day) (k : Day → Tx α) :
    (measuredOn env asOf >>= k).alone d =
      (k (asOf.getD (env.zone env.now inst.timezone))).alone d := by
  cases asOf with
  | some asOf => rfl
  | none => exact alone_today env hinst k

/-- A line of the summary: how much is owed in its bucket. -/
def agingRow (d : Db) (query : OutstandingQuery) (grants : List Grant) (asOf : Day)
    (bucket : AgingBucket) : AgingRow where
  toTally := tally (fun r : Joined InstallmentRow => r.row.amount - r.row.paidAmount)
    (((instalments d).filter (owedConditions query grants)).filter fun r =>
      bucketExpr asOf r.row.dueDate == bucket)
  bucket := bucket
  label := AGING_LABELS bucket

/-- A line of the summary counts and adds up what is listed of its bucket. -/
theorem agingRow_eq (h : Constrained d) (query : OutstandingQuery) (grants : List Grant) (asOf : Day)
    (bucket : AgingBucket) : (agingRow d query grants asOf bucket).toTally =
      tally (fun r : Owed => r.row.1.amount - r.row.1.paidAmount) (listed d query grants asOf bucket) := by
  rw [agingRow, ← listed_fst h, tally, tally, List.length_map, List.map_map]
  rfl

/-- A bucket that no instalment is in counts as nothing. -/
theorem tally_groupBy {κ ρ : Type} [DecidableEq κ] (key : ρ → κ) (amount : ρ → ℤ) (rows : List ρ) (k : κ) :
    let row := (((groupBy key rows).map fun g => (g.1, tally amount g.2)).find? fun r => r.1 == k).map
      Prod.snd
    (⟨(row.map Tally.count).getD 0, (row.map Tally.amount).getD 0⟩ : Tally) =
      tally amount (rows.filter fun r => key r == k) := by
  rw [← find?_groupBy k, List.find?_map]
  simp only [Function.comp_def]
  cases (groupBy key rows).find? fun g => g.1 == k <;> rfl

theorem outstanding_buckets (hinst : d.billing.numbering.institution = some inst) (env : Env)
    (query : OutstandingQuery) (grants : List Grant) :
    ∃ summary, (outstanding env query grants).alone d = (.ok summary, d) ∧
      summary.buckets = AGING_BUCKETS.map
        (agingRow d query grants (query.asOf.getD (env.zone env.now inst.timezone))) := by
  rw [outstanding, alone_institution hinst]
  simp only []
  rw [alone_measuredOn hinst]
  refine ⟨_, rfl, ?_⟩
  apply List.map_congr_left
  intro bucket _
  have hrow := tally_groupBy (fun r : Joined InstallmentRow =>
    bucketExpr (query.asOf.getD (env.zone env.now inst.timezone)) r.row.dueDate)
    (fun r => r.row.amount - r.row.paidAmount) ((instalments d).filter (owedConditions query grants)) bucket
  rw [agingRow, ← hrow]

/-- The rows of a page of a bucket, and the cursor of the next. -/
def pageRows (d : Db) (query : OutstandingQuery) (grants : List Grant) (asOf : Day)
    (bucket : AgingBucket) (limit : ℕ) (cursor : Option DueCursor) : List Owed × Option DueCursor :=
  Keyset.cut dueKey limit ((Keyset.ascending dueKey
    ((listed d query grants asOf bucket).filter fun r =>
      cursor.all fun cursor => decide (cursor < dueKey r))).take (limit + 1))

def pageOf (d : Db) (query : OutstandingQuery) (grants : List Grant) (asOf : Day) (bucket : AgingBucket)
    (limit : ℕ) (cursor : Option DueCursor) : OutstandingItemsResponse where
  items := (pageRows d query grants asOf bucket limit cursor).1.map fun r => toItem r asOf
  nextCursor := (pageRows d query grants asOf bucket limit cursor).2

theorem outstandingItems_page (hinst : d.billing.numbering.institution = some inst) (env : Env)
    (query : OutstandingQuery) (grants : List Grant) (bucket : AgingBucket) (limit : ℕ)
    (hlimit : 1 ≤ limit ∧ limit ≤ 100) (cursor : Option DueCursor) :
    (outstandingItems env ⟨query, some bucket, cursor, limit, hlimit⟩ grants).alone d =
      (.ok (pageOf d query grants (query.asOf.getD (env.zone env.now inst.timezone)) bucket limit
        cursor), d) := by
  rw [outstandingItems, alone_measuredOn hinst, pageOf, pageRows, listed, List.filter_filter]
  simp only [Bool.and_comm]
  rfl

/-- The pages of a bucket add up to what is listed of it. -/
theorem follow_pageOf (h : Constrained d) (query : OutstandingQuery) (grants : List Grant) (asOf : Day)
    (bucket : AgingBucket) {limit : ℕ} (hlimit : 1 ≤ limit) {fuel : ℕ}
    (hfuel : d.billing.installments.length < fuel) :
    Keyset.follow (fun c => ((pageOf d query grants asOf bucket limit c).items,
        (pageOf d query grants asOf bucket limit c).nextCursor)) fuel none =
      some ((Keyset.ascending dueKey (listed d query grants asOf bucket)).map fun r => toItem r asOf) := by
  have hkeys : ((listed d query grants asOf bucket).map dueKey).Nodup :=
    (List.filter_sublist.map _).nodup (studentInstalments_keys h)
  have hlength := listed_length_le h query grants asOf bucket
  have hfetch : ∀ c, pageRows d query grants asOf bucket limit c = Keyset.cut dueKey limit
      ((Keyset.ascending dueKey ((listed d query grants asOf bucket).filter fun r =>
        c.all fun c => decide (c < dueKey r))).take (limit + 1)) := fun c => by rw [pageRows]
  have hwalk := Keyset.follow_sorted hlimit hkeys hfetch (Nat.lt_of_le_of_lt hlength hfuel)
  have hmap := Keyset.follow_map (fun r => toItem r asOf) (pageRows d query grants asOf bucket limit)
    fuel none
  rw [hwalk, Option.map_some] at hmap
  simpa only [pageOf] using hmap

theorem bucket_toItem {query : OutstandingQuery} {grants : List Grant} {asOf : Day} {bucket : AgingBucket}
    {r : Owed} (hr : r ∈ listed d query grants asOf bucket) : (toItem r asOf).bucket = bucket := by
  have hmatch := (List.mem_filter.1 hr).2
  rw [Bool.and_eq_true, contains_iff] at hmatch
  exact (bucketExpr_eq _ _).symm.trans hmatch.2

end Answers

/-- The three ways to age an instalment agree and leave no gap and no overlap; and
whatever the filters, the grants and the size of the pages, walking through a bucket
gives the items that its line of the summary counts and adds up. -/
theorem outstanding_adds_up :
    (∀ asOf due : Day, bucketExpr asOf due = agingBucketFor (roundDays (dateParse asOf - dateParse due)) ∧
      ∀ bucket, (bucketDueRange bucket asOf).contains due = true ↔ bucket = bucketExpr asOf due) ∧
    ∀ (d : Db), Constrained d → ∀ (env : Env) (query : OutstandingQuery) (grants : List Grant)
      (summary : OutstandingResponse), ((outstanding env query grants).alone d).1 = .ok summary →
      summary.buckets.map AgingRow.bucket = AGING_BUCKETS ∧
      ∀ row ∈ summary.buckets, ∀ (limit : ℕ) (hlimit : 1 ≤ limit ∧ limit ≤ 100),
        ∃ (pages : Option DueCursor → OutstandingItemsResponse) (items : List OutstandingItem),
          (∀ cursor, (outstandingItems env ⟨query, some row.bucket, cursor, limit, hlimit⟩ grants).alone d =
            (.ok (pages cursor), d)) ∧
          (∀ fuel, d.billing.installments.length < fuel →
            Keyset.follow (fun c => ((pages c).items, (pages c).nextCursor)) fuel none = some items) ∧
          (items.map OutstandingItem.installmentId).Nodup ∧
          (∀ item ∈ items, item.bucket = row.bucket) ∧
          row.count = items.length ∧ row.amount = (items.map OutstandingItem.owed).sum := by
  constructor
  · intro asOf due
    refine ⟨bucketExpr_eq asOf due, fun bucket => ?_⟩
    rw [contains_iff, eq_comm]
  intro d h env query grants summary hsummary
  cases hinst : d.billing.numbering.institution with
  | none =>
      rw [outstanding, alone_no_institution hinst] at hsummary
      cases hsummary
  | some inst =>
      set asOf := query.asOf.getD (env.zone env.now inst.timezone) with hasOf
      obtain ⟨found, hfound, hbuckets⟩ := outstanding_buckets hinst env query grants
      rw [hfound] at hsummary
      obtain rfl := Except.ok.inj hsummary
      rw [← hasOf] at hbuckets
      constructor
      · rw [hbuckets, List.map_map]
        rfl
      intro row hrow limit hlimit
      obtain ⟨bucket, -, rfl⟩ := List.mem_map.1 (hbuckets ▸ hrow)
      set rows := Keyset.ascending dueKey (listed d query grants asOf bucket) with hrows
      have hperm : rows.Perm (listed d query grants asOf bucket) := Keyset.ascending_perm
      refine ⟨pageOf d query grants asOf bucket limit, rows.map fun r => toItem r asOf, ?_, ?_, ?_, ?_, ?_, ?_⟩
      · exact outstandingItems_page hinst env query grants bucket limit hlimit
      · exact fun fuel hfuel => follow_pageOf h query grants asOf bucket hlimit.1 hfuel
      · rw [List.map_map]
        exact (hperm.map _).nodup_iff.2 ((List.filter_sublist.map _).nodup (studentInstalments_ids h))
      · intro item hitem
        obtain ⟨r, hr, rfl⟩ := List.mem_map.1 hitem
        exact bucket_toItem (hperm.subset hr)
      · rw [agingRow_eq h, List.length_map, hperm.length_eq]
        rfl
      · rw [agingRow_eq h, List.map_map, (hperm.map _).sum_eq]
        rfl

/-- One student owes two instalments of 500.00, of which the first is a day late on day 100. -/
def oneStudent : Db where
  billing :=
    { numbering :=
        { institution := some ⟨"Africa/Addis_Ababa", ⟨7, 8⟩⟩
          branches := [⟨1, Numbering.AB, "Bole", true⟩] }
      invoices := [⟨10, ['1'], 1, none, none, 1, "ETB", .issued, [], 100000, 0, 100000, 0, 1, 0⟩]
      installments := [⟨11, 10, 1, 99, 50000, 0⟩, ⟨12, 10, 2, 129, 50000, 0⟩] }
  students := [⟨1, "STU-1", "Abebe", "Kebede"⟩]

theorem oneStudent_constrained : Constrained oneStudent := by
  constructor <;> decide

theorem outstanding_adds_up_oneStudent : ∃ summary : OutstandingResponse,
    ((outstanding {} { asOf := some 100 } accountant).alone oneStudent).1 = .ok summary ∧
      ∀ row ∈ summary.buckets, ∃ items : List OutstandingItem,
        row.count = items.length ∧ row.amount = (items.map OutstandingItem.owed).sum := by
  refine ⟨_, rfl, fun row hrow => ?_⟩
  obtain ⟨-, hrows⟩ :=
    outstanding_adds_up.2 oneStudent oneStudent_constrained {} { asOf := some 100 } accountant _ rfl
  obtain ⟨_, items, -, -, -, -, hcount, hamount⟩ := hrows row hrow 1 (by decide)
  exact ⟨items, hcount, hamount⟩

end Emis.Reports
