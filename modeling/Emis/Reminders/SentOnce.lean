import Emis.Billing.Frames
import Emis.Library.Script
import Emis.Reminders.FeeRemindersService

/-!
# Reminders in every interleaving

Instalments keep their due dates and invoices their birthdays, so what one run records of
an instalment and what a later one does are judged by the same due date.
-/

namespace Emis.Reminders

open Transactions Protocol Billing

variable (zone : Instant → String → Day)

/-! ## What reminders depend on -/

def institutionOf (d : Db) : Option Numbering.InstitutionRow := d.billing.numbering.institution

/-- The instalments: their ids, their invoices and their due dates. -/
def termOf (p : InstallmentRow) : Uuid × Uuid × Day := (p.id, p.invoiceId, p.dueDate)

def terms (d : Db) : List (Uuid × Uuid × Day) := d.billing.installments.map termOf

/-- The invoices: their ids and when they were created. -/
def birthOf (i : InvoiceRow) : Uuid × Instant := (i.id, i.createdAt)

def births (d : Db) : List (Uuid × Instant) := d.billing.invoices.map birthOf

/-- The tables that only runs write in. -/
def records (d : Db) : List ReminderLogRow × List Email := (d.reminderLog, d.emails)

/-- On its day the reminder was due, and its invoice was not new. -/
def Due (d : Db) (r : ReminderLogRow) : Prop :=
  ∃ inst t b sent, institutionOf d = some inst ∧ t ∈ terms d ∧ b ∈ births d ∧ t.1 = r.installmentId ∧ b.1 = t.2.1 ∧
    zone b.2 inst.timezone ≠ r.day ∧ stageToSend (daysPastDue r.day t.2.2) sent = some r.stage

/-- The row that was recorded with an e-mail. -/
def Email.entry (e : Email) : ReminderLogRow := ⟨e.installmentId, e.input.stage, .queued, e.day⟩

def queued (r : ReminderLogRow) : Bool := r.outcome == .queued

variable (inOrder : Prop)

/-- What holds at all times; that the days do not go back only where it is asked for. -/
structure Regular (d : Db) : Prop where
  terms : ((terms d).map Prod.fst).Nodup
  keys : (d.reminderLog.map ReminderLogRow.key).Nodup
  due : ∀ r ∈ d.reminderLog, Due zone d r
  emails : d.emails.map Email.entry = d.reminderLog.filter queued
  owing : ∀ e ∈ d.emails, 0 < e.input.owed
  ordered : inOrder → d.reminderLog.Pairwise fun r s => r.day ≤ s.day

/-- Everything is only added to, under the locks of its keys. -/
structure Own (S : Set Lock) (d d' : Db) : Prop where
  institution : institutionOf d' = institutionOf d
  terms : ∃ made, terms d' = terms d ++ made ∧ ∀ t ∈ made, .billing (.installment t.1) ∈ S
  births : births d ⊆ births d'
  log : ∃ made, d'.reminderLog = d.reminderLog ++ made ∧ ∀ r ∈ made, .reminder r.installmentId r.stage ∈ S

def protocol : Protocol Db Lock where
  Inv := Regular zone inOrder
  Guar := Own

variable {zone inOrder} {S : Set Lock} {f : Db → Db} {d d' : Db}

theorem Due.grows {r : ReminderLogRow} (hown : Own S d d') (h : Due zone d r) : Due zone d' r := by
  obtain ⟨inst, t, b, sent, hinst, ht, hb, h⟩ := h
  obtain ⟨made, hmade, -⟩ := hown.terms
  refine ⟨inst, t, b, sent, hown.institution.trans hinst, ?_, hown.births hb, h⟩
  rw [hmade]
  exact List.mem_append_left _ ht

/-- Rows with keys of their own stay beside what is added. -/
theorem free_beside {ρ κ : Type} {key : ρ → κ} {rows others made : List ρ}
    (hfree : ((rows ++ made).map key).Nodup) (hkeys : ((rows ++ others).map key).Nodup)
    (hapart : ∀ r ∈ made, ∀ s ∈ others, key s ≠ key r) : ((rows ++ others ++ made).map key).Nodup := by
  rw [List.map_append, List.nodup_append] at hfree ⊢
  refine ⟨hkeys, hfree.2.1, fun i hi j hj => ?_⟩
  obtain ⟨r, hr, rfl⟩ := List.mem_map.1 hj
  rw [List.map_append] at hi
  rcases List.mem_append.1 hi with hi | hi
  · exact hfree.2.2 i hi (key r) hj
  · obtain ⟨s, hs, rfl⟩ := List.mem_map.1 hi
    exact hapart r hr s hs

section Rely

variable (h : (protocol zone inOrder).Rely S d d')

include h

theorem rely_institution : institutionOf d' = institutionOf d := by
  refine h.same (χ := institutionOf) ?_
  rintro d₁ d₂ ⟨-, T, -, hown⟩
  exact hown.institution

theorem rely_due {r : ReminderLogRow} (hr : Due zone d r) : Due zone d' r := by
  refine h.stable (φ := fun d => Due zone d r) ?_ hr
  rintro d₁ d₂ ⟨-, T, -, hown⟩ hdue
  exact hdue.grows hown

/-- Ids whose locks are held stay free. -/
theorem rely_terms {made : List (Uuid × Uuid × Day)} (hheld : ∀ t ∈ made, .billing (.installment t.1) ∈ S)
    (hfree : ((terms d ++ made).map Prod.fst).Nodup) : ((terms d' ++ made).map Prod.fst).Nodup := by
  refine h.stable (φ := fun d => ((terms d ++ made).map Prod.fst).Nodup) ?_ hfree
  rintro d₁ d₂ ⟨hinv, T, hdisj, hown⟩ hfree₁
  obtain ⟨others, hothers, htheirs⟩ := hown.terms
  have hids := hinv.terms
  rw [hothers] at hids ⊢
  refine free_beside hfree₁ hids fun t ht u hu heq => ?_
  exact Set.disjoint_left.1 hdisj (hheld t ht) (heq ▸ htheirs u hu)

/-- Keys whose locks are held stay free. -/
theorem rely_keys {made : List ReminderLogRow} (hheld : ∀ r ∈ made, .reminder r.installmentId r.stage ∈ S)
    (hfree : ((d.reminderLog ++ made).map ReminderLogRow.key).Nodup) :
    ((d'.reminderLog ++ made).map ReminderLogRow.key).Nodup := by
  refine h.stable (φ := fun d => ((d.reminderLog ++ made).map ReminderLogRow.key).Nodup) ?_ hfree
  rintro d₁ d₂ ⟨hinv, T, hdisj, hown⟩ hfree₁
  obtain ⟨others, hothers, htheirs⟩ := hown.log
  have hkeys := hinv.keys
  rw [hothers] at hkeys ⊢
  refine free_beside hfree₁ hkeys fun r hr s hs heq => ?_
  obtain ⟨hid, hstage⟩ := Prod.mk.inj heq
  have htheir := htheirs s hs
  rw [hid, hstage] at htheir
  exact Set.disjoint_left.1 hdisj (hheld r hr) htheir

end Rely

/-! ## Requests to the billing services -/

/-- All that reminders depend on. -/
def seen (d : Db) : Option Numbering.InstitutionRow × List (Uuid × Uuid × Day) × List (Uuid × Instant) ×
    List ReminderLogRow × List Email :=
  (institutionOf d, terms d, births d, records d)

/-- The same of the billing tables. -/
def seenOf (b : Billing.Db) : Option Numbering.InstitutionRow × List (Uuid × Uuid × Day) × List (Uuid × Instant) :=
  (b.numbering.institution, b.installments.map termOf, b.invoices.map birthOf)

theorem keeps_inBilling {α : Type} {p : Billing.Tx α} (hp : p.Keeps seenOf) : (inBilling p).Keeps seen := by
  refine hp.zoom fun b d hb => ?_
  obtain ⟨hinst, hterms, hbirths⟩ : b.numbering.institution = institutionOf d ∧ b.installments.map termOf = terms d ∧
      b.invoices.map birthOf = births d := by
    simpa [seenOf, institutionOf, terms, births] using hb
  simp only [seen, institutionOf, terms, births, records, hinst, hterms, hbirths]

theorem apart_seenOf : Apart seenOf where
  numbering d n hn := by simp only [seenOf, hn]
  payments _ _ := rfl
  allocations _ _ := rfl
  receipts _ _ := rfl
  discounts _ _ := rfl
  requests _ _ := rfl
  paid d i amount := by
    have hterms : (changeWhere (fun r => r.id == i) (PaymentsService.addPaid amount) d.installments).map termOf =
        d.installments.map termOf := map_changeWhere fun _ => rfl
    simp only [seenOf, hterms]
  cut d i amount := by
    have hterms : (changeWhere (fun r => r.id == i) (InvoicesService.setAmount amount) d.installments).map termOf =
        d.installments.map termOf := map_changeWhere fun _ => rfl
    simp only [seenOf, hterms]
  settled d i before parts := by
    have hbirths : (changeWhere (fun r => r.id == i) (InvoicesService.settledRow before parts) d.invoices).map birthOf =
        d.invoices.map birthOf := map_changeWhere fun _ => rfl
    simp only [seenOf, hbirths]

/-- What is pending adds the instalments `made`. -/
structure Issues (g : Db → Db) (made : List (Uuid × Uuid × Day)) : Prop where
  institution : ∀ x, institutionOf (g x) = institutionOf x
  terms : ∀ x, terms (g x) = terms x ++ made
  births : ∀ x, births x ⊆ births (g x)
  records : ∀ x, records (g x) = records x

theorem Issues.start : Issues id [] := ⟨fun _ => rfl, fun _ => (List.append_nil _).symm, fun _ _ h => h, fun _ => rfl⟩

theorem Issues.quiet {g : Db → Db} {made : List (Uuid × Uuid × Day)} (h : Issues f made)
    (hg : ∀ x, seen (g x) = seen x) : Issues (g ∘ f) made := by
  have hsame : ∀ x, institutionOf (g x) = institutionOf x ∧ Reminders.terms (g x) = Reminders.terms x ∧
      Reminders.births (g x) = Reminders.births x ∧ Reminders.records (g x) = Reminders.records x := fun x => by
    simpa only [seen, Prod.mk.injEq] using hg x
  refine ⟨fun x => (hsame _).1.trans (h.institution x), fun x => (hsame _).2.1.trans (h.terms x), fun x => ?_,
    fun x => (hsame _).2.2.2.trans (h.records x)⟩
  rw [Function.comp_apply, (hsame _).2.2.1]
  exact h.births x

theorem Issues.done {made : List (Uuid × Uuid × Day)} {Ok : Set Lock → Db → Prop} {a : Reply} (h : Issues f made)
    (hheld : ∀ t ∈ made, .billing (.installment t.1) ∈ S) (hfree : ((Reminders.terms d ++ made).map Prod.fst).Nodup) :
    (protocol zone inOrder).DoneIf Ok (fun _ _ _ => True) a S f d := by
  intro d' hr hi _
  have hrecords : (f d').reminderLog = d'.reminderLog ∧ (f d').emails = d'.emails := Prod.mk.inj (h.records d')
  have hown : Own S d' (f d') := by
    refine ⟨h.institution d', ⟨made, h.terms d', hheld⟩, h.births d', [], ?_, by simp⟩
    rw [hrecords.1, List.append_nil]
  refine ⟨hown, ⟨?_, ?_, ?_, ?_, ?_, ?_⟩, trivial⟩
  · rw [h.terms]
    exact rely_terms hr hheld hfree
  · rw [hrecords.1]
    exact hi.keys
  · rw [hrecords.1]
    exact fun r hrow => (hi.due r hrow).grows hown
  · rw [hrecords.1, hrecords.2]
    exact hi.emails
  · rw [hrecords.2]
    exact hi.owing
  · rw [hrecords.1]
    exact hi.ordered

/-- A statement that reminders do not depend on. -/
theorem wp_quiet {α : Type} {p : Tx α} {made : List (Uuid × Uuid × Day)} {K : α → Set Lock → (Db → Db) → Db → Prop}
    (hp : p.Keeps seen) (hf : Issues f made) (hd : Regular zone inOrder d)
    (hK : ∀ a S' g d', S ⊆ S' → Issues (g ∘ f) made → (protocol zone inOrder).Rely S d d' →
      Regular zone inOrder d' → K a S' (g ∘ f) d') :
    (protocol zone inOrder).wp K Anyway p S f d :=
  wp_of_keeps hp hd fun a S' g d' hS hg hr hi => hK a S' g d' hS (hf.quiet hg) hr hi

theorem wp_insertInvoice {row : InvoiceRow} {K : Unit → Set Lock → (Db → Db) → Db → Prop}
    (hf : Issues f []) (hd : Regular zone inOrder d)
    (hK : ∀ S' g d', Issues g [] → Regular zone inOrder d' → K () S' g d') :
    (protocol zone inOrder).wp K Anyway (inBilling (insertInvoice row)) S f d := by
  simp only [insertInvoice, inBilling, Prog.zoom_bind, wp_bind]
  refine wp_quiet (keeps_inBilling (keeps_enforce _)) hf hd fun _ S f d _ hf _ hd => ?_
  refine wp_quiet (keeps_inBilling (.acquire _)) hf hd fun _ S f d _ hf _ hd => ?_
  refine wp_quiet (keeps_inBilling (.acquire _)) hf hd fun _ S f d _ hf _ hd => ?_
  refine wp_quiet (keeps_inBilling (keeps_lockEach _ _)) hf hd fun _ S f d _ hf _ hd => ?_
  refine wp_quiet (keeps_inBilling .get) hf hd fun _ S f d _ hf _ hd => ?_
  refine wp_quiet (keeps_inBilling (.require _ _)) hf hd fun _ S f d _ hf _ hd => ?_
  rw [Prog.zoom_modify, wp_modify]
  refine hK _ _ _ ⟨hf.institution, hf.terms, fun x b hb => ?_, hf.records⟩ hd
  exact List.map_subset birthOf (List.subset_append_left _ _) (hf.births x hb)

theorem wp_locked (rows : List InstallmentRow) {K : Unit → Set Lock → (Db → Db) → Db → Prop}
    (hf : Issues f []) (hd : Regular zone inOrder d)
    (hK : ∀ S' g d', S ⊆ S' → (∀ r ∈ rows, .billing (.installment r.id) ∈ S') → Issues g [] → Regular zone inOrder d' →
      K () S' g d') :
    (protocol zone inOrder).wp K Anyway
      (inBilling (rows.forM fun r => (Prog.acquire (.installment r.id) : Billing.Tx PUnit))) S f d := by
  induction rows generalizing S f d with
  | nil => exact hK S f d subset_rfl (by simp) hf hd
  | cons r rows ih =>
      have hcons : (r :: rows).forM (fun r => (Prog.acquire (.installment r.id) : Billing.Tx PUnit)) =
          Prog.acquire (.installment r.id) >>= fun _ => rows.forM fun r => Prog.acquire (.installment r.id) := rfl
      rw [hcons, inBilling, Prog.zoom_bind, wp_bind, Prog.zoom_acquire, wp_acquire]
      intro d₁ _ hi
      refine ih hf hi fun S' g d' hS hlocked hg hd' => ?_
      refine hK S' g d' ((Set.subset_insert _ _).trans hS) (fun s hs => ?_) hg hd'
      rcases List.mem_cons.1 hs with rfl | hs
      · exact hS (Set.mem_insert _ _)
      · exact hlocked s hs

/-- The ids of the new instalments are locked and free. -/
theorem wp_insertInstallments {rows : List InstallmentRow} {K : Unit → Set Lock → (Db → Db) → Db → Prop}
    (hf : Issues f []) (hd : Regular zone inOrder d)
    (hK : ∀ S' g d', Issues g (rows.map termOf) → (∀ t ∈ rows.map termOf, .billing (.installment t.1) ∈ S') →
      ((terms d' ++ rows.map termOf).map Prod.fst).Nodup → Regular zone inOrder d' → K () S' g d') :
    (protocol zone inOrder).wp K Anyway (inBilling (insertInstallments rows)) S f d := by
  simp only [insertInstallments, inBilling, Prog.zoom_bind, wp_bind]
  refine wp_quiet (keeps_inBilling (keeps_enforce _)) hf hd fun _ S f d _ hf _ hd => ?_
  refine wp_locked rows hf hd fun S f d _ hlocked hf hd => ?_
  simp only [Prog.zoom_get, Prog.zoom_require, Prog.zoom_modify, wp_map, wp_get, wp_require, wp_modify]
  intro d₁ _ hi
  refine ⟨fun hfree => ?_, fun _ => trivial⟩
  have hterms := hf.terms d₁
  rw [List.append_nil] at hterms
  refine hK _ _ d₁ ⟨hf.institution, fun x => ?_, hf.births, hf.records⟩ ?_ ?_ hi
  · have hx := hf.terms x
    rw [List.append_nil] at hx
    exact List.map_append.trans (congrArg (· ++ rows.map termOf) hx)
  · intro t ht
    obtain ⟨r, hr, rfl⟩ := List.mem_map.1 ht
    exact hlocked r hr
  · rw [← hterms]
    simpa [terms, termOf, Function.comp_def] using hfree

theorem create_safe (env : Env) (input : CreateInvoiceValues) (grants : List Grant) {Ok : Set Lock → Db → Prop}
    (hd : Regular zone inOrder d) : (protocol zone inOrder).wp ((protocol zone inOrder).DoneIf Ok fun _ _ _ => True)
      Anyway (Call.code zone (.billing (.create env input grants))) ∅ id d := by
  have hf : Issues id [] := .start
  rw [Call.code, wp_map, Billing.Call.code, ← bind_pure_comp]
  simp only [InvoicesService.create, inBilling, Prog.zoom_bind, wp_bind]
  refine wp_quiet (keeps_inBilling (.bind .get fun _ => .pure _)) hf hd fun _ S f d _ hf _ hd => ?_
  refine wp_quiet (keeps_inBilling (.expect _ _)) hf hd fun ctx S f d _ hf _ hd => ?_
  refine wp_quiet (keeps_inBilling (keeps_assertScope _ _ _)) hf hd fun _ S f d _ hf _ hd => ?_
  refine wp_quiet (keeps_inBilling (.require _ _)) hf hd fun _ S f d _ hf _ hd => ?_
  refine wp_quiet (keeps_inBilling .get) hf hd fun _ S f d _ hf _ hd => ?_
  refine wp_quiet (keeps_inBilling (.require _ _)) hf hd fun _ S f d _ hf _ hd => ?_
  refine wp_quiet (keeps_inBilling (.bind .get fun _ => .expect _ _)) hf hd fun _ S f d _ hf _ hd => ?_
  refine wp_quiet (keeps_inBilling (keeps_today _)) hf hd fun _ S f d _ hf _ hd => ?_
  refine wp_quiet (keeps_inBilling (keeps_priceFor _ _ _)) hf hd fun _ S f d _ hf _ hd => ?_
  refine wp_quiet (keeps_inBilling (.expect _ _)) hf hd fun _ S f d _ hf _ hd => ?_
  refine wp_quiet (keeps_inBilling (keeps_planFor _)) hf hd fun _ S f d _ hf _ hd => ?_
  refine wp_quiet (keeps_inBilling (keeps_next apart_seenOf.numbering _ _ _)) hf hd fun _ S f d _ hf _ hd => ?_
  refine wp_insertInvoice hf hd fun S f d hf hd => ?_
  refine wp_quiet (keeps_inBilling (.ofExcept _)) hf hd fun _ S f d _ hf _ hd => ?_
  refine wp_insertInstallments hf hd fun S f d hf hlocked hfree hd => ?_
  refine wp_quiet (keeps_inBilling (keeps_invoiceView _ _)) hf hd fun _ S' f d' hS hf hr _ => ?_
  rw [Prog.zoom_pure, wp_pure]
  exact hf.done (fun t ht => hS (hlocked t ht)) (rely_terms hr hlocked hfree)

theorem billing_safe (call : Billing.Call) {Ok : Set Lock → Db → Prop} (hd : Regular zone inOrder d) :
    (protocol zone inOrder).wp ((protocol zone inOrder).DoneIf Ok fun _ _ _ => True) Anyway
      (Call.code zone (.billing call)) ∅ id d := by
  have hquiet : call.code.Keeps seenOf → (protocol zone inOrder).wp
      ((protocol zone inOrder).DoneIf Ok fun _ _ _ => True) Anyway (Call.code zone (.billing call)) ∅ id d := by
    intro hcall
    rw [Call.code, wp_map]
    refine wp_quiet (keeps_inBilling hcall) .start hd fun _ S f d _ hf _ hd => ?_
    exact hf.done (by simp) (by simpa using hd.terms)
  cases call with
  | create env input grants => exact create_safe env input grants hd
  | record => exact hquiet (.map _ (keeps_record apart_seenOf _ _ _ _))
  | requestDiscount => exact hquiet (.map _ (keeps_requestDiscount apart_seenOf _ _ _ _ _))
  | requestVoid => exact hquiet (.map _ (keeps_requestVoid apart_seenOf _ _ _ _ _))
  | decide => exact hquiet (.map _ (keeps_decide apart_seenOf _ _ _ _))

/-! ## Runs -/

/-- What a run has recorded and not committed. -/
structure Pending (zone : Instant → String → Day) (day : Day) (S : Set Lock) (f : Db → Db) (d : Db)
    (made : List ReminderLogRow) (mails : List Email) : Prop where
  billing : ∀ x, (f x).billing = x.billing
  log : ∀ x, (f x).reminderLog = x.reminderLog ++ made
  emails : ∀ x, (f x).emails = x.emails ++ mails
  queued : mails.map Email.entry = made.filter queued
  owing : ∀ e ∈ mails, 0 < e.input.owed
  held : ∀ r ∈ made, .reminder r.installmentId r.stage ∈ S
  free : ((d.reminderLog ++ made).map ReminderLogRow.key).Nodup
  due : ∀ r ∈ made, Due zone d r
  day : ∀ r ∈ made, r.day = day

namespace Pending

variable {day : Day} {made : List ReminderLogRow} {mails : List Email}

theorem start (hd : Regular zone inOrder d) : Pending zone day S id d [] [] where
  billing _ := rfl
  log _ := (List.append_nil _).symm
  emails _ := (List.append_nil _).symm
  queued := rfl
  owing := by simp
  held := by simp
  free := by simpa using hd.keys
  due := by simp
  day := by simp

theorem later {S' : Set Lock} (h : Pending zone day S f d made mails) (hS : S ⊆ S')
    (hr : (protocol zone inOrder).Rely S d d') : Pending zone day S' f d' made mails where
  billing := h.billing
  log := h.log
  emails := h.emails
  queued := h.queued
  owing := h.owing
  held r hmade := hS (h.held r hmade)
  free := rely_keys hr h.held h.free
  due r hmade := rely_due hr (h.due r hmade)
  day := h.day

/-- One more reminder, with an e-mail if there is somebody to write to. -/
theorem add {g : Db → Db} {r : ReminderLogRow} {m : List Email} (h : Pending zone day S f d made mails)
    (hbilling : ∀ x, (g x).billing = x.billing) (hlog : ∀ x, (g x).reminderLog = x.reminderLog ++ [r])
    (hemails : ∀ x, (g x).emails = x.emails ++ m) (hmail : m.map Email.entry = [r].filter Reminders.queued)
    (howing : ∀ e ∈ m, 0 < e.input.owed) (hheld : .reminder r.installmentId r.stage ∈ S)
    (hfree : ∀ s ∈ (f d).reminderLog, s.key ≠ r.key) (hdue : Due zone d r) (hday : r.day = day) :
    Pending zone day S (g ∘ f) d (made ++ [r]) (mails ++ m) where
  billing x := (hbilling _).trans (h.billing x)
  log x := by rw [Function.comp_apply, hlog, h.log, List.append_assoc]
  emails x := by rw [Function.comp_apply, hemails, h.emails, List.append_assoc]
  queued := by rw [List.map_append, List.filter_append, h.queued, hmail]
  owing := by
    intro e he
    rcases List.mem_append.1 he with he | he
    · exact h.owing e he
    · exact howing e he
  held := by
    intro s hs
    rcases List.mem_append.1 hs with hs | hs
    · exact h.held s hs
    · rwa [List.mem_singleton.1 hs]
  free := by
    rw [← List.append_assoc, List.map_append, List.nodup_append]
    refine ⟨h.free, List.nodup_singleton _, fun k hk k' hk' => ?_⟩
    obtain ⟨s, hs, rfl⟩ := List.mem_map.1 hk
    obtain rfl : k' = r.key := by simpa using hk'
    exact hfree s (h.log d ▸ hs)
  due := by
    intro s hs
    rcases List.mem_append.1 hs with hs | hs
    · exact h.due s hs
    · rwa [List.mem_singleton.1 hs]
  day := by
    intro s hs
    rcases List.mem_append.1 hs with hs | hs
    · exact h.day s hs
    · rwa [List.mem_singleton.1 hs]

/-- Committed where no reminder of a later day is recorded. -/
theorem done {Ok : Set Lock → Db → Prop} {a : Reply} (h : Pending zone day S f d made mails)
    (hok : inOrder → ∀ d', (protocol zone inOrder).Rely S d d' → Ok S d' → ∀ r ∈ d'.reminderLog, r.day ≤ day) :
    (protocol zone inOrder).DoneIf Ok (fun _ _ _ => True) a S f d := by
  intro d' hr hi hmay
  have hlate := h.later subset_rfl hr
  have hsame : institutionOf (f d') = institutionOf d' ∧ terms (f d') = terms d' ∧ births (f d') = births d' := by
    simp only [institutionOf, terms, births, hlate.billing, and_self]
  have hown : Own S d' (f d') := by
    refine ⟨hsame.1, ⟨[], ?_, by simp⟩, fun b hb => hsame.2.2 ▸ hb, made, hlate.log d', hlate.held⟩
    rw [hsame.2.1, List.append_nil]
  refine ⟨hown, ⟨?_, ?_, ?_, ?_, ?_, fun horder => ?_⟩, trivial⟩
  · rw [hsame.2.1]
    exact hi.terms
  · rw [hlate.log]
    exact hlate.free
  · intro r hrow
    rw [hlate.log] at hrow
    rcases List.mem_append.1 hrow with hrow | hrow
    · exact (hi.due r hrow).grows hown
    · exact (hlate.due r hrow).grows hown
  · rw [hlate.emails, hlate.log, List.map_append, List.filter_append, hi.emails, hlate.queued]
  · intro e he
    rw [hlate.emails] at he
    rcases List.mem_append.1 he with he | he
    · exact hi.owing e he
    · exact hlate.owing e he
  · rw [hlate.log, List.pairwise_append]
    refine ⟨hi.ordered horder, ?_, fun r hrow s hs => ?_⟩
    · exact List.pairwise_of_forall_mem_list fun r hrow s hs => by rw [hlate.day r hrow, hlate.day s hs]
    · rw [hlate.day s hs]
      exact hok horder d' hr hmay r hrow

end Pending

/-- What a run knows of an instalment it has selected. -/
def Known (d : Db) (c : Candidate) : Prop :=
  ∃ t ∈ terms d, ∃ b ∈ births d, t.1 = c.installmentId ∧ b.1 = t.2.1 ∧ t.2.2 = c.dueDate ∧ b.2 = c.invoiceCreatedAt

theorem rely_known {c : Candidate} (h : (protocol zone inOrder).Rely S d d') (hc : Known d c) : Known d' c := by
  refine h.stable (φ := fun d => Known d c) ?_ hc
  rintro d₁ d₂ ⟨-, T, -, hown⟩ ⟨t, ht, b, hb, hc₁⟩
  obtain ⟨made, hmade, -⟩ := hown.terms
  exact ⟨t, hmade ▸ List.mem_append_left _ ht, b, hown.births hb, hc₁⟩

theorem known_of_candidate {today : Day} {c : Candidate} (hc : c ∈ candidates today d.billing) :
    Known d c ∧ 0 < c.owed := by
  obtain ⟨p, hp, hjoined⟩ := List.mem_flatMap.1 hc
  obtain ⟨i, hfound, rfl⟩ := List.mem_map.1 hjoined
  obtain ⟨hi, hselected⟩ := List.mem_filter.1 hfound
  simp only [selected, Bool.and_eq_true, decide_eq_true_eq, beq_iff_eq] at hselected
  refine ⟨⟨termOf p, List.mem_map_of_mem hp, birthOf i, List.mem_map_of_mem hi, rfl, hselected.1.1.1.1, rfl, rfl⟩, ?_⟩
  have howed := hselected.1.1.2
  change 0 < p.amount - p.paidAmount
  omega

theorem wp_localDate (env : Env) (date : Instant) {K : Day → Set Lock → (Db → Db) → Db → Prop}
    (hbilling : ∀ x, (f x).billing = x.billing)
    (hK : ∀ d' inst, (protocol zone inOrder).Rely S d d' → Regular zone inOrder d' → institutionOf d' = some inst →
      K (env.zone date inst.timezone) S f d') :
    (protocol zone inOrder).wp K Anyway (localDate env date) S f d := by
  simp only [localDate, today, inBilling, inSettings, Numbering.institutionRow, Prog.zoom_bind, Prog.zoom_get,
    Prog.zoom_map, Prog.zoom_expect, Prog.zoom_pure, wp_bind, wp_map, wp_get]
  intro d₁ hr hi
  rw [wp_expect]
  refine ⟨fun inst hinst => ?_, fun _ => trivial⟩
  rw [hbilling] at hinst
  exact hK d₁ inst hr hi hinst

section Run

variable (env : Env) {day : Day} {made : List ReminderLogRow} {mails : List Email}

theorem remind_pending {lists : FeeRemindersService.Lists} {c : Candidate}
    {K : Bool → Set Lock → (Db → Db) → Db → Prop} (hday : lists.today = day) (hknown : Known d c) (howed : 0 < c.owed)
    (hpending : Pending env.zone day S f d made mails)
    (hK : ∀ sent S' f' d' made' mails', S ⊆ S' → (protocol env.zone inOrder).Rely S d d' →
      Pending env.zone day S' f' d' made' mails' → K sent S' f' d') :
    (protocol env.zone inOrder).wp K Anyway (FeeRemindersService.remind env lists c) S f d := by
  subst hday
  rw [FeeRemindersService.remind, wp_bind]
  refine wp_localDate env _ hpending.billing fun d₁ inst hr₁ _ hinst => ?_
  rw [wp_ite]
  refine ⟨fun _ => hK _ S f d₁ made mails subset_rfl hr₁ (hpending.later subset_rfl hr₁), fun hnew => ?_⟩
  dsimp only
  split
  · exact hK _ S f d₁ made mails subset_rfl hr₁ (hpending.later subset_rfl hr₁)
  rename_i stage hstage
  have hdue : ∀ outcome, Due env.zone d₁ ⟨c.installmentId, stage, outcome, lists.today⟩ := by
    intro outcome
    obtain ⟨t, ht, b, hb, hid, hinvoice, hdate, hborn⟩ := rely_known hr₁ hknown
    refine ⟨inst, t, b, (lists.sent.filter fun s => s.1 == c.installmentId).map Prod.snd, hinst, ht, hb, hid, hinvoice,
      ?_, ?_⟩
    · rw [hborn]
      exact hnew
    · rw [hdate]
      exact hstage
  simp only [insertReminder, wp_bind, wp_acquire, wp_get, wp_ite, wp_pure, wp_modify]
  intro d₂ hr₂ _ d₃ hr₃ _
  have hr : (protocol env.zone inOrder).Rely S d d₃ := hr₁.trans (hr₂.trans (hr₃.anti (Set.subset_insert _ _)))
  have hlate := hpending.later (Set.subset_insert (Lock.reminder c.installmentId stage) S) hr
  refine ⟨fun _ => hK _ _ f d₃ made mails (Set.subset_insert _ _) hr hlate, fun hfree => ?_⟩
  have hrow : ∀ outcome, ∀ s ∈ (f d₃).reminderLog,
      s.key ≠ ReminderLogRow.key ⟨c.installmentId, stage, outcome, lists.today⟩ := by
    intro outcome s hs heq
    exact hfree (List.any_eq_true.2 ⟨s, hs, by simpa [ReminderLogRow.key] using heq⟩)
  have hdue₃ : ∀ outcome, Due env.zone d₃ ⟨c.installmentId, stage, outcome, lists.today⟩ := fun outcome =>
    rely_due (hr₂.trans (hr₃.anti (Set.subset_insert _ _))) (hdue outcome)
  cases hrecipient : (FeeRemindersService.addressee lists c).1.filter (· ≠ "") with
  | none =>
      refine hK _ _ _ d₃ _ _ (Set.subset_insert _ _) hr (hlate.add (m := []) (r := _) (fun _ => rfl)
        (fun _ => rfl) (fun _ => (List.append_nil _).symm) rfl (by simp) (Set.mem_insert _ _) (hrow _) (hdue₃ _) rfl)
  | some recipient =>
      have hadded := hlate.add (r := ⟨c.installmentId, stage, .queued, lists.today⟩)
        (g := fun x => { x with
          reminderLog := x.reminderLog ++ [⟨c.installmentId, stage, .queued, lists.today⟩]
          emails := x.emails ++ [⟨recipient, ⟨stage, (FeeRemindersService.addressee lists c).2,
            lists.institutionName, c.invoiceNumber, c.sequence, c.owed, c.currency, c.dueDate⟩, c.installmentId,
            lists.today⟩] })
        (m := [⟨recipient, ⟨stage, (FeeRemindersService.addressee lists c).2, lists.institutionName,
          c.invoiceNumber, c.sequence, c.owed, c.currency, c.dueDate⟩, c.installmentId, lists.today⟩])
        (fun _ => rfl) (fun _ => rfl) (fun _ => rfl) rfl (by simpa using howed) (Set.mem_insert _ _) (hrow _)
        (hdue₃ _) rfl
      exact hK _ _ _ d₃ _ _ (Set.subset_insert _ _) hr hadded

theorem remindAll_pending {lists : FeeRemindersService.Lists} {K : ℕ → Set Lock → (Db → Db) → Db → Prop}
    (hday : lists.today = day) (cs : List Candidate) (n : ℕ) (hknown : ∀ c ∈ cs, Known d c ∧ 0 < c.owed)
    (hpending : Pending env.zone day S f d made mails)
    (hK : ∀ n S' f' d' made' mails', (protocol env.zone inOrder).Rely S d d' →
      Pending env.zone day S' f' d' made' mails' → K n S' f' d') :
    (protocol env.zone inOrder).wp K Anyway (FeeRemindersService.remindAll env lists cs n) S f d := by
  induction cs generalizing S f d made mails n with
  | nil => exact hK n S f d made mails .refl hpending
  | cons c cs ih =>
      rw [FeeRemindersService.remindAll, wp_bind]
      obtain ⟨hc, howed⟩ := hknown c List.mem_cons_self
      refine remind_pending env hday hc howed hpending fun sent S' f' d' made' mails' hS hr hpending' => ?_
      refine ih _ (fun c' hc' => ?_) hpending' fun n S'' f'' d'' made'' mails'' hr' => hK n S'' f'' d'' made'' mails''
        (hr.trans (hr'.anti hS))
      obtain ⟨hknown', howed'⟩ := hknown c' (List.mem_cons_of_mem _ hc')
      exact ⟨rely_known hr hknown', howed'⟩

/-- The date of a run, by the institution's clock. -/
def dateOf (zone : Instant → String → Day) (now : Instant) (today : Option Day) (d : Db) : Option Day :=
  (institutionOf d).map fun inst => today.getD (zone now inst.timezone)

theorem wp_dateOf {today : Option Day} {K : Day → Set Lock → (Db → Db) → Db → Prop}
    (hbilling : ∀ x, (f x).billing = x.billing)
    (hd : Regular env.zone inOrder d) (hK : ∀ d' day, (protocol env.zone inOrder).Rely S d d' →
      Regular env.zone inOrder d' → (∀ inst, institutionOf d' = some inst → dateOf env.zone env.now today d' = some day) →
      K day S f d') :
    (protocol env.zone inOrder).wp K Anyway (FeeRemindersService.dateOf env today) S f d := by
  cases today with
  | some day => exact hK d day .refl hd fun inst hinst => by rw [dateOf, hinst]; rfl
  | none =>
      refine wp_localDate env env.now hbilling fun d' inst hr hi hinst => hK d' _ hr hi fun inst' hinst' => ?_
      obtain rfl := Option.some.inj (hinst.symm.trans hinst')
      rw [dateOf, hinst]
      rfl

end Run

variable (zone) in
/-- A run commits while no reminder of a later date is recorded. -/
def Call.timely (call : Call) (d : Db) : Prop :=
  match call with
  | .billing _ => True
  | .run now today => ∀ day, dateOf zone now today d = some day → ∀ r ∈ d.reminderLog, r.day ≤ day

theorem run_safe (now : Instant) (today : Option Day) {Ok : Set Lock → Db → Prop}
    (hok : inOrder → ∀ S d, Ok S d → (Call.run now today).timely zone d) :
    (protocol zone inOrder).wp ((protocol zone inOrder).DoneIf Ok fun _ _ _ => True) Anyway
      (Call.code zone (.run now today)) ∅ id d := by
  have hnothing : ∀ d', Regular zone inOrder d' → (protocol zone inOrder).DoneIf Ok (fun _ _ _ => True) (Reply.queued 0) ∅ id d' :=
    fun d' hd' => Issues.start.done (by simp) (by simpa using hd'.terms)
  rw [Call.code, wp_map, FeeRemindersService.run]
  simp only [isEnabled, wp_bind, wp_get, wp_pure, wp_ite]
  refine fun d₁ hr₁ hi₁ => ⟨fun _ => ?_, fun _ => hnothing d₁ hi₁⟩
  refine wp_dateOf { now := now, zone := zone } (fun _ => rfl) hi₁ fun d₂ day hr₂ hi₂ hday => ?_
  simp only [inBilling, inSettings, Numbering.institutionRow, Prog.zoom_bind, Prog.zoom_get, Prog.zoom_map,
    Prog.zoom_expect, wp_bind, wp_map, wp_get]
  intro d₃ hr₃ _
  rw [wp_expect]
  refine ⟨fun inst hinst => ?_, fun _ => trivial⟩
  intro d₄ hr₄ _ d₅ hr₅ hi₅
  change (protocol zone inOrder).wp _ Anyway (if candidates day d₅.billing = [] then _ else _) ∅ id d₅
  rw [wp_ite]
  refine ⟨fun _ => hnothing d₅ hi₅, fun _ => ?_⟩
  simp only [wp_bind, wp_get]
  intro d₆ hr₆ _ d₇ hr₇ _ d₈ hr₈ hi₈
  have hafter := hr₄.trans (hr₅.trans (hr₆.trans (hr₇.trans hr₈)))
  have hdate : ∀ d', (protocol zone inOrder).Rely ∅ d₈ d' → dateOf zone now today d' = some day := by
    intro d' hr'
    have hinst₂ : institutionOf d₂ = some inst := (rely_institution hr₃).symm.trans hinst
    have hsame : institutionOf d' = institutionOf d₂ := rely_institution ((hr₃.trans hafter).trans hr')
    rw [dateOf, hsame]
    exact hday inst hinst₂
  refine remindAll_pending { now := now, zone := zone } rfl _ 0 (fun c hc => ?_) (Pending.start hi₈)
    fun n S' f' d' made mails hr' hpending => hpending.done fun horder d'' hr'' hmay => ?_
  · obtain ⟨hknown, howed⟩ := known_of_candidate hc
    exact ⟨rely_known (hr₆.trans (hr₇.trans hr₈)) hknown, howed⟩
  · exact hok horder _ _ hmay day (hdate d'' (hr'.trans (hr''.anti (Set.empty_subset _))))

end Emis.Reminders
