import Emis.Reminders.SentOnce

/-!
# The stages of an instalment

A stage is recorded once. That the stages of an instalment advance rests on the dates of
the runs that commit, and two runs across midnight may commit the other way round.
-/

namespace Emis.Reminders

open Transactions Protocol Billing

variable {zone : Instant → String → Day} {inOrder : Prop} {d : Db}

/-- Each instalment has one e-mail a stage, which tells what was owed when it was read,
and none on the day of its invoice. -/
structure SentOnce (zone : Instant → String → Day) (d : Db) : Prop where
  once : (d.emails.map fun e => (e.installmentId, e.input.stage)).Nodup
  unpaid : ∀ e ∈ d.emails, 0 < e.input.owed
  notNew : ∀ e ∈ d.emails, ∃ inst, institutionOf d = some inst ∧ ∃ p ∈ d.billing.installments,
    ∃ i ∈ d.billing.invoices, p.id = e.installmentId ∧ i.id = p.invoiceId ∧ zone i.createdAt inst.timezone ≠ e.day

/-- Later e-mails about an instalment are of later stages. -/
def Advancing (d : Db) : Prop := d.emails.Pairwise fun e later =>
  e.installmentId = later.installmentId → e.input.stage.threshold < later.input.stage.threshold

theorem entry_mem (h : Regular zone inOrder d) {e : Email} (he : e ∈ d.emails) : e.entry ∈ d.reminderLog := by
  have hentry : e.entry ∈ d.emails.map Email.entry := List.mem_map_of_mem he
  rw [h.emails] at hentry
  exact (List.mem_filter.1 hentry).1

theorem Regular.sentOnce (h : Regular zone inOrder d) : SentOnce zone d where
  once := by
    have hkeys : ((d.emails.map Email.entry).map ReminderLogRow.key).Nodup := by
      rw [h.emails]
      exact h.keys.sublist (List.filter_sublist.map _)
    rwa [List.map_map] at hkeys
  unpaid := h.owing
  notNew e he := by
    obtain ⟨inst, t, b, sent, hinst, ht, hb, hid, hinvoice, hnew, -⟩ := h.due _ (entry_mem h he)
    obtain ⟨p, hp, rfl⟩ := List.mem_map.1 ht
    obtain ⟨i, hi, rfl⟩ := List.mem_map.1 hb
    exact ⟨inst, hinst, p, hp, i, hi, hid, hinvoice, hnew⟩

/-- Reminders of one instalment are judged by one due date. -/
theorem due_twice (h : Regular zone inOrder d) {r s : ReminderLogRow} (hr : r ∈ d.reminderLog) (hs : s ∈ d.reminderLog)
    (hsame : r.installmentId = s.installmentId) : ∃ dueDate sent sent',
    stageToSend (daysPastDue r.day dueDate) sent = some r.stage ∧
      stageToSend (daysPastDue s.day dueDate) sent' = some s.stage := by
  obtain ⟨-, t, -, sent, -, ht, -, hid, -, -, hstage⟩ := h.due r hr
  obtain ⟨-, u, -, sent', -, hu, -, hid', -, -, hstage'⟩ := h.due s hs
  have heq : t = u := eq_of_key_eq h.terms ht hu (hid.trans (hsame.trans hid'.symm))
  exact ⟨t.2.2, sent, sent', hstage, heq ▸ hstage'⟩

theorem Regular.advancing (h : Regular zone True d) : Advancing d := by
  have hlog : d.reminderLog.Pairwise fun r s => r.day ≤ s.day ∧ r.key ≠ s.key :=
    (h.ordered trivial).and (List.pairwise_map.1 h.keys)
  have hsteps : d.reminderLog.Pairwise fun r s =>
      r.installmentId = s.installmentId → r.stage.threshold < s.stage.threshold := by
    refine hlog.imp_of_mem fun {r s} hr hs hrs hsame => ?_
    obtain ⟨dueDate, sent, sent', hstage, hstage'⟩ := due_twice h hr hs hsame
    exact stage_advances hrs.1 hstage hstage' fun heq => hrs.2 (Prod.ext hsame heq)
  have hentries : (d.emails.map Email.entry).Pairwise fun r s =>
      r.installmentId = s.installmentId → r.stage.threshold < s.stage.threshold := by
    rw [h.emails]
    exact hsteps.sublist List.filter_sublist
  exact List.pairwise_map.1 hentries

/-- In every interleaving an instalment gets one e-mail a stage, never when nothing is owed
or on its invoice's day, and its stages advance where runs commit in the order of their
dates. What is due is in the window of the query. -/
theorem stages_advance_in_order {ι : Type} [DecidableEq ι] (zone : Instant → String → Day)
    {start w : World ι Call Db Lock Error Reply} (hidle : start.Idle)
    (hids : (start.db.billing.installments.map InstallmentRow.id).Nodup) (hlog : start.db.reminderLog = [])
    (hemails : start.db.emails = []) :
    (Reachable (Call.code zone) start w → SentOnce zone w.db) ∧
      (Permitted (Call.code zone) (fun q _ d => q.timely zone d) start w → Advancing w.db) ∧
      ∀ today dueDate sent stage, stageToSend (daysPastDue today dueDate) sent = some stage →
        addDays today (-LOOKBACK_DAYS) ≤ dueDate ∧ dueDate ≤ addDays today LOOKAHEAD_DAYS := by
  have hstart : ∀ inOrder, Regular zone inOrder start.db := fun inOrder => by
    refine ⟨?_, ?_, ?_, ?_, ?_, ?_⟩
    · simpa [terms, termOf, Function.comp_def] using hids
    all_goals simp [hlog, hemails]
  have hcode : ∀ (inOrder : Prop) (Ok : Call → Set Lock → Db → Prop),
      (inOrder → ∀ q S d, Ok q S d → q.timely zone d) → ∀ q d, Regular zone inOrder d →
        (protocol zone inOrder).wp ((protocol zone inOrder).DoneIf (Ok q) fun _ _ _ => True) Anyway
          (Call.code zone q) ∅ id d := by
    intro inOrder Ok hok q d hd
    cases q with
    | billing call => exact billing_safe call hd
    | run now today => exact run_safe now today fun horder S d => hok horder _ S d
  refine ⟨fun hw => ?_, fun hw => ?_, fun _ _ _ _ => window_of_stage⟩
  · have hsound : (protocol zone False).Sound (fun _ _ _ _ => True) (fun _ _ _ => True) w := by
      refine Sound.reachable (fun q d hd => ?_) (.of_idle hidle (hstart False)) hw
      exact wp_mono (X := Anyway) (fun _ _ _ _ hdone d' hr hi => hdone d' hr hi trivial) (fun _ _ _ _ _ _ _ => trivial)
        (hcode False (fun _ _ _ => True) (fun hfalse => hfalse.elim) q d hd)
    exact hsound.inv.sentOnce
  · have hsound : (protocol zone True).SoundIf (fun q _ d => q.timely zone d) (fun _ _ _ _ => True)
        (fun _ _ _ => True) w := by
      refine SoundIf.permitted (.of_idle hidle (hstart True)) (fun q d hd => ?_) hw
      exact wp_mono (X := Anyway) (fun _ _ _ _ hdone => hdone) (fun _ _ _ _ _ _ _ => trivial)
        (hcode True _ (fun _ _ _ _ hok => hok) q d hd)
    exact hsound.inv.advancing

/-! ## Two workers at midnight -/

def utc : Instant → String → Day := fun date _ => date / 86400000

/-- One unpaid instalment of invoice 10, due on day 20000. -/
def ledger : Db where
  billing :=
    { numbering := { institution := some ⟨"Africa/Addis_Ababa", ⟨7, 8⟩⟩ }
      students := [⟨1, none⟩]
      invoices := [⟨10, ['A'], 1, none, none, 1, "ETB", .issued, [], 100, 0, 100, 0, 1, 0⟩]
      installments := [⟨11, 10, 1, 20000, 100, 0⟩] }
  students := [⟨1, some "abel@example.com", "Abel"⟩]

/-- A worker starts a run, at the given minute of the day before the due date. -/
def runs (minute : ℤ) : Call := .run (19999 * 86400000 + minute * 60000) none

abbrev Workers := Duo Call Db Lock Error Reply

def workers : Workers := Duo.idle ledger

def stages (d : Db) : List (Uuid × ReminderStage × Day) := d.emails.map fun e => (e.installmentId, e.input.stage, e.day)

/-- One run after the other. -/
def calm : List (Move Call) := [.begins true (runs 1439), .turns true 14, .begins false (runs 1441), .turns false 14]

/-- No reminder of a later day has been sent. -/
def inDayOrder (q : Call) (_ : List Lock) (d : Db) : Bool :=
  match q with
  | .billing _ => true
  | .run now today => (dateOf utc now today d).all fun day => d.reminderLog.all fun r => decide (r.day ≤ day)

theorem stages_advance_calm : SentOnce utc (workers.play (Call.code utc) calm).db ∧
    Advancing (workers.play (Call.code utc) calm).db ∧
    stages (workers.play (Call.code utc) calm).db = [(11, .dueIn3, 19999), (11, .dueToday, 20000)] := by
  have hall := @stages_advance_in_order Bool _ utc workers.world (workers.play (Call.code utc) calm).world
    (fun _ => rfl) (by decide) rfl rfl
  refine ⟨hall.1 (Duo.play_reachable _ workers calm), hall.2.1 ?_, by decide +kernel⟩
  have hmay : Duo.playOk (Call.code utc) inDayOrder workers calm = true := by decide +kernel
  refine Duo.play_permitted (Call.code utc) (fun q held d hok => ?_) workers calm hmay
  cases q with
  | billing => trivial
  | run now today =>
      intro day hday r hr
      simp only [inDayOrder, hday, Option.all_some, List.all_eq_true, decide_eq_true_eq] at hok
      exact hok r hr

/-- The first run reads before midnight, and the second reads and commits before the
first one does. -/
def midnight : List (Move Call) :=
  [.begins true (runs 1439), .turns true 9, .begins false (runs 1441), .turns false 14, .turns true 5]

/-- The instalment is due today, and then it is due in three days. -/
theorem stages_go_back : Reachable (Call.code utc) workers.world (workers.play (Call.code utc) midnight).world ∧
    stages (workers.play (Call.code utc) midnight).db = [(11, .dueToday, 20000), (11, .dueIn3, 19999)] ∧
    ¬ Advancing (workers.play (Call.code utc) midnight).db := by
  refine ⟨Duo.play_reachable _ workers midnight, by decide +kernel, ?_⟩
  have hdecidable : ¬ (stages (workers.play (Call.code utc) midnight).db).Pairwise fun e later =>
      e.1 = later.1 → e.2.1.threshold < later.2.1.threshold := by decide +kernel
  exact fun hadvancing => hdecidable (List.pairwise_map.2 hadvancing)

end Emis.Reminders
