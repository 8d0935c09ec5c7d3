import Emis.Cohorts.EnrollmentsService

/-!
# The order of the waitlist

`waitsBefore` is a total order on rows with different ids, and the places that
`positions` gives out in each cohort are 1, 2, … in this order.
-/

namespace Emis.Cohorts

open Transactions

theorem waitsBefore_total (e e' : EnrollmentRow) : waitsBefore e e' ∨ waitsBefore e' e := by
  unfold waitsBefore
  cases e.waitlistedAt <;> cases e'.waitlistedAt <;> grind

theorem waitsBefore_trans {e₁ e₂ e₃ : EnrollmentRow} :
    waitsBefore e₁ e₂ → waitsBefore e₂ e₃ → waitsBefore e₁ e₃ := by
  unfold waitsBefore
  cases e₁.waitlistedAt <;> cases e₂.waitlistedAt <;> cases e₃.waitlistedAt <;> grind

theorem id_eq_of_waitsBefore {e e' : EnrollmentRow} :
    waitsBefore e e' → waitsBefore e' e → e.id = e'.id := by
  unfold waitsBefore
  cases e.waitlistedAt <;> cases e'.waitlistedAt <;> grind

instance : Std.Total waitsBefore := ⟨waitsBefore_total⟩

instance : IsTrans EnrollmentRow waitsBefore := ⟨fun _ _ _ => waitsBefore_trans⟩

section

variable {d : Db}

theorem mem_inStatus {cohortId : Uuid} {status : EnrollmentStatus} {e : EnrollmentRow} :
    e ∈ d.inStatus cohortId status ↔
      e ∈ d.enrollments ∧ e.cohortId = cohortId ∧ e.status = status := by
  simp [Db.inStatus]

theorem waitlist_perm (cohortId : Uuid) :
    (d.waitlist cohortId).Perm (d.inStatus cohortId .waitlisted) :=
  List.perm_insertionSort _ _

theorem waitlist_sorted (cohortId : Uuid) : (d.waitlist cohortId).Pairwise waitsBefore :=
  List.pairwise_insertionSort _ _

theorem mem_waitlist {cohortId : Uuid} {e : EnrollmentRow} :
    e ∈ d.waitlist cohortId ↔ e ∈ d.enrollments ∧ e.cohortId = cohortId ∧ e.status = .waitlisted := by
  rw [(waitlist_perm cohortId).mem_iff, mem_inStatus]

/-- The head of the waitlist has waited longest. -/
theorem waitsBefore_of_head? {cohortId : Uuid} {next e : EnrollmentRow}
    (hnext : (d.waitlist cohortId).head? = some next) (he : e ∈ d.waitlist cohortId) :
    waitsBefore next e := by
  have hsorted := waitlist_sorted (d := d) cohortId
  cases hlist : d.waitlist cohortId with
  | nil => simp [hlist] at he
  | cons first rest =>
      rw [hlist] at hnext he hsorted
      obtain rfl : first = next := by simpa using hnext
      rcases List.mem_cons.1 he with rfl | hrest
      · exact (waitsBefore_total e e).elim id id
      · exact List.rel_of_pairwise_cons hsorted hrest

/-- Two sorted lists of the same rows are the same list. -/
theorem eq_of_perm_of_waitsBefore (hids : (d.enrollments.map EnrollmentRow.id).Nodup)
    {l l' : List EnrollmentRow} (hl : l.Pairwise waitsBefore) (hl' : l'.Pairwise waitsBefore)
    (hperm : l.Perm l') (hmem : ∀ e ∈ l, e ∈ d.enrollments) : l = l' := by
  refine List.Perm.eq_of_pairwise (fun e e' he he' h h' => ?_) hl hl' hperm
  exact eq_of_key_eq hids (hmem e he) (hmem e' (hperm.mem_iff.2 he')) (id_eq_of_waitsBefore h h')

end

/-! ## Positions -/

/-- Giving out places does not touch those who are not in the queue. -/
theorem givePlaces_of_notMem {id : Uuid} {queue : List EnrollmentRow}
    (hid : id ∉ queue.map EnrollmentRow.id) (next positions : Uuid → Option ℕ) :
    givePlaces queue next positions id = positions id := by
  induction queue generalizing next positions with
  | nil => rfl
  | cons e queue ih =>
      simp only [List.map_cons, List.mem_cons, not_or] at hid
      rw [givePlaces, ih hid.2, Function.update_of_ne hid.1]

theorem givePlaces_filter {queue : List EnrollmentRow}
    (hids : (queue.map EnrollmentRow.id).Nodup) (cohortId : Uuid)
    (next positions : Uuid → Option ℕ) :
    let mine := queue.filter fun e => e.cohortId == cohortId
    mine.map (fun e => givePlaces queue next positions e.id) =
      (List.range' ((next cohortId).getD 0 + 1) mine.length).map some := by
  induction queue generalizing next positions with
  | nil => rfl
  | cons e queue ih =>
      have hnodup : (queue.map EnrollmentRow.id).Nodup := (List.nodup_cons.1 hids).2
      have hnotMem : e.id ∉ queue.map EnrollmentRow.id := (List.nodup_cons.1 hids).1
      set place := (next e.cohortId).getD 0 + 1 with hplace
      have hrest := ih hnodup (Function.update next e.cohortId (some place))
        (Function.update positions e.id (some place))
      by_cases hc : e.cohortId = cohortId
      · have hfirst : givePlaces queue (Function.update next e.cohortId (some place))
            (Function.update positions e.id (some place)) e.id = some place := by
          rw [givePlaces_of_notMem hnotMem, Function.update_self]
        simp only [List.filter_cons, hc, beq_self_eq_true, ↓reduceIte, List.map_cons,
          List.length_cons, List.range'_succ, givePlaces]
        rw [← hc, hfirst, ← hplace]
        simp only [hc, Function.update_self, Option.getD_some] at hrest ⊢
        rw [hrest]
      · have hc' : (e.cohortId == cohortId) = false := by simpa using hc
        simp only [List.filter_cons, hc', Bool.false_eq_true, ↓reduceIte, givePlaces, ← hplace]
        simpa only [Function.update_of_ne (Ne.symm hc)] using hrest

/-- The places of the students who wait for a cohort are 1, 2, …, longest wait
first. -/
theorem positions_waitlist {d : Db} (hids : (d.enrollments.map EnrollmentRow.id).Nodup)
    {cohortIds : List Uuid} {cohortId : Uuid} (hc : cohortId ∈ cohortIds) :
    (d.waitlist cohortId).map (fun e => d.positions cohortIds e.id) =
      (List.range' 1 (d.waitlist cohortId).length).map some := by
  set waiting := d.enrollments.filter fun e =>
    cohortIds.contains e.cohortId && e.status == .waitlisted with hwaiting
  set queue := waiting.insertionSort waitsBefore with hqueue
  have hperm : queue.Perm waiting := List.perm_insertionSort _ _
  have hmine : queue.filter (fun e => e.cohortId == cohortId) = d.waitlist cohortId := by
    refine eq_of_perm_of_waitsBefore hids ((List.pairwise_insertionSort _ _).filter _)
      (waitlist_sorted cohortId) ?_ fun e he => ?_
    · refine (hperm.filter _).trans (((List.Perm.of_eq ?_)).trans (waitlist_perm cohortId).symm)
      rw [hwaiting, List.filter_filter, Db.inStatus]
      refine List.filter_congr fun e _ => ?_
      by_cases h : e.cohortId = cohortId
      · simp [h, hc]
      · have hne : (e.cohortId == cohortId) = false := by simpa using h
        simp [hne]
    · have hmem := hperm.mem_iff.1 (List.mem_filter.1 he).1
      exact (List.mem_filter.1 hmem).1
  have hqids : (queue.map EnrollmentRow.id).Nodup :=
    ((hperm.map _).nodup_iff).2 (hids.sublist (List.filter_sublist.map _))
  have hplaces := givePlaces_filter hqids cohortId (fun _ => none) fun _ => none
  simp only [hmine, Option.getD_none, Nat.zero_add] at hplaces
  exact hplaces

end Emis.Cohorts
