import Emis.Cohorts.Frames

/-!
# Rules for the helpers of the cohort services

What a caller of a helper may assume of its answer, under any protocol.
-/

namespace Emis.Cohorts

open Transactions Protocol EnrollmentsService

variable {P : Protocol Db Lock} {S : Set Lock} {f : Db → Db} {d : Db}

theorem wp_cohortRow {K : CohortRow → Set Lock → (Db → Db) → Db → Prop} {id : Uuid}
    (h : ∀ d' row, P.Rely S d d' → P.Inv d' → (f d').cohort? id = some row →
      K row (insert (.cohort id) S) f d') :
    P.wp K Anyway (cohortRow id true) S f d := by
  simp only [cohortRow, wp_bind, wp_when, wp_acquire, wp_get, wp_expect, forall_const,
    reduceCtorEq, false_implies, and_true, implies_true]
  intro d₁ hr₁ _ d₂ hr₂ hi₂ row hrow
  exact h d₂ row (hr₁.trans (hr₂.anti (Set.subset_insert _ _))) hi₂ hrow

theorem wp_insertEnrollment {K : Unit → Set Lock → (Db → Db) → Db → Prop} {row : EnrollmentRow}
    (h : ∀ d₁ d₂ S', S' = insert (.enrollment row.id)
        (insert (.liveEnrollment row.studentId row.cohortId) S) →
      P.Rely S d d₁ → P.Rely S d₁ d₂ → P.Inv d₂ →
      (row.status.live → ∀ e ∈ (f d₁).enrollments, e.status.live →
        e.studentId = row.studentId → e.cohortId ≠ row.cohortId) →
      row.id ∉ (f d₂).enrollments.map EnrollmentRow.id →
      K () S' ((fun d => { d with enrollments := d.enrollments ++ [row] }) ∘ f) d₂) :
    P.wp K Anyway (insertEnrollment row) S f d := by
  simp only [insertEnrollment, wp_bind, wp_acquire, wp_get, wp_require, wp_modify, implies_true, and_true]
  intro d₁ hr₁ _ d₂ hr₂ _ hfree d₃ hr₃ _ d₄ hr₄ hi₄ hfresh
  have hsub : S ⊆ insert (.liveEnrollment row.studentId row.cohortId) S := Set.subset_insert _ _
  have hr₂₄ := (hr₃.anti hsub).trans (hr₄.anti (hsub.trans (Set.subset_insert _ _)))
  refine h d₂ d₄ _ rfl (hr₁.trans (hr₂.anti hsub)) hr₂₄ hi₄ (fun hl e he hle hs hc => ?_) ?_
  · simp only [hl, Bool.true_and, Bool.not_eq_true', List.any_eq_false] at hfree
    simpa [hs, hc, hle] using hfree e he
  · intro hmem
    obtain ⟨e, he, hid⟩ := List.mem_map.1 hmem
    simp only [Bool.not_eq_true', List.any_eq_false] at hfresh
    simpa [hid] using hfresh e he

theorem wp_promoteWaiting {K : Option Uuid → Set Lock → (Db → Db) → Db → Prop} {env : Env}
    {cohort : CohortRow}
    (hnone : ∀ a S' g d', S ⊆ S' → (∀ s, Db.places (g s) = s.places) →
      P.Rely S d d' → P.Inv d' → K a S' (g ∘ f) d')
    (hsome : ∀ next S' g d₁ d₂ d₃ d', S ⊆ S' → .enrollment next.id ∈ S' →
      (∀ s, Db.places (g s) = s.places) → P.Rely S d d₁ → P.Rely S d₁ d₂ →
      P.Rely S d₂ d₃ → P.Rely S d₃ d' → P.Inv d' →
      (f d₁).activeCount cohort.id < (f d₂).seatsOf cohort →
      next ∈ (f d₃).waitlist cohort.id →
      K (some next.id) S' (g ∘ enrollmentsTable.updateRow next.id (promotedRow env next) ∘ f) d') :
    P.wp K Anyway (promoteWaiting env cohort) S f d := by
  simp only [promoteWaiting, wp_bind, wp_get, wp_ite, wp_pure]
  intro d₁ hr₁ hi₁ d₂ hr₂ hi₂
  refine ⟨fun _ => hnone none S id d₂ subset_rfl (fun _ => rfl) (hr₁.trans hr₂) hi₂,
    fun hfree d₃ hr₃ hi₃ => ?_⟩
  cases hnext : ((f d₃).waitlist cohort.id).head? with
  | none =>
      exact hnone none S id d₃ subset_rfl (fun _ => rfl) ((hr₁.trans hr₂).trans hr₃) hi₃
  | some next =>
      have hmem : next ∈ (f d₃).waitlist cohort.id := List.mem_of_head? hnext
      have hsub : S ⊆ insert (.enrollment next.id) S := Set.subset_insert _ _
      simp only [wp_bind]
      refine wp_updateWhere (fun S' d₄ hS' hr₄ hi₄ => ?_) fun d₄ hr₄ hi₄ _ => ?_
      · refine wp_of_keeps (keeps_markEnrolled _) hi₄ fun _ S'' g d' hS'' hg hr' hi' => ?_
        exact hnone (some next.id) S'' g d' (hS'.trans hS'') hg
          (((hr₁.trans hr₂).trans (hr₃.trans hr₄)).trans (hr'.anti hS')) hi'
      · refine wp_of_keeps (keeps_markEnrolled _) hi₄ fun _ S'' g d' hS'' hg hr' hi' => ?_
        exact hsome next S'' g d₁ d₂ d₃ d' (hsub.trans hS'') (hS'' (Set.mem_insert _ _)) hg hr₁ hr₂
          hr₃ (hr₄.trans (hr'.anti hsub)) hi' (Nat.lt_of_not_le hfree) hmem

/-- The room that `resolve` answers is the one asked for. -/
theorem wp_resolve {K : CourseWithDepartment × ShiftRow × RoomRow → Set Lock → (Db → Db) → Db → Prop}
    {input : References} (hd : P.Inv d)
    (h : ∀ course shift room S' d₁ d', S ⊆ S' → P.Rely S d d₁ →
      P.Rely S' d₁ d' → P.Inv d' → (f d₁).room? input.roomId = some room →
      K (course, shift, room) S' f d') :
    P.wp K Anyway (resolve input) S f d := by
  simp only [resolve, wp_bind]
  refine wp_of_silent (keeps_findWithDepartment _) hd fun found S₁ d₁ hS₁ hr₁ hi₁ => ?_
  simp only [wp_expect, wp_get, wp_require, wp_pure, implies_true, and_true]
  intro course _ d₂ hr₂ _ shift _ d₃ hr₃ _ room hroom d₄ hr₄ _ _ d₅ hr₅ hi₅ _
  refine h course shift room S₁ d₃ d₅ hS₁ ?_ (hr₄.trans hr₅) hi₅ ?_
  · exact hr₁.trans ((hr₂.trans hr₃).anti hS₁)
  · exact (Option.filter_eq_some_iff.1 hroom).1

end Emis.Cohorts
