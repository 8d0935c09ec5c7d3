import Emis.Billing.FeesService
import Emis.Billing.Frames
import Mathlib.Data.List.Find

/-!
# The default payment plan

There is one default at most, since whoever marks one holds its entry in the unique index
and has seen that no other plan keeps the mark.
-/

namespace Emis.Billing

open Transactions Protocol FeesService

variable (usable : Prop)

structure PlanInv (d : Db) : Prop where
  ids : (d.paymentPlans.map PaymentPlanRow.id).Nodup
  single : ∀ p ∈ d.paymentPlans, ∀ q ∈ d.paymentPlans, p.isDefault = true → q.isDefault = true → p.id = q.id
  active : usable → ∀ p ∈ d.paymentPlans, p.isDefault = true → p.isActive = true

/-- New ids, and new marks, are those of the locks. -/
structure PlanGuar (S : Set Lock) (d d' : Db) : Prop where
  ids : ∀ p' ∈ d'.paymentPlans, p'.id ∈ d.paymentPlans.map PaymentPlanRow.id ∨ .paymentPlan p'.id ∈ S
  marks : ∀ p' ∈ d'.paymentPlans, p'.isDefault = true →
    (∃ p ∈ d.paymentPlans, p.id = p'.id ∧ p.isDefault = true) ∨ .defaultPlan ∈ S

def planProtocol : Protocol Db Lock where
  Inv := PlanInv usable
  Guar := PlanGuar

variable {usable} {S : Set Lock} {f : Db → Db} {d d' : Db}

section Rely

variable (h : (planProtocol usable).Rely S d d')

include h

theorem rely_newId {id : Uuid} (hlock : .paymentPlan id ∈ S) (hnew : id ∉ d.paymentPlans.map PaymentPlanRow.id) :
    id ∉ d'.paymentPlans.map PaymentPlanRow.id := by
  refine h.stable (φ := fun d => id ∉ d.paymentPlans.map PaymentPlanRow.id) ?_ hnew
  rintro d₁ d₂ ⟨-, T, hdisj, hguar⟩ hnew₁ hmem
  obtain ⟨p', hp', rfl⟩ := List.mem_map.1 hmem
  rcases hguar.ids p' hp' with hold | hheld
  · exact hnew₁ hold
  · exact Set.disjoint_left.1 hdisj hlock hheld

/-- Marks come only from the holder of the entry. -/
theorem rely_marks {X : Uuid → Prop} (hlock : .defaultPlan ∈ S)
    (hmarks : ∀ p ∈ d.paymentPlans, p.isDefault = true → X p.id) :
    ∀ p ∈ d'.paymentPlans, p.isDefault = true → X p.id := by
  refine h.stable (φ := fun d => ∀ p ∈ d.paymentPlans, p.isDefault = true → X p.id) ?_ hmarks
  rintro d₁ d₂ ⟨-, T, hdisj, hguar⟩ hmarks₁ p' hp' hdefault
  rcases hguar.marks p' hp' hdefault with ⟨p, hp, hid, hp_default⟩ | hheld
  · exact hid ▸ hmarks₁ p hp hp_default
  · exact (Set.disjoint_left.1 hdisj hlock hheld).elim

end Rely

/-! ## Clearing the mark -/

/-- What `clearDefault` leaves pending: the plans `C` lose the mark. -/
def clears (C : List Uuid) : Db → Db := clearPlans fun p => C.contains p.id

@[simp] theorem clears_nil : clears [] = id := by
  funext d
  simp [clears, clearPlans, changeWhere]

theorem notDefault_of_not {p : PaymentPlanRow} (h : p.isDefault = false) : notDefault p = p := by
  cases p
  cases h
  rfl

theorem clears_cons (id : Uuid) (C : List Uuid) :
    clearPlans (fun p => p.id == id && p.isDefault) ∘ clears C = clears (id :: C) := by
  funext d
  simp only [Function.comp_apply, clears, clearPlans, changeWhere, List.map_map]
  congr 1
  refine List.map_congr_left fun p _ => ?_
  by_cases hC : p.id ∈ C
  · simp [hC, notDefault]
  · by_cases hid : p.id = id
    · subst hid
      cases hdefault : p.isDefault
      · simp [hC, hdefault, notDefault_of_not]
      · simp [hC, hdefault]
    · simp [hC, hid]

theorem wp_clearDefault (b : Bool) {K : Unit → Set Lock → (Db → Db) → Db → Prop} (hd : PlanInv usable d)
    (hK : ∀ S' C d', PlanInv usable d' → K () S' (clears C) d') :
    (planProtocol usable).wp K Anyway (Prog.when b clearDefault) S id d := by
  have hstart : id = clears [] := clears_nil.symm
  rw [wp_when]
  refine ⟨fun _ => ?_, fun _ => hstart ▸ hK S [] d hd⟩
  rw [clearDefault, wp_bind, wp_get]
  intro d₁ _ hi
  let I : Set Lock → (Db → Db) → Db → Prop := fun _ f d => PlanInv usable d ∧ ∃ C, f = clears C
  refine wp_mono (X := Anyway) ?_ (fun _ _ _ h => h) (wp_forM (I := I) _ (fun row S f d hI => ?_) ⟨hi, [], hstart⟩)
  · rintro _ S' f d' ⟨hd', C, rfl⟩
    exact hK S' C d' hd'
  · obtain ⟨hd, C, rfl⟩ := hI
    rw [wp_bind]
    refine wp_updateWhere (fun S' d' _ _ hi => ⟨hi, C, rfl⟩) fun d' _ hi _ => ?_
    exact ⟨hi, row.id :: C, clears_cons row.id C⟩

/-! ## Marking a plan -/

/-- What a row is after `clears C`. -/
def cleared (C : List Uuid) (p : PaymentPlanRow) : PaymentPlanRow := if C.contains p.id then notDefault p else p

theorem clears_plans (C : List Uuid) (d : Db) : (clears C d).paymentPlans = d.paymentPlans.map (cleared C) := rfl

@[simp] theorem cleared_id (C : List Uuid) (p : PaymentPlanRow) : (cleared C p).id = p.id := by
  unfold cleared
  split <;> rfl

@[simp] theorem cleared_isActive (C : List Uuid) (p : PaymentPlanRow) : (cleared C p).isActive = p.isActive := by
  unfold cleared
  split <;> rfl

theorem cleared_isDefault (C : List Uuid) (p : PaymentPlanRow) :
    (cleared C p).isDefault = true ↔ p.isDefault = true ∧ p.id ∉ C := by
  unfold cleared
  by_cases hC : p.id ∈ C <;> simp [hC, notDefault]

/-- The plan `id` may have a mark that it did not have; the others have lost theirs
where they are in `C`. -/
structure Marks (id : Uuid) (C : List Uuid) (marked : Prop) (rows rows' : List PaymentPlanRow) : Prop where
  others : ∀ p' ∈ rows', p'.id ≠ id → ∃ p ∈ rows, p' = cleared C p
  own : ∀ p' ∈ rows', p'.id = id → p'.isDefault = true → ¬ marked → ∃ p ∈ rows, p.id = id ∧ p.isDefault = true

theorem Marks.done {id : Uuid} {C : List Uuid} {marked : Prop} (d' : Db) (hd : PlanInv usable d)
    (h : Marks id C marked d.paymentPlans d'.paymentPlans)
    (hids : (d'.paymentPlans.map PaymentPlanRow.id).Nodup)
    (hnew : ∀ p' ∈ d'.paymentPlans, p'.id ∈ d.paymentPlans.map PaymentPlanRow.id ∨ .paymentPlan p'.id ∈ S)
    (hlock : marked → .defaultPlan ∈ S)
    (hmarked : marked → ∀ p ∈ d.paymentPlans, p.isDefault = true → p.id = id ∨ p.id ∈ C)
    (hactive : usable → ∀ p' ∈ d'.paymentPlans, p'.id = id → p'.isDefault = true → p'.isActive = true) :
    PlanGuar S d d' ∧ PlanInv usable d' := by
  have hother : ∀ p' ∈ d'.paymentPlans, p'.id ≠ id → p'.isDefault = true →
      ∃ p ∈ d.paymentPlans, p.id = p'.id ∧ p.isDefault = true ∧ p.isActive = p'.isActive ∧ p.id ∉ C := by
    intro p' hp' hid hdefault
    obtain ⟨p, hp, rfl⟩ := h.others p' hp' hid
    obtain ⟨hp_default, hC⟩ := (cleared_isDefault C p).1 hdefault
    exact ⟨p, hp, by simp, hp_default, by simp, hC⟩
  have hmark : ∀ p' ∈ d'.paymentPlans, p'.isDefault = true →
      marked ∧ p'.id = id ∨ ∃ p ∈ d.paymentPlans, p.id = p'.id ∧ p.isDefault = true := by
    intro p' hp' hdefault
    by_cases hid : p'.id = id
    · by_cases hm : marked
      · exact .inl ⟨hm, hid⟩
      · obtain ⟨p, hp, hpid, hp_default⟩ := h.own p' hp' hid hdefault hm
        exact .inr ⟨p, hp, hpid.trans hid.symm, hp_default⟩
    · obtain ⟨p, hp, hpid, hp_default, -⟩ := hother p' hp' hid hdefault
      exact .inr ⟨p, hp, hpid, hp_default⟩
  refine ⟨⟨hnew, fun p' hp' hdefault => ?_⟩, hids, fun p' hp' q' hq' hp_default hq_default => ?_, fun huse p' hp' hdefault => ?_⟩
  · rcases hmark p' hp' hdefault with ⟨hm, -⟩ | hold
    · exact .inr (hlock hm)
    · exact .inl hold
  · by_cases hm : marked
    · have hid : ∀ r ∈ d'.paymentPlans, r.isDefault = true → r.id = id := by
        intro r hr hdefault
        by_contra hne
        obtain ⟨p, hp, hpid, hold, -, hC⟩ := hother r hr hne hdefault
        rcases hmarked hm p hp hold with heq | hcleared
        · exact hne (hpid.symm.trans heq)
        · exact hC hcleared
      rw [hid p' hp' hp_default, hid q' hq' hq_default]
    · rcases hmark p' hp' hp_default with ⟨hm', -⟩ | ⟨p, hp, hpid, hold⟩
      · exact (hm hm').elim
      rcases hmark q' hq' hq_default with ⟨hm', -⟩ | ⟨q, hq, hqid, hold'⟩
      · exact (hm hm').elim
      rw [← hpid, ← hqid]
      exact hd.single p hp q hq hold hold'
  · by_cases hid : p'.id = id
    · exact hactive huse p' hp' hid hdefault
    · obtain ⟨p, hp, -, hold, hsame, -⟩ := hother p' hp' hid hdefault
      exact hsame ▸ hd.active huse p hp hold

/-- A row with its entries in the indexes. -/
theorem wp_indexPlan {row : PaymentPlanRow} {K : Unit → Set Lock → (Db → Db) → Db → Prop}
    (hK : ∀ S' d', S ⊆ S' → (planProtocol usable).Rely S d d' → PlanInv usable d' →
      (row.isDefault = true → .defaultPlan ∈ S') → taken row (f d') = false → K () S' f d') :
    (planProtocol usable).wp K Anyway (indexPlan row) S f d := by
  rw [indexPlan, wp_bind, wp_acquire]
  intro d₁ hr₁ _
  have hsub : S ⊆ insert (Lock.planName row.name) S := Set.subset_insert _ _
  have hcheck : ∀ S' d', insert (Lock.planName row.name) S ⊆ S' → (planProtocol usable).Rely S d d' →
      (row.isDefault = true → .defaultPlan ∈ S') → (planProtocol usable).wp K Anyway (do
        let d ← Prog.get
        Prog.require (!taken row d) (billingErrors.codeTaken "payment plan")) S' f d' := by
    intro S' d' hS hr hheld
    rw [wp_bind, wp_get]
    intro d₂ hr₂ hi₂
    rw [wp_require]
    exact ⟨fun hfree => hK S' d₂ (hsub.trans hS) (hr.trans (hr₂.anti (hsub.trans hS))) hi₂ hheld (by simpa using hfree),
      fun _ => trivial⟩
  rw [wp_bind, wp_when]
  refine ⟨fun _ => ?_, fun hplain => ?_⟩
  · rw [wp_acquire]
    intro d₂ hr₂ _
    exact hcheck _ d₂ (Set.subset_insert _ _) (hr₁.trans (hr₂.anti hsub)) fun _ => Set.mem_insert _ _
  · exact hcheck _ d₁ subset_rfl hr₁ fun hdefault => by simp [hplain] at hdefault

/-- No other plan keeps the mark, once the entry is held. -/
theorem marks_of_free {row : PaymentPlanRow} {C : List Uuid} (hfree : taken row d' = false)
    (hdefault : row.isDefault = true) (hrows : ∀ p ∈ d.paymentPlans, p.id ≠ row.id → cleared C p ∈ d'.paymentPlans) :
    ∀ p ∈ d.paymentPlans, p.isDefault = true → p.id = row.id ∨ p.id ∈ C := by
  intro p hp hp_default
  by_contra hnot
  obtain ⟨hid, hC⟩ := not_or.1 hnot
  have hmark := (cleared_isDefault C p).2 ⟨hp_default, hC⟩
  have htaken : taken row d' = true :=
    List.any_eq_true.2 ⟨cleared C p, hrows p hp hid, by simp [hid, hdefault, hmark]⟩
  simp [hfree] at htaken

theorem createPlan_safe (env : Env) (input : CreatePaymentPlanValues) {Ok : Set Lock → Db → Prop}
    (hd : PlanInv usable d) :
    (planProtocol usable).wp ((planProtocol usable).DoneIf Ok fun _ _ _ => True) Anyway
      (PlanCall.createPlan env input).code ∅ id d := by
  rw [PlanCall.code, wp_map, createPlan, wp_bind]
  refine wp_clearDefault _ hd fun S C d hd => ?_
  set row : PaymentPlanRow :=
    { id := env.newId 0, name := input.name, installments := input.installments, isDefault := input.isDefault }
  rw [wp_bind, insertPlan, wp_bind, wp_acquire]
  intro d₁ _ _
  rw [wp_bind, wp_get]
  intro d₂ _ hi₂
  rw [wp_bind, wp_require]
  refine ⟨fun hnew => ?_, fun _ => trivial⟩
  rw [wp_bind, wp_modify]
  refine wp_indexPlan fun S' d₃ hS hr₃ hi₃ hheld hfree => ?_
  rw [wp_pure]
  intro d₄ hr₄ hi₄ _
  have hlock : .paymentPlan row.id ∈ S' := hS (Set.mem_insert _ _)
  have hnew₂ : row.id ∉ d₂.paymentPlans.map PaymentPlanRow.id := by
    simpa [clears_plans] using hnew
  have hnew₄ : row.id ∉ d₄.paymentPlans.map PaymentPlanRow.id :=
    rely_newId hr₄ hlock (rely_newId hr₃ (Set.mem_insert _ _) hnew₂)
  have hmarks : row.isDefault = true → ∀ p ∈ d₄.paymentPlans, p.isDefault = true → p.id = row.id ∨ p.id ∈ C := by
    intro hdefault
    have hmarks₃ := marks_of_free (d := d₃) (C := C) hfree hdefault fun p hp _ =>
      List.mem_append_left _ (List.mem_map_of_mem hp)
    exact rely_marks (X := fun i => i = row.id ∨ i ∈ C) hr₄ (hheld hdefault) hmarks₃
  have hdone := Marks.done (S := S') (C := C)
    { d₄ with paymentPlans := d₄.paymentPlans.map (cleared C) ++ [row] } hi₄ ⟨?_, ?_⟩ ?_ ?_ hheld hmarks ?_
  · exact ⟨hdone.1, hdone.2, trivial⟩
  · intro p' hp' hid
    rcases List.mem_append.1 hp' with hp' | hp'
    · obtain ⟨p, hp, rfl⟩ := List.mem_map.1 hp'
      exact ⟨p, hp, rfl⟩
    · exact (hid (List.mem_singleton.1 hp' ▸ rfl)).elim
  · intro p' hp' hid hdefault hplain
    rcases List.mem_append.1 hp' with hp' | hp'
    · obtain ⟨p, hp, rfl⟩ := List.mem_map.1 hp'
      exact ⟨p, hp, by simpa using hid, ((cleared_isDefault C p).1 hdefault).1⟩
    · exact (hplain (List.mem_singleton.1 hp' ▸ hdefault)).elim
  · have hids : (d₄.paymentPlans.map (cleared C)).map PaymentPlanRow.id = d₄.paymentPlans.map PaymentPlanRow.id := by
      simp
    rw [List.map_append, hids, List.map_singleton, List.nodup_append]
    exact ⟨hi₄.ids, by simp, fun i hi j hj => by rintro rfl; exact hnew₄ (List.mem_singleton.1 hj ▸ hi)⟩
  · intro p' hp'
    rcases List.mem_append.1 hp' with hp' | hp'
    · obtain ⟨p, hp, rfl⟩ := List.mem_map.1 hp'
      exact .inl (List.mem_map.2 ⟨p, hp, by simp⟩)
    · exact .inr (List.mem_singleton.1 hp' ▸ hlock)
  · intro huse p' hp' hid hdefault
    rcases List.mem_append.1 hp' with hp' | hp'
    · obtain ⟨p, hp, rfl⟩ := List.mem_map.1 hp'
      simpa using hi₄.active huse p hp ((cleared_isDefault C p).1 hdefault).1
    · rw [List.mem_singleton.1 hp']

/-- A row that an update has changed. -/
def bumped (input : UpdatePaymentPlanRequest) (p : PaymentPlanRow) : PaymentPlanRow :=
  { updated input p with version := p.version + 1 }

/-- The request gives the plan the mark. -/
def UpdatePaymentPlanRequest.marks (input : UpdatePaymentPlanRequest) : Prop :=
  input.isDefault = some true ∧ input.isActive ≠ some false

theorem bumped_isDefault {input : UpdatePaymentPlanRequest} (h : input.marks) (p : PaymentPlanRow) :
    (bumped input p).isDefault = true := by
  simp [bumped, updated, h.1, h.2]

theorem isDefault_of_bumped {input : UpdatePaymentPlanRequest} {p : PaymentPlanRow}
    (h : (bumped input p).isDefault = true) :
    input.isActive ≠ some false ∧ (input.isDefault = some true ∨ input.isDefault = none ∧ p.isDefault = true) := by
  have hactive : input.isActive ≠ some false := by
    intro heq
    simp [bumped, updated, heq] at h
  refine ⟨hactive, ?_⟩
  simp only [bumped, updated, hactive, if_false] at h
  cases hdefault : input.isDefault with
  | none => exact .inr ⟨rfl, by simpa [hdefault] using h⟩
  | some b => exact .inl (by simpa [hdefault] using h)

theorem updatePlan_safe (planId : Uuid) (input : UpdatePaymentPlanRequest) (expectedVersion : ℕ)
    {Ok : Set Lock → Db → Prop} (hok : usable → ∀ S d, Ok S d → (PlanCall.updatePlan planId input expectedVersion).usable d)
    (hd : PlanInv usable d) :
    (planProtocol usable).wp ((planProtocol usable).DoneIf Ok fun _ _ _ => True) Anyway
      (PlanCall.updatePlan planId input expectedVersion).code ∅ id d := by
  rw [PlanCall.code, wp_map, updatePlan, wp_bind]
  refine wp_clearDefault _ hd fun S C d hd => ?_
  simp only [wp_bind]
  refine wp_versioned plansTable fun d₁ d₂ row _ _ _ _ hi₂ hrow => ?_
  refine wp_indexPlan fun S' d₃ hS hr₃ hi₃ hheld hfree => ?_
  rw [wp_pure]
  intro d₄ hr₄ hi₄ hok₄
  have hplans : ∀ x : Db, (plansTable.bump planId (updated input) (clears C x)).paymentPlans =
      changeWhere (fun p => p.id == planId) (bumped input) (x.paymentPlans.map (cleared C)) := fun _ => rfl
  have hmem : ∀ x : Db, ∀ p' ∈ (plansTable.bump planId (updated input) (clears C x)).paymentPlans,
      ∃ p ∈ x.paymentPlans, p'.id = p.id ∧ (p.id ≠ planId → p' = cleared C p) ∧
        (p.id = planId → p' = bumped input (cleared C p)) := by
    intro x p' hp'
    obtain ⟨c, hc, rfl⟩ := mem_changeWhere.1 (hplans x ▸ hp')
    obtain ⟨p, hp, rfl⟩ := List.mem_map.1 hc
    by_cases hpid : p.id = planId
    · exact ⟨p, hp, by simp [hpid, bumped, updated], fun hne => (hne hpid).elim, fun _ => by simp [hpid]⟩
    · exact ⟨p, hp, by simp [hpid], fun _ => by simp [hpid], fun heq => (hpid heq).elim⟩
  have hid : row.id = planId := by simpa [plansTable] using List.find?_some hrow
  have hrow_default : input.marks → row.isDefault = true := by
    intro hmarks
    obtain ⟨p, -, hsame, -, hown⟩ := hmem d₂ row (List.mem_of_find?_eq_some hrow)
    exact hown (hsame.symm.trans hid) ▸ bumped_isDefault hmarks _
  have hmarks : input.marks → ∀ p ∈ d₄.paymentPlans, p.isDefault = true → p.id = planId ∨ p.id ∈ C := by
    intro hm
    refine rely_marks (X := fun i => i = planId ∨ i ∈ C) hr₄ (hheld (hrow_default hm)) ?_
    refine hid ▸ marks_of_free hfree (hrow_default hm) fun p hp hpid => ?_
    rw [Function.comp_apply, hplans, mem_changeWhere]
    exact ⟨cleared C p, List.mem_map_of_mem hp, by rw [hid] at hpid; simp [hpid]⟩
  have hdone := Marks.done (S := S') (C := C) (plansTable.bump planId (updated input) (clears C d₄)) hi₄
    ⟨?_, ?_⟩ ?_ ?_ (fun hm => hheld (hrow_default hm)) hmarks ?_
  · exact ⟨hdone.1, hdone.2, trivial⟩
  · intro p' hp' hne
    obtain ⟨p, hp, hsame, hother, -⟩ := hmem d₄ p' hp'
    exact ⟨p, hp, hother (hsame ▸ hne)⟩
  · intro p' hp' heq hdefault hm
    obtain ⟨p, hp, hsame, -, hown⟩ := hmem d₄ p' hp'
    have hpid : p.id = planId := hsame.symm.trans heq
    obtain ⟨hactive, hset | ⟨-, hkept⟩⟩ := isDefault_of_bumped (hown hpid ▸ hdefault)
    · exact (hm ⟨hset, hactive⟩).elim
    · exact ⟨p, hp, hpid, ((cleared_isDefault C p).1 hkept).1⟩
  · have hids : ((plansTable.bump planId (updated input) (clears C d₄)).paymentPlans).map PaymentPlanRow.id =
        d₄.paymentPlans.map PaymentPlanRow.id := by
      have hkey : ∀ p, (bumped input p).id = p.id := fun _ => rfl
      rw [hplans, map_changeWhere hkey]
      simp
    rw [hids]
    exact hi₄.ids
  · intro p' hp'
    obtain ⟨p, hp, hsame, -⟩ := hmem d₄ p' hp'
    exact .inl (hsame ▸ List.mem_map_of_mem hp)
  · intro huse p' hp' heq hdefault
    obtain ⟨p, hp, hsame, -, hown⟩ := hmem d₄ p' hp'
    have hpid : p.id = planId := hsame.symm.trans heq
    have hrow' := hown hpid
    obtain ⟨hactive, hset⟩ := isDefault_of_bumped (hrow' ▸ hdefault)
    have hold : input.isActive = none → p.isActive = true := by
      intro hnone
      rcases hset with hset | ⟨-, hkept⟩
      · exact hok huse S' d₄ hok₄ hset hnone p hp hpid
      · exact hi₄.active huse p hp ((cleared_isDefault C p).1 hkept).1
    rw [hrow']
    cases hgiven : input.isActive with
    | none => simpa [bumped, updated, hgiven] using hold hgiven
    | some b =>
        cases b with
        | true => simp [bumped, updated, hgiven]
        | false => exact (hactive hgiven).elim

/-! ## Every run -/

theorem keeps_plans (call : Call) : call.code.Keeps Db.paymentPlans := by
  have hapart : Apart Db.paymentPlans := ⟨fun _ _ _ => rfl, fun _ _ => rfl, fun _ _ => rfl, fun _ _ => rfl,
    fun _ _ => rfl, fun _ _ => rfl, fun _ _ _ => rfl, fun _ _ _ => rfl, fun _ _ _ _ => rfl⟩
  cases call with
  | create env input grants => exact .map _ (keeps_create (fun _ _ _ => rfl) (fun _ _ => rfl) (fun _ _ => rfl) env input grants)
  | record => exact .map _ (keeps_record hapart _ _ _ _)
  | requestDiscount => exact .map _ (keeps_requestDiscount hapart _ _ _ _ _)
  | requestVoid => exact .map _ (keeps_requestVoid hapart _ _ _ _ _)
  | decide => exact .map _ (keeps_decide hapart _ _ _ _)

theorem billing_safe (call : Call) {Ok : Set Lock → Db → Prop} (hd : PlanInv usable d) :
    (planProtocol usable).wp ((planProtocol usable).DoneIf Ok fun _ _ _ => True) Anyway
      (PlanCall.billing call).code ∅ id d := by
  rw [PlanCall.code, wp_map]
  refine wp_of_keeps (keeps_plans call) hd fun a S' g d' _ hg _ _ d₁ _ hi₁ _ => ?_
  have hsame : (g d₁).paymentPlans = d₁.paymentPlans := hg d₁
  refine ⟨⟨fun p' hp' => .inl ?_, fun p' hp' hdefault => .inl ⟨p', ?_, rfl, hdefault⟩⟩, ⟨?_, ?_, ?_⟩, trivial⟩
  all_goals simp only [Function.comp_apply, id_eq, hsame] at *
  · exact List.mem_map_of_mem hp'
  · exact hp'
  · exact hi₁.ids
  · exact hi₁.single
  · exact hi₁.active

theorem plan_safe (Ok : PlanCall → Set Lock → Db → Prop) (hok : usable → ∀ q S d, Ok q S d → q.usable d)
    (q : PlanCall) (hd : PlanInv usable d) :
    (planProtocol usable).wp ((planProtocol usable).DoneIf (Ok q) fun _ _ _ => True) Anyway q.code ∅ id d := by
  cases q with
  | createPlan env input => exact createPlan_safe env input hd
  | updatePlan planId input version => exact updatePlan_safe planId input version (fun huse S d => hok huse _ S d) hd
  | billing call => exact billing_safe call hd

/-- The plan that invoices are split by when no plan is asked for. -/
theorem defaultPlan_of_active (hactive : ∀ p ∈ d.paymentPlans, p.isDefault = true → p.isActive = true) :
    (defaultPlan.alone d).1 = .ok (d.paymentPlans.find? PaymentPlanRow.isDefault) := by
  have hfind : d.paymentPlans.find? (fun p => p.isDefault && p.isActive) = d.paymentPlans.find? PaymentPlanRow.isDefault := by
    refine List.find?_congr fun p hp => ?_
    cases hdefault : p.isDefault with
    | false => rfl
    | true => simp [hactive p hp hdefault]
  rw [← hfind]
  rfl

/-- In every interleaving one plan at most is the default. It is active, and so the one
that invoices get, where a plan that is made the default with nothing said on whether it
is active is active. -/
theorem default_is_usable {ι : Type} [DecidableEq ι] {start w : World ι PlanCall Db Lock Error PlanReply}
    (hidle : start.Idle) (hstart : PlanInv True start.db) :
    (Reachable PlanCall.code start w →
      ∀ p ∈ w.db.paymentPlans, ∀ q ∈ w.db.paymentPlans, p.isDefault = true → q.isDefault = true → p = q) ∧
    (Permitted PlanCall.code (fun q _ d => q.usable d) start w →
      (∀ p ∈ w.db.paymentPlans, p.isDefault = true → p.isActive = true) ∧
        (defaultPlan.alone w.db).1 = .ok (w.db.paymentPlans.find? PaymentPlanRow.isDefault)) := by
  have hsingle : PlanInv False start.db := ⟨hstart.ids, hstart.single, False.elim⟩
  refine ⟨fun hw p hp q hq hp_default hq_default => ?_, fun hw => ?_⟩
  · have hsound : (planProtocol False).Sound (fun _ _ _ _ => True) (fun _ _ _ => True) w := by
      refine Sound.reachable (fun q d hd => ?_) (.of_idle hidle hsingle) hw
      exact wp_mono (X := Anyway) (fun _ _ _ _ hdone d' hr hi => hdone d' hr hi trivial) (fun _ _ _ _ _ _ _ => trivial)
        (plan_safe (fun _ _ _ => True) False.elim q hd)
    exact eq_of_key_eq hsound.inv.ids hp hq (hsound.inv.single p hp q hq hp_default hq_default)
  · have hsound : (planProtocol True).SoundIf (fun q _ d => q.usable d) (fun _ _ _ _ => True) (fun _ _ _ => True) w := by
      refine SoundIf.permitted (.of_idle hidle hstart) (fun q d hd => ?_) hw
      exact wp_mono (X := Anyway) (fun _ _ _ _ hdone => hdone) (fun _ _ _ _ _ _ _ => trivial)
        (plan_safe _ (fun _ _ _ _ hok => hok) q hd)
    have hactive := hsound.inv.active trivial
    exact ⟨hactive, defaultPlan_of_active hactive⟩

/-! ## An office that sets up its plans -/

def whole : List PlanInstallment := [⟨10000, 0⟩]

/-- Make a plan, as plan `n`. -/
def makes (n : ℕ) (isDefault : Bool) (name : String) (h : planName name) : PlanCall :=
  .createPlan (idsFrom n) ⟨name, whole, isDefault, h, by decide, by simp [whole, PlanInstallment.ok], by decide⟩

/-- The plans with their two flags. -/
def flags (d : Db) : List (Uuid × Bool × Bool) := d.paymentPlans.map fun p => (p.id, p.isDefault, p.isActive)

abbrev Clerks := Duo PlanCall Db Lock Error PlanReply

/-- The office has no plan yet. -/
def clerks : Clerks := Duo.idle { office with paymentPlans := [] }

/-- Two plans are made, the second is retired, and the first one is the default. -/
def setUp : List (Move PlanCall) :=
  [.begins true (makes 1 true "At once" (by decide)), .turns true 20,
    .begins true (makes 2 false "Later" (by decide)), .turns true 20,
    .begins true (.updatePlan 2 ⟨none, none, some false, by simp⟩ 1), .turns true 20]

/-- Only an active plan is made the default. -/
def choosesActive (q : PlanCall) (_ : List Lock) (d : Db) : Bool :=
  match q with
  | .updatePlan i input _ => input.isDefault != some true || d.paymentPlans.all fun p => p.id != i || p.isActive
  | _ => true

theorem default_is_usable_set_up :
    (∀ p ∈ (clerks.play PlanCall.code setUp).db.paymentPlans, p.isDefault = true → p.isActive = true) ∧
      flags (clerks.play PlanCall.code setUp).db = [(1, true, true), (2, false, false)] := by
  have hall := @default_is_usable Bool _ clerks.world (clerks.play PlanCall.code setUp).world
    (fun _ => rfl) ⟨by simp [clerks, Duo.idle], by simp [clerks, Duo.idle], by simp [clerks, Duo.idle]⟩
  refine ⟨(hall.2 ?_).1, by decide +kernel⟩
  have hmay : Duo.playOk PlanCall.code choosesActive clerks setUp = true := by decide +kernel
  refine Duo.play_permitted PlanCall.code (fun q held d hok => ?_) clerks setUp hmay
  cases q with
  | createPlan | billing => trivial
  | updatePlan i input version =>
      intro hset _ p hp hid
      simp only [choosesActive, hset, bne_self_eq_false, Bool.false_or, List.all_eq_true, Bool.or_eq_true] at hok
      rcases hok p hp with hne | hactive
      · simp [hid] at hne
      · exact hactive

/-- The retired plan is made the default. -/
def retire : List (Move PlanCall) :=
  setUp ++ [.begins true (.updatePlan 2 ⟨none, some true, none, by simp⟩ 2), .turns true 20]

/-- The retired plan is the default, and no invoice finds a plan. -/
theorem default_is_retired : Reachable PlanCall.code clerks.world (clerks.play PlanCall.code retire).world ∧
    flags (clerks.play PlanCall.code retire).db = [(1, false, true), (2, true, false)] ∧
    ((InvoicesService.planFor none).alone (clerks.play PlanCall.code retire).db).1.toOption = none := by
  refine ⟨Duo.play_reachable _ clerks retire, by decide +kernel, by decide +kernel⟩

end Emis.Billing
