import Emis.Identity.MfaTurns

/-!
# Time steps of a factor

Where no call writes to a factor that has changed hands since it was read, the last time step of a
factor bounds all that were accepted for it.
-/

namespace Emis.Identity

open Transactions

namespace MfaState

variable {Key : Type} {crypto : Crypto Key} {box : SecretBox Key} {s s' : MfaState} {i : ℕ} {auth : AuthContext}
  {env : MfaEnv} {p : MfaPoint}

def acceptedStep : MfaNote → Option (Uuid × ℕ)
  | .accepted _ factorId step => some (factorId, step)
  | _ => none

/-- The time steps that were accepted, with the factors. -/
def acceptedSteps (s : MfaState) : List (Uuid × ℕ) := s.notes.filterMap acceptedStep

/-- A confirmation finds the factor that it has read unconfirmed, and a time step is claimed of the
factor that was read. -/
def Current (s : MfaState) : MfaPoint → Prop
  | .enable factor _ _ _ => ∃ f ∈ s.db.factors, f.id = factor.id ∧ f.confirmedAt = none
  | .claim factor _ => ∃ f ∈ s.db.factors, f.id = factor.id
  | .setup | .confirm _ | .verify _ | .consume _ | .rotate | .fail | .revoke | .disable _ _ | .check _ _ _ _ | .remove
  | .answered _ => True

def Timely (s : MfaState) : MfaEvent → Prop
  | .continues i _ => ∀ call ∈ s.calls[i]?, s.Current call.point
  | .begins _ _ | .reseals _ => True

instance (s : MfaState) : (p : MfaPoint) → Decidable (s.Current p)
  | .enable factor _ _ _ => inferInstanceAs (Decidable (∃ f ∈ s.db.factors, f.id = factor.id ∧ f.confirmedAt = none))
  | .claim factor _ => inferInstanceAs (Decidable (∃ f ∈ s.db.factors, f.id = factor.id))
  | .setup | .confirm _ | .verify _ | .consume _ | .rotate | .fail | .revoke | .disable _ _ | .check _ _ _ _ | .remove
  | .answered _ => .isTrue trivial

instance (s : MfaState) : (e : MfaEvent) → Decidable (s.Timely e)
  | .continues i _ => inferInstanceAs (Decidable (∀ call ∈ s.calls[i]?, s.Current call.point))
  | .begins _ _ | .reseals _ => .isTrue trivial

/-! ## Factors -/

/-- The keys of the factors stay distinct in a step that has fresh ids to give. -/
structure Keyed (fresh : List Uuid) (rows rows' : List FactorRow) : Prop where
  users : (rows.map FactorRow.userId).Nodup → (rows'.map FactorRow.userId).Nodup
  ids : (rows.map FactorRow.id).Nodup → (∀ f ∈ rows, f.id ∉ fresh) → (rows'.map FactorRow.id).Nodup

theorem Keyed.refl (fresh : List Uuid) (rows : List FactorRow) : Keyed fresh rows rows := ⟨fun h => h, fun h _ => h⟩

theorem Keyed.change (fresh : List Uuid) (rows : List FactorRow) (hit : FactorRow → Bool) {g : FactorRow → FactorRow}
    (hkeys : ∀ f, (g f).id = f.id ∧ (g f).userId = f.userId) : Keyed fresh rows (changeWhere hit g rows) := by
  refine ⟨fun h => ?_, fun h _ => ?_⟩
  · rwa [map_changeWhere fun f => (hkeys f).2]
  · rwa [map_changeWhere fun f => (hkeys f).1]

theorem Keyed.filter (fresh : List Uuid) (rows : List FactorRow) (keep : FactorRow → Bool) :
    Keyed fresh rows (rows.filter keep) :=
  ⟨fun h => h.sublist (List.filter_sublist.map _), fun h _ => h.sublist (List.filter_sublist.map _)⟩

theorem Keyed.add {fresh : List Uuid} {rows : List FactorRow} {new : FactorRow} (hid : new.id ∈ fresh)
    (huser : ∀ f ∈ rows, f.userId ≠ new.userId) : Keyed fresh rows (rows ++ [new]) := by
  have hnodup : ∀ key : FactorRow → Uuid, (∀ f ∈ rows, key f ≠ key new) → (rows.map key).Nodup →
      ((rows ++ [new]).map key).Nodup := by
    intro key hother h
    rw [List.map_append, List.nodup_append]
    refine ⟨h, List.nodup_singleton _, fun a ha b hb => ?_⟩
    obtain ⟨f, hf, rfl⟩ := List.mem_map.1 ha
    obtain rfl : b = key new := by simpa using hb
    exact hother f hf
  exact ⟨hnodup _ huser, fun h hknown => hnodup _ (fun f hf heq => hknown f hf (heq ▸ hid)) h⟩

/-- What becomes of the factors. -/
structure Evolves (fresh : List Uuid) (rows rows' : List FactorRow) : Prop where
  keyed : Keyed fresh rows rows'
  rows : ∀ f' ∈ rows', (∃ f ∈ rows, f'.id = f.id ∧ f'.userId = f.userId ∧
      (f.confirmedAt.isSome = true → f'.confirmedAt.isSome = true ∧
        ∀ t ∈ f.lastUsedTimeStep, ∃ t' ∈ f'.lastUsedTimeStep, t ≤ t') ∧
      (f.lastUsedTimeStep = none → f'.confirmedAt = none → f'.lastUsedTimeStep = none)) ∨
    f'.id ∈ fresh ∧ f'.lastUsedTimeStep = none

theorem Evolves.refl (fresh : List Uuid) (rows : List FactorRow) : Evolves fresh rows rows :=
  ⟨.refl _ _, fun f hf => .inl ⟨f, hf, rfl, rfl, fun h => ⟨h, fun t ht => ⟨t, ht, le_rfl⟩⟩, fun h _ => h⟩⟩

/-- Some rows are changed, each on its own. -/
theorem Evolves.change {fresh : List Uuid} {rows : List FactorRow} {hit : FactorRow → Bool}
    {g : FactorRow → FactorRow} (hkeys : ∀ f, (g f).id = f.id ∧ (g f).userId = f.userId)
    (hrows : ∀ f ∈ rows, hit f = true →
      (f.confirmedAt.isSome = true → (g f).confirmedAt.isSome = true ∧
        ∀ t ∈ f.lastUsedTimeStep, ∃ t' ∈ (g f).lastUsedTimeStep, t ≤ t') ∧
      (f.lastUsedTimeStep = none → (g f).confirmedAt = none → (g f).lastUsedTimeStep = none)) :
    Evolves fresh rows (changeWhere hit g rows) := by
  refine ⟨.change _ _ _ hkeys, fun f' hf' => ?_⟩
  obtain ⟨f, hf, rfl⟩ := mem_changeWhere.1 hf'
  refine .inl ⟨f, hf, ?_⟩
  split
  · rename_i hhit
    exact ⟨(hkeys f).1, (hkeys f).2, hrows f hf hhit⟩
  · exact ⟨rfl, rfl, fun h => ⟨h, fun t ht => ⟨t, ht, le_rfl⟩⟩, fun h _ => h⟩

theorem Evolves.filter (fresh : List Uuid) (rows : List FactorRow) (keep : FactorRow → Bool) :
    Evolves fresh rows (rows.filter keep) :=
  ⟨.filter _ _ _, fun f hf => (Evolves.refl fresh rows).rows f (List.mem_of_mem_filter hf)⟩

/-- A call that is about to claim a time step has read a factor that is confirmed. -/
def ClaimOk (s : MfaState) (call : MfaCall) : Prop :=
  ∀ factor step, call.point = .claim factor step → factor.id ∈ s.given ∧
    ∀ f ∈ s.db.factors, f.id = factor.id → f.userId = call.auth.userId ∧ f.confirmedAt.isSome = true

/-- The factors of a state, with what was accepted for them and what is about to be. -/
structure FactorsInv (s : MfaState) : Prop where
  users : (s.db.factors.map FactorRow.userId).Nodup
  ids : (s.db.factors.map FactorRow.id).Nodup
  given : ∀ f ∈ s.db.factors, f.id ∈ s.given
  unused : ∀ f ∈ s.db.factors, f.confirmedAt = none → f.lastUsedTimeStep = none
  accepted : ∀ a ∈ s.acceptedSteps, a.1 ∈ s.given ∧ ∀ f ∈ s.db.factors, f.id = a.1 →
    f.confirmedAt.isSome = true ∧ ∃ t ∈ f.lastUsedTimeStep, a.2 ≤ t
  once : s.acceptedSteps.Nodup
  claims : ∀ call ∈ s.calls, s.ClaimOk call

theorem eq_of_id {rows : List FactorRow} (h : (rows.map FactorRow.id).Nodup) {f g : FactorRow} (hf : f ∈ rows)
    (hg : g ∈ rows) (hid : f.id = g.id) : f = g := List.inj_on_of_nodup_map h hf hg hid

theorem loadFactor_eq_some {d : Db} {userId : Uuid} {f : FactorRow} (h : MfaService.loadFactor d userId = some f) :
    f ∈ d.factors ∧ f.userId = userId :=
  ⟨List.mem_of_find?_eq_some h, by simpa using List.find?_some h⟩

/-- A step that adds to what was accepted. -/
theorem FactorsInv.step (hinv : FactorsInv s) {fresh : List Uuid} (hevolves : Evolves fresh s.db.factors s'.db.factors)
    (hfresh : ∀ id ∈ fresh, id ∉ s.given) (hgiven : ∀ id, id ∈ s.given ∨ id ∈ fresh → id ∈ s'.given)
    {added : List (Uuid × ℕ)} (hnotes : s'.acceptedSteps = s.acceptedSteps ++ added)
    (hadded : ∀ a ∈ added, a.1 ∈ s.given ∧ ∀ f ∈ s'.db.factors, f.id = a.1 →
      f.confirmedAt.isSome = true ∧ ∃ t ∈ f.lastUsedTimeStep, a.2 ≤ t)
    (honce : added.Nodup ∧ ∀ a ∈ added, a ∉ s.acceptedSteps)
    (hcalls : ∀ call ∈ s'.calls, call ∈ s.calls ∨ s.ClaimOk call) : FactorsInv s' := by
  have hknown : ∀ f ∈ s.db.factors, f.id ∉ fresh := fun f hf hid => hfresh _ hid (hinv.given f hf)
  refine ⟨hevolves.keyed.users hinv.users, hevolves.keyed.ids hinv.ids hknown, fun f' hf' => ?_, fun f' hf' hnone => ?_,
    fun a ha => ?_, ?_, fun call hcall factor step hpoint => ?_⟩
  · rcases hevolves.rows f' hf' with ⟨f, hf, hid, -⟩ | ⟨hid, -⟩
    · exact hgiven _ (.inl (hid ▸ hinv.given f hf))
    · exact hgiven _ (.inr hid)
  · rcases hevolves.rows f' hf' with ⟨f, hf, -, -, hstill, hunused⟩ | ⟨-, hunused⟩
    · cases hconfirmed : f.confirmedAt with
      | none => exact hunused (hinv.unused f hf hconfirmed) hnone
      | some t =>
          have hsome := (hstill (by rw [hconfirmed]; rfl)).1
          rw [hnone] at hsome
          cases hsome
    · exact hunused
  · rw [hnotes, List.mem_append] at ha
    rcases ha with ha | ha
    · obtain ⟨hknown', hrows⟩ := hinv.accepted a ha
      refine ⟨hgiven _ (.inl hknown'), fun f' hf' hid => ?_⟩
      rcases hevolves.rows f' hf' with ⟨f, hf, hid', -, hstill, -⟩ | ⟨hid', -⟩
      · obtain ⟨hconfirmed, t, ht, hle⟩ := hrows f hf (hid'.symm.trans hid)
        obtain ⟨hconfirmed', hlater⟩ := hstill hconfirmed
        obtain ⟨t', ht', hle'⟩ := hlater t ht
        exact ⟨hconfirmed', t', ht', hle.trans hle'⟩
      · exact absurd (hid ▸ hknown') (hfresh _ hid')
    · exact ⟨hgiven _ (.inl (hadded a ha).1), (hadded a ha).2⟩
  · rw [hnotes, List.nodup_append]
    exact ⟨hinv.once, honce.1, fun a ha b hb hab => honce.2 b hb (hab ▸ ha)⟩
  · have hok : s.ClaimOk call := by
      rcases hcalls call hcall with hold | hok
      · exact hinv.claims call hold
      · exact hok
    obtain ⟨hknown', hrows⟩ := hok factor step hpoint
    refine ⟨hgiven _ (.inl hknown'), fun f' hf' hid => ?_⟩
    rcases hevolves.rows f' hf' with ⟨f, hf, hid', huser, hstill, -⟩ | ⟨hid', -⟩
    · obtain ⟨huser', hconfirmed⟩ := hrows f hf (hid'.symm.trans hid)
      exact ⟨huser.trans huser', (hstill hconfirmed).1⟩
    · exact absurd (hid ▸ hknown') (hfresh _ hid')

/-- Nothing is accepted. -/
theorem FactorsInv.frame (hinv : FactorsInv s) {fresh : List Uuid} (hevolves : Evolves fresh s.db.factors s'.db.factors)
    (hfresh : ∀ id ∈ fresh, id ∉ s.given) (hgiven : ∀ id, id ∈ s.given ∨ id ∈ fresh → id ∈ s'.given)
    (hnotes : s'.acceptedSteps = s.acceptedSteps) (hcalls : ∀ call ∈ s'.calls, call ∈ s.calls ∨ s.ClaimOk call) :
    FactorsInv s' :=
  have hnone : s'.acceptedSteps = s.acceptedSteps ++ [] := by rw [hnotes, List.append_nil]
  hinv.step hevolves hfresh hgiven hnone (by simp) (by simp) hcalls

theorem acceptedSteps_note (s : MfaState) (notes : List MfaNote) :
    (s.note notes).acceptedSteps = s.acceptedSteps ++ notes.filterMap acceptedStep := List.filterMap_append

theorem mem_goto {call : MfaCall} {calls : List MfaCall} {q : MfaPoint} (h : call ∈ calls.set i ⟨auth, q⟩) :
    call ∈ calls ∨ call = ⟨auth, q⟩ := List.mem_or_eq_of_mem_set h

theorem claimOk_of_ne {call : MfaCall} (h : ∀ factor step, call.point ≠ .claim factor step) : s.ClaimOk call :=
  fun factor step hpoint => absurd hpoint (h factor step)

/-- Some factors stay, one of an account without is added, or those that are not confirmed get a secret. -/
theorem storedSecret_evolves (env : MfaEnv) (userId : Uuid) (sealed : String) (rows : List FactorRow) :
    Evolves (ids env) rows (storedSecret env userId sealed rows) := by
  unfold storedSecret
  split
  · refine .change (fun _ => ⟨rfl, rfl⟩) fun f _ hhit => ⟨fun hsome => ?_, fun _ _ => rfl⟩
    obtain ⟨-, hnone⟩ := Bool.and_eq_true_iff.1 hhit
    rw [Option.isNone_iff_eq_none.1 hnone] at hsome
    cases hsome
  · rename_i hnone
    have hother : ∀ f ∈ rows, f.userId ≠ userId := by simpa using hnone
    refine ⟨.add List.mem_cons_self hother, fun f hf => ?_⟩
    rcases List.mem_append.1 hf with hf | hf
    · exact (Evolves.refl _ _).rows f hf
    · obtain rfl := List.mem_singleton.1 hf
      exact .inr ⟨List.mem_cons_self, rfl⟩

/-- The factor that a claim finds is the one that was read. -/
theorem claimed_row (hinv : FactorsInv s) {factor : FactorRow} {step : ℕ}
    (hcall : (⟨auth, .claim factor step⟩ : MfaCall) ∈ s.calls) (hcurrent : s.Current (.claim factor step))
    {f : FactorRow} (hf : f ∈ s.db.factors) (huser : f.userId = auth.userId) :
    f.id = factor.id ∧ f.confirmedAt.isSome = true := by
  obtain ⟨g, hg, hid⟩ := hcurrent
  obtain ⟨huser', hconfirmed⟩ := (hinv.claims _ hcall factor step rfl).2 g hg hid
  obtain rfl : f = g := List.inj_on_of_nodup_map hinv.users hf hg (huser.trans huser'.symm)
  exact ⟨hid, hconfirmed⟩

theorem turn_evolves (hinv : FactorsInv s) (hcall : (⟨auth, p⟩ : MfaCall) ∈ s.calls) (hcurrent : s.Current p)
    (h : Turn crypto box (s.giving env) i auth env p s') : Evolves (ids env) s.db.factors s'.db.factors := by
  cases h with
  | goes | refuses | consumes | rotates | fails | revokes => exact .refl _ _
  | @stores sealed _ _ => exact storedSecret_evolves env auth.userId sealed s.db.factors
  | @enables factor _ _ step =>
      obtain ⟨f, hf, hid, hnone⟩ := hcurrent
      refine .change (fun _ => ⟨rfl, rfl⟩) fun g hg hhit => ⟨fun hsome => ?_, fun _ hnone' => ?_⟩
      · have hsame : g.id = factor.id := by simpa using hhit
        rw [eq_of_id hinv.ids hg hf (hsame.trans hid.symm), hnone] at hsome
        cases hsome
      · cases hnone'
  | @claims factor step _ =>
      refine .change (fun _ => ⟨rfl, rfl⟩) fun f hf hhit => ?_
      obtain ⟨huser, hlater⟩ := Bool.and_eq_true_iff.1 hhit
      obtain ⟨-, hconfirmed⟩ := claimed_row hinv hcall hcurrent hf (by simpa using huser)
      refine ⟨fun _ => ⟨hconfirmed, fun t ht => ⟨step, rfl, ?_⟩⟩, fun _ hnone => ?_⟩
      · rw [Option.mem_def.1 ht, Option.all_some, decide_eq_true_eq] at hlater
        exact hlater.le
      · rw [show f.confirmedAt = none from hnone] at hconfirmed
        cases hconfirmed
  | removes => exact .filter _ _ _

theorem turn_factors (hinv : FactorsInv s) (hfresh : ∀ id ∈ ids env, id ∉ s.given)
    (hcall : (⟨auth, p⟩ : MfaCall) ∈ s.calls) (hcurrent : s.Current p)
    (h : Turn crypto box (s.giving env) i auth env p s') : FactorsInv s' := by
  have hevolves := turn_evolves hinv hcall hcurrent h
  have hgiven : ∀ id, id ∈ s.given ∨ id ∈ ids env → id ∈ s.given ++ ids env := fun id h => List.mem_append.2 h
  have hnotes : ∀ notes, notes.filterMap acceptedStep = [] →
      (s.notes ++ notes).filterMap acceptedStep = s.acceptedSteps := by
    intro notes hnone
    rw [List.filterMap_append, hnone, List.append_nil, acceptedSteps]
  have hcalls : ∀ q, (∀ factor step, q ≠ .claim factor step) →
      ∀ call ∈ s.calls.set i ⟨auth, q⟩, call ∈ s.calls ∨ s.ClaimOk call := by
    intro q hq call hmem
    rcases mem_goto hmem with hold | rfl
    · exact .inl hold
    · exact .inr (claimOk_of_ne hq)
  cases h with
  | @goes _ q rs _ hgoes _ =>
      refine hinv.frame hevolves hfresh hgiven rfl fun call hmem => ?_
      rcases mem_goto hmem with hold | rfl
      · exact .inl hold
      · refine .inr fun factor step hpoint => ?_
        obtain rfl : q = .claim factor step := hpoint
        obtain ⟨hload, hconfirmed⟩ := hgoes
        obtain ⟨hfactor, huser⟩ := loadFactor_eq_some hload
        refine ⟨hinv.given _ hfactor, fun f hf hid => ?_⟩
        obtain rfl := eq_of_id hinv.ids hf hfactor hid
        exact ⟨huser, hconfirmed⟩
  | refuses => exact hinv.frame hevolves hfresh hgiven (hnotes _ rfl) (hcalls _ (by simp))
  | stores hstored =>
      refine hinv.frame hevolves hfresh hgiven (hnotes _ ?_) (hcalls _ (by simp))
      subst hstored
      split
      · rfl
      · rfl
  | @enables factor secret seen step =>
      obtain ⟨f, hf, hid, hnone⟩ := hcurrent
      refine hinv.step hevolves hfresh hgiven (acceptedSteps_note _ _) ?_ ?_ (hcalls _ (by simp))
      · intro a ha
        obtain rfl : a = (factor.id, step) := by simpa [acceptedStep] using ha
        refine ⟨hid ▸ hinv.given f hf, fun g hg hsame => ?_⟩
        obtain ⟨g₀, -, rfl⟩ := mem_changeWhere.1 hg
        split at hsame
        · rename_i hhit
          rw [if_pos hhit]
          exact ⟨rfl, step, rfl, le_rfl⟩
        · rename_i hhit
          exact absurd (by simpa using hsame) hhit
      · refine ⟨List.nodup_singleton _, fun a ha hold => ?_⟩
        obtain rfl : a = (factor.id, step) := by simpa [acceptedStep] using ha
        have hconfirmed := ((hinv.accepted _ hold).2 f hf hid).1
        rw [hnone] at hconfirmed
        cases hconfirmed
  | @claims factor step hany =>
      obtain ⟨f, hf, hhit⟩ := List.any_eq_true.1 hany
      obtain ⟨huser, hlater⟩ := Bool.and_eq_true_iff.1 hhit
      obtain ⟨hid, hconfirmed⟩ := claimed_row hinv hcall hcurrent hf (by simpa using huser)
      refine hinv.step hevolves hfresh hgiven (acceptedSteps_note _ _) ?_ ?_ (hcalls _ (by simp))
      · intro a ha
        obtain rfl : a = (factor.id, step) := by simpa [acceptedStep] using ha
        refine ⟨hid ▸ hinv.given f hf, fun g hg hsame => ?_⟩
        obtain ⟨g₀, hg₀, rfl⟩ := mem_changeWhere.1 hg
        have hsame₀ : g₀.id = factor.id := by
          split at hsame
          · exact hsame
          · exact hsame
        obtain rfl := eq_of_id hinv.ids hg₀ hf (hsame₀.trans hid.symm)
        rw [if_pos hhit]
        exact ⟨hconfirmed, step, rfl, le_rfl⟩
      · refine ⟨List.nodup_singleton _, fun a ha hold => ?_⟩
        obtain rfl : a = (factor.id, step) := by simpa [acceptedStep] using ha
        obtain ⟨-, t, ht, hle⟩ := (hinv.accepted _ hold).2 f hf hid
        rw [Option.mem_def.1 ht, Option.all_some, decide_eq_true_eq] at hlater
        exact absurd hle (by omega)
  | consumes =>
      refine hinv.frame hevolves hfresh hgiven (hnotes _ ?_) (hcalls _ (by simp))
      rw [List.filterMap_map]
      exact List.filterMap_eq_nil_iff.2 fun _ _ => rfl
  | rotates => exact hinv.frame hevolves hfresh hgiven (hnotes _ rfl) (hcalls _ (by simp))
  | fails =>
      refine hinv.frame hevolves hfresh hgiven (hnotes _ rfl) (hcalls _ fun factor step => ?_)
      split
      · simp
      · simp
  | revokes => exact hinv.frame hevolves hfresh hgiven rfl (hcalls _ (by simp))
  | removes => exact hinv.frame hevolves hfresh hgiven rfl (hcalls _ (by simp))

theorem reseals_evolves (fresh : List Uuid) (r : Resealing) (d : Db) :
    Evolves fresh d.factors
      ((MfaService.reseal r.factorId r.userId (String.ofList r.secretCiphertext)).alone d).2.factors := by
  have hwlp : (MfaService.reseal r.factorId r.userId (String.ofList r.secretCiphertext)).wlp
      (fun _ d' => Evolves fresh d.factors d'.factors) (fun _ => False) d := by
    rw [MfaService.reseal, Prog.wlp_bind]
    exact wlp_updateFactors (.change (fun _ => ⟨rfl, rfl⟩) fun f _ _ => ⟨fun h => ⟨h, fun t ht => ⟨t, ht, le_rfl⟩⟩, fun h _ => h⟩)
  rcases Prog.alone_cases hwlp with ⟨_, d', halone, hd'⟩ | ⟨_, _, hfalse⟩
  · rwa [halone]
  · exact hfalse.elim

/-- What one step keeps. -/
theorem next_factors {e : MfaEvent} (hinv : FactorsInv s) (htimely : s.Timely e)
    (h : s.next crypto box e = some s') :
    FactorsInv s' ∧ ∃ fresh, (∀ id ∈ fresh, id ∉ s.given) ∧ Evolves fresh s.db.factors s'.db.factors := by
  cases e with
  | begins auth request =>
      obtain rfl := Option.some.inj h
      have hsame : Evolves [] s.db.factors s.db.factors := .refl _ _
      refine ⟨hinv.frame hsame (by simp) (by simp) rfl fun call hcall => ?_, [], by simp, hsame⟩
      rcases List.mem_append.1 hcall with hold | hnew
      · exact .inl hold
      · obtain rfl := List.mem_singleton.1 hnew
        exact .inr (claimOk_of_ne (by cases request <;> simp [MfaRequest.start]))
  | continues i env =>
      rw [next] at h
      split at h
      · rename_i hfresh
        obtain ⟨call, hcall, hcontinue⟩ := Option.bind_eq_some_iff.1 h
        have hturn := continue?_turn hcontinue
        have hmem := List.mem_of_getElem? hcall
        have hcurrent := htimely call hcall
        exact ⟨turn_factors hinv hfresh.2 hmem hcurrent hturn, ids env, hfresh.2, turn_evolves hinv hmem hcurrent hturn⟩
      · cases h
  | reseals k =>
      obtain ⟨r, -, rfl⟩ := Option.map_eq_some_iff.1 h
      have hevolves := reseals_evolves [] r s.db
      exact ⟨hinv.frame hevolves (by simp) (by simp) rfl fun call hcall => .inl hcall, [], by simp, hevolves⟩

/-- The last time step of a factor only grows. -/
theorem Evolves.advances {fresh : List Uuid} (hinv : FactorsInv s) (hfresh : ∀ id ∈ fresh, id ∉ s.given)
    (h : Evolves fresh s.db.factors s'.db.factors) {f f' : FactorRow} (hf : f ∈ s.db.factors)
    (hf' : f' ∈ s'.db.factors) (hid : f'.id = f.id) :
    ∀ t ∈ f.lastUsedTimeStep, ∃ t' ∈ f'.lastUsedTimeStep, t ≤ t' := by
  rcases h.rows f' hf' with ⟨g, hg, hid', -, hstill, -⟩ | ⟨hnew, -⟩
  · obtain rfl := eq_of_id hinv.ids hg hf (hid'.symm.trans hid)
    intro t ht
    cases hconfirmed : g.confirmedAt with
    | none =>
        rw [hinv.unused g hg hconfirmed] at ht
        cases ht
    | some at_ => exact (hstill (by rw [hconfirmed]; rfl)).2 t ht
  · exact absurd (hid ▸ hinv.given f hf) (hfresh _ hnew)

end MfaState

end Emis.Identity
