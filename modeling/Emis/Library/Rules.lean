import Emis.Library.Interleaving

/-!
# Rules for the statements of a client among others

`wp` of each statement, and of a program that is only known to leave a part of
the store alone.
-/

namespace Transactions

namespace Protocol

open Prog

variable {σ τ L ε α β : Type} {P : Protocol σ L} {S : Set L} {f : σ → σ} {d : σ}
  {X : ε → Set L → σ → Prop}

@[simp] theorem wp_pure {K : α → Set L → (σ → σ) → σ → Prop} (a : α) :
    P.wp K X (pure a : Prog σ L ε α) S f d ↔ K a S f d := Iff.rfl

@[simp] theorem wp_throw {K : α → Set L → (σ → σ) → σ → Prop} (e : ε) :
    P.wp K X (throw e : Prog σ L ε α) S f d ↔ X e S d := Iff.rfl

@[simp] theorem wp_get {K : σ → Set L → (σ → σ) → σ → Prop} :
    P.wp K X (get : Prog σ L ε σ) S f d ↔ ∀ d', P.Rely S d d' → P.Inv d' → K (f d') S f d' :=
  Iff.rfl

@[simp] theorem wp_modify {K : Unit → Set L → (σ → σ) → σ → Prop} (g : σ → σ) :
    P.wp K X (modify g : Prog σ L ε Unit) S f d ↔ K () S (g ∘ f) d := Iff.rfl

@[simp] theorem wp_atOnce {K : Unit → Set L → (σ → σ) → σ → Prop} (g : σ → σ) :
    P.wp K X (atOnce g : Prog σ L ε Unit) S f d ↔ ∀ d', P.Rely S d d' → P.Inv d' →
      P.Guar S d' (g d') ∧ P.Inv (g d') ∧ K () S f (g d') := Iff.rfl

@[simp] theorem wp_acquire {K : Unit → Set L → (σ → σ) → σ → Prop} (l : L) :
    P.wp K X (acquire l : Prog σ L ε Unit) S f d ↔
      ∀ d', P.Rely S d d' → P.Inv d' → K () (insert l S) f d' := Iff.rfl

@[simp] theorem wp_tryAcquire {K : Bool → Set L → (σ → σ) → σ → Prop} (l : L) :
    P.wp K X (tryAcquire l : Prog σ L ε Bool) S f d ↔
      ∀ d', P.Rely S d d' → P.Inv d' → K true (insert l S) f d' ∧ K false S f d' := Iff.rfl

@[simp] theorem wp_commits {K : Unit → Set L → (σ → σ) → σ → Prop} :
    P.wp K X (commits : Prog σ L ε Unit) S f d ↔ ∀ d', P.Rely S d d' → P.Inv d' →
      P.Guar S d' (f d') ∧ P.Inv (f d') ∧ K () ∅ id (f d') := Iff.rfl

@[simp] theorem wp_require {K : Unit → Set L → (σ → σ) → σ → Prop} (b : Bool) (e : ε) :
    P.wp K X (require b e : Prog σ L ε Unit) S f d ↔
      (b = true → K () S f d) ∧ (b = false → X e S d) := by
  cases b <;> simp [require, wp]

@[simp] theorem wp_expect {K : α → Set L → (σ → σ) → σ → Prop} (o : Option α) (e : ε) :
    P.wp K X (expect o e : Prog σ L ε α) S f d ↔
      (∀ a, o = some a → K a S f d) ∧ (o = none → X e S d) := by
  cases o <;> simp [expect, wp]

@[simp] theorem wp_ofExcept {K : α → Set L → (σ → σ) → σ → Prop} (x : Except ε α) :
    P.wp K X (Prog.ofExcept x : Prog σ L ε α) S f d ↔
      (∀ a, x = .ok a → K a S f d) ∧ ∀ e, x = .error e → X e S d := by
  cases x <;> simp [Prog.ofExcept, wp]

@[simp] theorem wp_ite {K : α → Set L → (σ → σ) → σ → Prop} (b : Prop) [Decidable b]
    (p q : Prog σ L ε α) :
    P.wp K X (if b then p else q) S f d ↔ (b → P.wp K X p S f d) ∧ (¬ b → P.wp K X q S f d) := by
  split <;> simp_all

@[simp] theorem wp_when {K : Unit → Set L → (σ → σ) → σ → Prop} (b : Bool)
    (p : Prog σ L ε Unit) :
    P.wp K X (Prog.when b p) S f d ↔ (b = true → P.wp K X p S f d) ∧ (b = false → K () S f d) := by
  cases b <;> simp [Prog.when, wp]

theorem wp_map {K : β → Set L → (σ → σ) → σ → Prop} (g : α → β) (p : Prog σ L ε α) :
    P.wp K X (g <$> p) = P.wp (fun a => K (g a)) X p := by
  rw [← bind_pure_comp, wp_bind]
  rfl

/-- A loop whose body keeps `I` keeps it. -/
theorem wp_forM {I : Set L → (σ → σ) → σ → Prop} (xs : List α) {c : α → Prog σ L ε PUnit}
    (hc : ∀ a S f d, I S f d → P.wp (fun _ => I) X (c a) S f d) (h : I S f d) :
    P.wp (fun _ => I) X (xs.forM c) S f d := by
  induction xs generalizing S f d with
  | nil => exact h
  | cons a xs ih =>
      change P.wp (fun _ => I) X (c a >>= fun _ => xs.forM c) S f d
      rw [wp_bind]
      exact wp_mono (fun _ _ _ _ hI => ih hI) (fun _ _ _ hX => hX) (hc a S f d h)

/-- An update that matches holds the row's lock and knows, of the store it
changes, that the row still matches. -/
theorem wp_updateWhere {K : Bool → Set L → (σ → σ) → σ → Prop} {l : L} {hit : σ → Bool}
    {g : σ → σ}
    (hmiss : ∀ S' d', S ⊆ S' → P.Rely S d d' → P.Inv d' → K false S' f d')
    (hhit : ∀ d', P.Rely S d d' → P.Inv d' → hit (f d') = true → K true (insert l S) (g ∘ f) d') :
    P.wp K X (updateWhere l hit g : Prog σ L ε Bool) S f d := by
  simp only [updateWhere, wp_bind, wp_get, wp_ite, wp_acquire, wp_modify, wp_pure]
  intro d₁ hr₁ hi₁
  refine ⟨fun _ d₂ hr₂ hi₂ d₃ hr₃ hi₃ => ?_, fun _ => hmiss S d₁ subset_rfl hr₁ hi₁⟩
  have hr : P.Rely S d d₃ := (hr₁.trans hr₂).trans (hr₃.anti (Set.subset_insert l S))
  exact ⟨fun hhit₃ => hhit d₃ hr hi₃ hhit₃, fun _ => hmiss _ d₃ (Set.subset_insert l S) hr hi₃⟩

/-- The same, told by what the two looks find. -/
theorem wp_updateWhere_cases {K : Bool → Set L → (σ → σ) → σ → Prop} {l : L} {hit : σ → Bool}
    {g : σ → σ}
    (hmiss : ∀ d', P.Rely S d d' → P.Inv d' → hit (f d') = false → K false S f d')
    (hlate : ∀ d', P.Rely S d d' → P.Inv d' → hit (f d') = false → K false (insert l S) f d')
    (hhit : ∀ d', P.Rely S d d' → P.Inv d' → hit (f d') = true → K true (insert l S) (g ∘ f) d') :
    P.wp K X (updateWhere l hit g : Prog σ L ε Bool) S f d := by
  simp only [updateWhere, wp_bind, wp_get, wp_ite, wp_acquire, wp_modify, wp_pure]
  intro d₁ hr₁ hi₁
  refine ⟨fun _ d₂ hr₂ hi₂ d₃ hr₃ hi₃ => ?_, fun hmiss₁ => hmiss d₁ hr₁ hi₁ (by simpa using hmiss₁)⟩
  have hr : P.Rely S d d₃ := (hr₁.trans hr₂).trans (hr₃.anti (Set.subset_insert l S))
  exact ⟨fun hhit₃ => hhit d₃ hr hi₃ hhit₃, fun hmiss₃ => hlate d₃ hr hi₃ (by simpa using hmiss₃)⟩

/-- After a program that leaves `φ` alone and takes locks of `A` only the locks,
some harmless writes and what the others did meanwhile are new. -/
theorem wp_of_keeps_takes {K : α → Set L → (σ → σ) → σ → Prop} {φ : σ → τ} {A : Set L}
    {p : Prog σ L ε α} (hp : p.Keeps φ) (ht : p.Takes A) (hd : P.Inv d)
    (hK : ∀ a S' g d', S ⊆ S' → S' ⊆ S ∪ A → (∀ s, φ (g s) = φ s) → P.Rely S d d' → P.Inv d' →
      K a S' (g ∘ f) d')
    (hX : ∀ e S' d', S ⊆ S' → P.Rely S d d' → P.Inv d' → X e S' d' := by
      exact fun _ _ _ _ _ _ => trivial) :
    P.wp K X p S f d := by
  induction p generalizing S f d with
  | ret a => exact hK a S id d subset_rfl Set.subset_union_left (fun _ => rfl) .refl hd
  | fail e => exact hX e S d subset_rfl .refl hd
  | read k ih =>
      intro d₁ hr₁ hi₁
      refine ih _ (hp _) (ht _) hi₁ (fun a S' g d' hS hA hg hr hi => ?_) fun e S' d' hS hr hi => ?_
      · exact hK a S' g d' hS hA hg (hr₁.trans hr) hi
      · exact hX e S' d' hS (hr₁.trans hr) hi
  | write h k ih =>
      refine ih hp.2 ht hd (fun a S' g d' hS hA hg hr hi => ?_) hX
      exact hK a S' (g ∘ h) d' hS hA (fun s => (hg (h s)).trans (hp.1 s)) hr hi
  | lock l k ih =>
      intro d₁ hr₁ hi₁
      have hsub : S ⊆ insert l S := Set.subset_insert l S
      have hout : insert l S ∪ A ⊆ S ∪ A := by
        rw [Set.insert_union]
        exact Set.insert_subset (.inr ht.1) subset_rfl
      refine ih hp ht.2 hi₁ (fun a S' g d' hS hA hg hr hi => ?_) fun e S' d' hS hr hi => ?_
      · exact hK a S' g d' (hsub.trans hS) (hA.trans hout) hg (hr₁.trans (hr.anti hsub)) hi
      · exact hX e S' d' (hsub.trans hS) (hr₁.trans (hr.anti hsub)) hi
  | tryLock l k ih =>
      intro d₁ hr₁ hi₁
      have hsub : S ⊆ insert l S := Set.subset_insert l S
      have hout : insert l S ∪ A ⊆ S ∪ A := by
        rw [Set.insert_union]
        exact Set.insert_subset (.inr ht.1) subset_rfl
      constructor
      · refine ih true (hp true) (ht.2 true) hi₁ (fun a S' g d' hS hA hg hr hi => ?_)
          fun e S' d' hS hr hi => ?_
        · exact hK a S' g d' (hsub.trans hS) (hA.trans hout) hg (hr₁.trans (hr.anti hsub)) hi
        · exact hX e S' d' (hsub.trans hS) (hr₁.trans (hr.anti hsub)) hi
      · refine ih false (hp false) (ht.2 false) hi₁ (fun a S' g d' hS hA hg hr hi => ?_)
          fun e S' d' hS hr hi => ?_
        · exact hK a S' g d' hS hA hg (hr₁.trans hr) hi
        · exact hX e S' d' hS (hr₁.trans hr) hi
  | commit | outside => exact hp.elim

theorem wp_of_keeps {K : α → Set L → (σ → σ) → σ → Prop} {φ : σ → τ} {p : Prog σ L ε α}
    (hp : p.Keeps φ) (hd : P.Inv d)
    (hK : ∀ a S' g d', S ⊆ S' → (∀ s, φ (g s) = φ s) → P.Rely S d d' → P.Inv d' →
      K a S' (g ∘ f) d')
    (hX : ∀ e S' d', S ⊆ S' → P.Rely S d d' → P.Inv d' → X e S' d' := by
      exact fun _ _ _ _ _ _ => trivial) :
    P.wp K X p S f d :=
  wp_of_keeps_takes hp (takes_univ p) hd (fun a S' g d' hS _ => hK a S' g d' hS) hX

/-- The same for a program that only reads and waits. -/
theorem wp_of_silent {K : α → Set L → (σ → σ) → σ → Prop} {p : Prog σ L ε α}
    (hp : p.Keeps id) (hd : P.Inv d)
    (hK : ∀ a S' d', S ⊆ S' → P.Rely S d d' → P.Inv d' → K a S' f d')
    (hX : ∀ e S' d', S ⊆ S' → P.Rely S d d' → P.Inv d' → X e S' d' := by
      exact fun _ _ _ _ _ _ => trivial) :
    P.wp K X p S f d := by
  refine wp_of_keeps hp hd (fun a S' g d' hS hg hr hi => ?_) hX
  have hgid : g = id := funext hg
  simpa only [hgid, Function.id_comp] using hK a S' d' hS hr hi

/-- A program that only reads. -/
theorem wp_of_reading {K : α → Set L → (σ → σ) → σ → Prop} {p : Prog σ L ε α} (hp : p.Keeps id)
    (ht : p.Takes ∅) (hd : P.Inv d) (hK : ∀ a d', P.Rely S d d' → P.Inv d' → K a S f d')
    (hX : ∀ e S' d', S ⊆ S' → P.Rely S d d' → P.Inv d' → X e S' d' := by
      exact fun _ _ _ _ _ _ => trivial) :
    P.wp K X p S f d := by
  refine wp_of_keeps_takes hp ht hd (fun a S' g d' hS hA hg hr hi => ?_) hX
  have hgid : g = id := funext hg
  have hsame : S' = S := (hA.trans (Set.union_empty S).subset).antisymm hS
  simpa only [hgid, hsame, Function.id_comp] using hK a d' hr hi

/-- Publishing the pending writes is within the guarantee and keeps the invariant. -/
def Kept (P : Protocol σ L) (_ : α) (S : Set L) (f : σ → σ) (d : σ) : Prop :=
  ∀ d', P.Rely S d d' → P.Inv d' → P.Guar S d' (f d') ∧ P.Inv (f d')

theorem Kept.later {S' : Set L} {d' : σ} {a : α} (h : P.Kept a S f d)
    (hmono : ∀ {d d'}, P.Guar S d d' → P.Guar S' d d') (hS : S ⊆ S') (hr : P.Rely S d d') :
    P.Kept a S' f d' := by
  intro d'' hr' hi'
  obtain ⟨hguar, hinv⟩ := h d'' (hr.trans (hr'.anti hS)) hi'
  exact ⟨hmono hguar, hinv⟩

/-- One more write. -/
theorem Kept.write {g : σ → σ} {a : α} (h : P.Kept a S f d)
    (htrans : ∀ {d d' d''}, P.Guar S d d' → P.Guar S d' d'' → P.Guar S d d'')
    (hg : ∀ d', P.Rely S d d' → P.Inv (f d') → P.Guar S (f d') (g (f d')) ∧ P.Inv (g (f d'))) :
    P.Kept a S (g ∘ f) d := by
  intro d' hr hi
  obtain ⟨hguar, hinv⟩ := h d' hr hi
  obtain ⟨hguar', hinv'⟩ := hg d' hr hinv
  exact ⟨htrans hguar hguar', hinv'⟩

/-- A request whose answer is wrapped and says nothing. -/
theorem done_of_kept {p : Prog σ L ε α} (g : α → β) (h : P.wp P.Kept Anyway p S f d) :
    P.wp (P.Done fun _ _ _ => True) (P.Failed fun _ _ => True) (g <$> p) S f d := by
  rw [wp_map]
  refine wp_mono (fun a S f d hkept d' hr hi => ?_) (fun _ _ _ _ _ _ _ => trivial) h
  obtain ⟨hguar, hinv⟩ := hkept d' hr hi
  exact ⟨hguar, hinv, trivial⟩

/-- What is not changed under the locks held is the same later. -/
theorem Rely.same {χ : σ → τ} (hχ : ∀ d d', P.Other S d d' → χ d' = χ d) {d' : σ}
    (h : P.Rely S d d') : χ d' = χ d :=
  h.stable (φ := fun x => χ x = χ d) (fun _ _ hstep hx => (hχ _ _ hstep).trans hx) rfl

end Protocol

end Transactions
