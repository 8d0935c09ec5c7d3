import Emis.Library.Rules

/-!
# Programs whose writes go one way

`Keeps` for a relation instead of an equation: every write of the program leads from a store to
one that it is related to.
-/

namespace Transactions

namespace Prog

variable {σ τ L M ε α β : Type} {R : σ → σ → Prop}

/-- The program stays in one transaction, and each of its writes is within `R`. -/
def Writes (R : σ → σ → Prop) : Prog σ L ε α → Prop
  | ret _ | fail _ => True
  | read k => ∀ s, (k s).Writes R
  | write f k => (∀ s, R s (f s)) ∧ k.Writes R
  | lock _ k => k.Writes R
  | tryLock _ k => ∀ b, (k b).Writes R
  | commit _ | outside _ _ => False

theorem Keeps.writes {φ : σ → τ} {p : Prog σ L ε α} (hp : p.Keeps φ) (hR : ∀ s s', φ s' = φ s → R s s') :
    p.Writes R := by
  induction p with
  | ret | fail => trivial
  | read k ih => exact fun s => ih s (hp s)
  | write f k ih => exact ⟨fun s => hR s _ (hp.1 s), ih hp.2⟩
  | lock l k ih => exact ih hp
  | tryLock l k ih => exact fun b => ih b (hp b)
  | commit | outside => exact hp.elim

theorem Writes.bind {p : Prog σ L ε α} {c : α → Prog σ L ε β} (hp : p.Writes R) (hc : ∀ a, (c a).Writes R) :
    (p >>= c).Writes R := by
  change (p.bind c).Writes R
  induction p with
  | ret a => exact hc a
  | fail e => trivial
  | read k ih => exact fun s => ih s (hp s)
  | write f k ih => exact ⟨hp.1, ih hp.2⟩
  | lock l k ih => exact ih hp
  | tryLock l k ih => exact fun b => ih b (hp b)
  | commit | outside => exact hp.elim

theorem Writes.pure (a : α) : (pure a : Prog σ L ε α).Writes R := trivial

theorem Writes.map (g : α → β) {p : Prog σ L ε α} (hp : p.Writes R) : (g <$> p).Writes R := by
  rw [← bind_pure_comp]
  exact hp.bind fun _ => .pure _

theorem Writes.get : (get : Prog σ L ε σ).Writes R := fun _ => trivial

theorem Writes.require (b : Bool) (e : ε) : (require b e : Prog σ L ε Unit).Writes R := by
  cases b <;> trivial

theorem Writes.expect (o : Option α) (e : ε) : (expect o e : Prog σ L ε α).Writes R := by
  cases o <;> trivial

theorem Writes.updateWhere (l : L) (hit : σ → Bool) {f : σ → σ} (hf : ∀ s, R s (f s)) :
    (updateWhere l hit f : Prog σ L ε Bool).Writes R := by
  have hchange : (do modify f; return true : Prog σ L ε Bool).Writes R := ⟨hf, trivial⟩
  refine .bind .get fun s => ?_
  split
  · refine .bind (p := Prog.acquire l) trivial fun _ => .bind .get fun s => ?_
    split
    · exact hchange
    · exact .pure _
  · exact .pure _

theorem Writes.zoom {R' : τ → τ → Prop} {view : τ → σ} {put : σ → τ → τ} {name : L → M} {p : Prog σ L ε α}
    (hp : p.Writes R) (hput : ∀ s t, R (view t) s → R' t (put s t)) : (p.zoom view put name).Writes R' := by
  induction p with
  | ret | fail => trivial
  | read k ih => exact fun t => ih _ (hp _)
  | write f k ih => exact ⟨fun t => hput _ t (hp.1 _), ih hp.2⟩
  | lock l k ih => exact ih hp
  | tryLock l k ih => exact fun b => ih b (hp b)
  | commit | outside => exact hp.elim

end Prog

namespace Protocol

variable {σ L ε α : Type} {P : Protocol σ L} {S : Set L} {f : σ → σ} {d : σ} {X : ε → Set L → σ → Prop}
  {R : σ → σ → Prop}

/-- After such a program its writes, the locks it took and what the others did are new. -/
theorem wp_of_writes {K : α → Set L → (σ → σ) → σ → Prop} {p : Prog σ L ε α} (hp : p.Writes R) (hrefl : ∀ s, R s s)
    (htrans : ∀ {s s' s''}, R s s' → R s' s'' → R s s'') (hd : P.Inv d)
    (hK : ∀ a S' g d', S ⊆ S' → (∀ s, R s (g s)) → P.Rely S d d' → P.Inv d' → K a S' (g ∘ f) d')
    (hX : ∀ e S' d', S ⊆ S' → P.Rely S d d' → P.Inv d' → X e S' d' := by
      exact fun _ _ _ _ _ _ => trivial) :
    P.wp K X p S f d := by
  induction p generalizing S f d with
  | ret a => exact hK a S id d subset_rfl hrefl .refl hd
  | fail e => exact hX e S d subset_rfl .refl hd
  | read k ih =>
      intro d₁ hr₁ hi₁
      refine ih _ (hp _) hi₁ (fun a S' g d' hS hg hr hi => ?_) fun e S' d' hS hr hi => ?_
      · exact hK a S' g d' hS hg (hr₁.trans hr) hi
      · exact hX e S' d' hS (hr₁.trans hr) hi
  | write h k ih =>
      refine ih hp.2 hd (fun a S' g d' hS hg hr hi => ?_) hX
      exact hK a S' (g ∘ h) d' hS (fun s => htrans (hp.1 s) (hg (h s))) hr hi
  | lock l k ih =>
      intro d₁ hr₁ hi₁
      have hsub : S ⊆ insert l S := Set.subset_insert l S
      refine ih hp hi₁ (fun a S' g d' hS hg hr hi => ?_) fun e S' d' hS hr hi => ?_
      · exact hK a S' g d' (hsub.trans hS) hg (hr₁.trans (hr.anti hsub)) hi
      · exact hX e S' d' (hsub.trans hS) (hr₁.trans (hr.anti hsub)) hi
  | tryLock l k ih =>
      intro d₁ hr₁ hi₁
      have hsub : S ⊆ insert l S := Set.subset_insert l S
      constructor
      · refine ih true (hp true) hi₁ (fun a S' g d' hS hg hr hi => ?_) fun e S' d' hS hr hi => ?_
        · exact hK a S' g d' (hsub.trans hS) hg (hr₁.trans (hr.anti hsub)) hi
        · exact hX e S' d' (hsub.trans hS) (hr₁.trans (hr.anti hsub)) hi
      · refine ih false (hp false) hi₁ (fun a S' g d' hS hg hr hi => ?_) fun e S' d' hS hr hi => ?_
        · exact hK a S' g d' hS hg (hr₁.trans hr) hi
        · exact hX e S' d' hS (hr₁.trans hr) hi
  | commit | outside => exact hp.elim

end Protocol

end Transactions
