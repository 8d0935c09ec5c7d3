import Emis.Library.Program

/-!
# Runs on two stores

A program that looks at nothing but `φ` of the store gives the same answer, or
throws the same error, on two stores that agree on `φ`.
-/

namespace Transactions

namespace Prog

variable {σ τ υ L M ε α β : Type} {φ : σ → τ}

/-- What the program reads of the store is determined by `φ`, and so is what its
writes do to it. -/
def Sees (φ : σ → τ) : Prog σ L ε α → Prop
  | ret _ | fail _ => True
  | read k => (∀ s s', φ s = φ s' → k s = k s') ∧ ∀ s, (k s).Sees φ
  | write f k | outside f k => (∀ s s', φ s = φ s' → φ (f s) = φ (f s')) ∧ k.Sees φ
  | lock _ k | commit k => k.Sees φ
  | tryLock _ k => ∀ b, (k b).Sees φ

theorem Sees.bind {p : Prog σ L ε α} {c : α → Prog σ L ε β} (hp : p.Sees φ)
    (hc : ∀ a, (c a).Sees φ) : (p >>= c).Sees φ := by
  change (p.bind c).Sees φ
  induction p with
  | ret a => exact hc a
  | fail e => trivial
  | read k ih =>
      refine ⟨fun s s' h => ?_, fun s => ih s (hp.2 s)⟩
      exact congrArg (Prog.bind · c) (hp.1 s s' h)
  | write f k ih | outside f k ih => exact ⟨hp.1, ih hp.2⟩
  | lock l k ih | commit k ih => exact ih hp
  | tryLock l k ih => exact fun b => ih b (hp b)

theorem Sees.pure (a : α) : (pure a : Prog σ L ε α).Sees φ := trivial

theorem Sees.throw (e : ε) : (throw e : Prog σ L ε α).Sees φ := trivial

theorem Sees.acquire (l : L) : (acquire l : Prog σ L ε Unit).Sees φ := trivial

theorem Sees.require (b : Bool) (e : ε) : (require b e : Prog σ L ε Unit).Sees φ := by
  cases b <;> trivial

theorem Sees.expect (o : Option α) (e : ε) : (expect o e : Prog σ L ε α).Sees φ := by
  cases o <;> trivial

theorem Sees.ite {b : Prop} [Decidable b] {p q : Prog σ L ε α} (hp : p.Sees φ) (hq : q.Sees φ) :
    (if b then p else q).Sees φ := by
  split
  · exact hp
  · exact hq

theorem Sees.map (g : α → β) {p : Prog σ L ε α} (hp : p.Sees φ) : (g <$> p).Sees φ := by
  rw [← bind_pure_comp]
  exact hp.bind fun _ => .pure _

theorem Sees.catching {h : ε → Prog σ L ε α} (hh : ∀ e, (h e).Sees φ) {p : Prog σ L ε α}
    (hp : p.Sees φ) : (p.catching h).Sees φ := by
  induction p with
  | ret a => trivial
  | fail e => exact hh e
  | read k ih =>
      refine ⟨fun s s' h' => ?_, fun s => ih s (hp.2 s)⟩
      exact congrArg (Prog.catching h) (hp.1 s s' h')
  | write f k ih | outside f k ih => exact ⟨hp.1, ih hp.2⟩
  | lock l k ih | commit k ih => exact ih hp
  | tryLock l k ih => exact fun b => ih b (hp b)

/-- A part of the store that a program sees, seen in the whole. -/
theorem Sees.zoom {ω : Type} {view : τ → σ} {put : σ → τ → τ} {name : L → M} {ψ : σ → υ}
    {χ : τ → ω} {p : Prog σ L ε α} (hp : p.Sees ψ)
    (hview : ∀ t t', χ t = χ t' → ψ (view t) = ψ (view t'))
    (hput : ∀ s s' t t', ψ s = ψ s' → χ t = χ t' → χ (put s t) = χ (put s' t')) :
    (p.zoom view put name).Sees χ := by
  induction p with
  | ret | fail => trivial
  | read k ih =>
      refine ⟨fun t t' h => ?_, fun t => ih _ (hp.2 _)⟩
      exact congrArg (Prog.zoom view put name) (hp.1 _ _ (hview t t' h))
  | write f k ih | outside f k ih =>
      exact ⟨fun t t' h => hput _ _ _ _ (hp.1 _ _ (hview t t' h)) h, ih hp.2⟩
  | lock l k ih | commit k ih => exact ih hp
  | tryLock l k ih => exact fun b => ih b (hp b)

/-- A query whose continuation uses of the store what `φ` shows. -/
theorem Sees.query {c : σ → Prog σ L ε α} (h : ∀ s s', φ s = φ s' → c s = c s')
    (hc : ∀ s, (c s).Sees φ) : (get >>= c).Sees φ := ⟨h, hc⟩

/-- The same for a part of the store that is a store itself. -/
theorem Sees.inPart {φ : σ → σ} {c : σ → Prog σ L ε α} (h : ∀ s, c s = c (φ s))
    (hc : ∀ s, (c s).Sees φ) : (get >>= c).Sees φ :=
  .query (fun s s' hsame => by rw [h s, h s', hsame]) hc

/-- Two runs in one transaction that see the same end the same way. -/
theorem Sees.run {p : Prog σ L ε α} (hp : p.Sees φ) {c c' v v' : σ} (hc : φ c = φ c')
    (hv : φ v = φ v') : (p.run c v).1 = (p.run c' v').1 := by
  induction p generalizing c c' v v' with
  | ret | fail => rfl
  | read k ih =>
      have hsame : k v = k v' := hp.1 v v' hv
      simp only [Prog.run, hsame]
      exact ih v' (hp.2 v') hc hv
  | write f k ih => exact ih hp.2 hc (hp.1 v v' hv)
  | lock l k ih => exact ih hp hc hv
  | tryLock l k ih => exact ih true (hp true) hc hv
  | commit k ih => exact ih hp hv hv
  | outside f k ih => exact ih hp.2 (hp.1 c c' hc) (hp.1 v v' hv)

/-- Stores that `φ` does not tell apart give one answer. -/
theorem Sees.alone {p : Prog σ L ε α} (hp : p.Sees φ) {d d' : σ} (h : φ d = φ d') :
    (p.alone d).1 = (p.alone d').1 := by
  rw [alone_fst, alone_fst]
  exact hp.run h h

end Prog

end Transactions
