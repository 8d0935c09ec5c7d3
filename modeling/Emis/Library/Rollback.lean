import Emis.Library.Rules

/-!
# What a program throws

A program that throws in a wider type, and a dry run, which throws what it has found: its
transaction ends as one that failed.
-/

namespace Transactions

namespace Prog

variable {σ τ L ε ε' α β : Type}

/-- The same program, throwing in a wider type. -/
def mapError (g : ε → ε') : Prog σ L ε α → Prog σ L ε' α
  | ret a => ret a
  | fail e => fail (g e)
  | read k => read fun s => (k s).mapError g
  | write f k => write f (k.mapError g)
  | lock l k => lock l (k.mapError g)
  | tryLock l k => tryLock l fun b => (k b).mapError g
  | commit k => commit (k.mapError g)
  | outside f k => outside f (k.mapError g)

/-- Run the program and throw its answer. -/
def dryRun (p : Prog σ L ε α) : Prog σ L (ε ⊕ α) β := do
  let result ← p.mapError Sum.inl
  throw (Sum.inr result)

/-- What a dry run ends with. -/
def thrown : Except ε α → ε ⊕ α
  | .ok a => .inr a
  | .error e => .inl e

theorem run_dryRun {φ : σ → τ} {p : Prog σ L ε α} (hp : p.Keeps φ) (c v : σ) :
    (p.dryRun : Prog σ L (ε ⊕ α) β).run c v = (.error (thrown (p.run c v).1), c, c) := by
  unfold dryRun
  change ((p.mapError Sum.inl).bind _).run c v = _
  induction p generalizing v with
  | ret a => rfl
  | fail e => rfl
  | read k ih => exact ih v (hp v) v
  | write f k ih => exact ih hp.2 (f v)
  | lock l k ih => exact ih hp v
  | tryLock l k ih => exact ih true (hp true) v
  | commit | outside => exact hp.elim

/-- A dry run finds what the run would have answered, and leaves the store as it was. -/
theorem alone_dryRun {φ : σ → τ} {p : Prog σ L ε α} (hp : p.Keeps φ) (d : σ) :
    (p.dryRun : Prog σ L (ε ⊕ α) β).alone d = (.error (thrown (p.alone d).1), d) := by
  rw [alone_fst, alone, run_dryRun hp]

theorem run_map (g : α → β) (p : Prog σ L ε α) (c v : σ) :
    (g <$> p).run c v = (((p.run c v).1.map g), (p.run c v).2) := by
  rw [← bind_pure_comp]
  change (p.bind _).run c v = _
  induction p generalizing c v with
  | ret a | fail e => rfl
  | read k ih => exact ih v c v
  | write f k ih => exact ih c (f v)
  | lock l k ih => exact ih c v
  | tryLock l k ih => exact ih true c v
  | commit k ih => exact ih v v
  | outside f k ih => exact ih (f c) (f v)

theorem alone_map (g : α → β) (p : Prog σ L ε α) (d : σ) :
    (g <$> p).alone d = ((p.alone d).1.map g, (p.alone d).2) := by
  simp only [alone, run_map]
  rcases p.run d d with ⟨r, c, v⟩
  cases r <;> rfl

/-! ## Errors of one kind -/

/-- Whatever is thrown is one of these. -/
def Throws (E : ε → Prop) : Prog σ L ε α → Prop
  | ret _ => True
  | fail e => E e
  | read k => ∀ s, (k s).Throws E
  | write _ k | lock _ k | commit k | outside _ k => k.Throws E
  | tryLock _ k => ∀ b, (k b).Throws E

theorem throws_mapError (g : ε → ε') (p : Prog σ L ε α) : (p.mapError g).Throws fun e => ∃ e', e = g e' := by
  induction p with
  | ret a => trivial
  | fail e => exact ⟨e, rfl⟩
  | read k ih => exact fun s => ih s
  | write f k ih | lock l k ih | commit k ih | outside f k ih => exact ih
  | tryLock l k ih => exact fun b => ih b

theorem Throws.zoom {M : Type} {view : τ → σ} {put : σ → τ → τ} {name : L → M} {E : ε → Prop} {p : Prog σ L ε α}
    (hp : p.Throws E) : (p.zoom view put name).Throws E := by
  induction p with
  | ret a => trivial
  | fail e => exact hp
  | read k ih => exact fun t => ih _ (hp _)
  | write f k ih | lock l k ih | commit k ih | outside f k ih => exact ih hp
  | tryLock l k ih => exact fun b => ih b (hp b)

theorem Keeps.mapError {φ : σ → τ} {p : Prog σ L ε α} (g : ε → ε') (hp : p.Keeps φ) : (p.mapError g).Keeps φ := by
  induction p with
  | ret | fail => trivial
  | read k ih => exact fun s => ih s (hp s)
  | write f k ih => exact ⟨hp.1, ih hp.2⟩
  | lock l k ih => exact ih hp
  | tryLock l k ih => exact fun b => ih b (hp b)
  | commit | outside => exact hp.elim

theorem run_mapError (g : ε → ε') (p : Prog σ L ε α) (c v : σ) :
    (p.mapError g).run c v = ((p.run c v).1.mapError g, (p.run c v).2) := by
  induction p generalizing c v with
  | ret | fail => rfl
  | read k ih => exact ih v c v
  | write f k ih => exact ih c (f v)
  | lock l k ih => exact ih c v
  | tryLock l k ih => exact ih true c v
  | commit k ih => exact ih v v
  | outside f k ih => exact ih (f c) (f v)

theorem alone_of_ok {p : Prog σ L ε α} {d c v : σ} {a : α} (h : p.run d d = (.ok a, c, v)) :
    p.alone d = (.ok a, v) := by rw [alone, h]

theorem alone_of_error {p : Prog σ L ε α} {d c v : σ} {e : ε} (h : p.run d d = (.error e, c, v)) :
    p.alone d = (.error e, c) := by rw [alone, h]

theorem wlp_mapError {Φ : α → σ → Prop} {E : ε' → Prop} {v : σ} (g : ε → ε') (p : Prog σ L ε α) :
    (p.mapError g).wlp Φ E v ↔ p.wlp Φ (fun e => E (g e)) v := by
  induction p generalizing v with
  | ret | fail | commit | outside => exact Iff.rfl
  | read k ih => exact ih v
  | write f k ih | lock l k ih => exact ih
  | tryLock l k ih => exact ih true

/-- What one transaction does is the most that can be said of it. -/
theorem wlp_run {φ : σ → τ} {p : Prog σ L ε α} (hp : p.Keeps φ) (c v : σ) :
    p.wlp (fun a v' => p.run c v = (.ok a, c, v')) (fun e => p.run c v = (.error e, c, c)) v := by
  induction p generalizing v with
  | ret a => rfl
  | fail e => rfl
  | read k ih => exact ih v (hp v) v
  | write f k ih => exact ih hp.2 (f v)
  | lock l k ih => exact ih hp v
  | tryLock l k ih => exact ih true (hp true) v
  | commit | outside => exact hp.elim

end Prog

namespace Protocol

variable {σ L ε α : Type} {P : Protocol σ L} {K : α → Set L → (σ → σ) → σ → Prop} {X : ε → Set L → σ → Prop}

/-- Only what a program may throw needs an explanation. -/
theorem wp_of_throws {E : ε → Prop} {p : Prog σ L ε α} (hp : p.Throws E) {S : Set L} {f : σ → σ} {d : σ}
    (h : P.wp K (fun e S d => E e → X e S d) p S f d) : P.wp K X p S f d := by
  induction p generalizing S f d with
  | ret a => exact h
  | fail e => exact h hp
  | read k ih => exact fun d' hr hi => ih _ (hp _) (h d' hr hi)
  | write g k ih => exact ih hp h
  | lock l k ih => exact fun d' hr hi => ih hp (h d' hr hi)
  | tryLock l k ih => exact fun d' hr hi => ⟨ih true (hp true) (h d' hr hi).1, ih false (hp false) (h d' hr hi).2⟩
  | commit k ih | outside g k ih =>
      exact fun d' hr hi => ⟨(h d' hr hi).1, (h d' hr hi).2.1, ih hp (h d' hr hi).2.2⟩

end Protocol

end Transactions
