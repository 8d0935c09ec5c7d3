import Emis.Library.Interleaving

/-!
# What an answer rests on

A client decides by what it has read. `seeing` collects the committed stores that a
program has looked at, so that an answer can be traced to a moment of the run at
which what it says was true.
-/

namespace Transactions

variable {ι Q σ L ε α β τ : Type}

namespace Prog

/-- Started when it holds the locks `S`, has looked at the stores in `D`, each with
the locks it held then, and has `f` pending, the program answers `a` only if `K a`
holds of what it holds, has looked at and has pending by then. -/
def seeing (K : α → Set L → Set (Set L × σ) → (σ → σ) → Prop) :
    Prog σ L ε α → Set L → Set (Set L × σ) → (σ → σ) → Prop
  | ret a, S, D, f => K a S D f
  | fail _, _, _, _ => True
  | read k, S, D, f => ∀ s, (k (f s)).seeing K S (insert (S, s) D) f
  | write g k, S, D, f => k.seeing K S D (g ∘ f)
  | lock l k, S, D, f => k.seeing K (insert l S) D f
  | tryLock l k, S, D, f => (k true).seeing K (insert l S) D f ∧ (k false).seeing K S D f
  | commit k, _, D, _ => k.seeing K ∅ D id
  | outside _ k, S, D, f => k.seeing K S D f

section Rules

variable {K : α → Set L → Set (Set L × σ) → (σ → σ) → Prop} {S : Set L} {D : Set (Set L × σ)}
  {f : σ → σ}

theorem seeing_bind {K : β → Set L → Set (Set L × σ) → (σ → σ) → Prop} (p : Prog σ L ε α)
    (c : α → Prog σ L ε β) : (p >>= c).seeing K = p.seeing fun a => (c a).seeing K := by
  change (p.bind c).seeing K = _
  funext S D f
  induction p generalizing S D f with
  | ret | fail => rfl
  | read k ih => simp only [Prog.bind, seeing, ih]
  | write g k ih | lock l k ih | commit k ih | outside g k ih => simp only [Prog.bind, seeing, ih]
  | tryLock l k ih => simp only [Prog.bind, seeing, ih]

theorem seeing_map {K : β → Set L → Set (Set L × σ) → (σ → σ) → Prop} (g : α → β)
    (p : Prog σ L ε α) : (g <$> p).seeing K = p.seeing fun a => K (g a) := by
  rw [← bind_pure_comp, seeing_bind]
  rfl

@[simp] theorem seeing_pure (a : α) : (pure a : Prog σ L ε α).seeing K S D f ↔ K a S D f := Iff.rfl

@[simp] theorem seeing_get {K : σ → Set L → Set (Set L × σ) → (σ → σ) → Prop} :
    (get : Prog σ L ε σ).seeing K S D f ↔ ∀ s, K (f s) S (insert (S, s) D) f := Iff.rfl

@[simp] theorem seeing_modify {K : Unit → Set L → Set (Set L × σ) → (σ → σ) → Prop} (g : σ → σ) :
    (modify g : Prog σ L ε Unit).seeing K S D f ↔ K () S D (g ∘ f) := Iff.rfl

@[simp] theorem seeing_acquire {K : Unit → Set L → Set (Set L × σ) → (σ → σ) → Prop} (l : L) :
    (acquire l : Prog σ L ε Unit).seeing K S D f ↔ K () (insert l S) D f := Iff.rfl

@[simp] theorem seeing_require {K : Unit → Set L → Set (Set L × σ) → (σ → σ) → Prop} (b : Bool)
    (e : ε) : (require b e : Prog σ L ε Unit).seeing K S D f ↔ (b = true → K () S D f) := by
  cases b <;> simp [require, seeing]

@[simp] theorem seeing_ite (b : Prop) [Decidable b] (p q : Prog σ L ε α) :
    (if b then p else q).seeing K S D f ↔ (b → p.seeing K S D f) ∧ (¬ b → q.seeing K S D f) := by
  split <;> simp_all

theorem seeing_mono {K' : α → Set L → Set (Set L × σ) → (σ → σ) → Prop} {p : Prog σ L ε α}
    (hK : ∀ a S D f, K a S D f → K' a S D f) (h : p.seeing K S D f) : p.seeing K' S D f := by
  induction p generalizing S D f with
  | ret a => exact hK a S D f h
  | fail => trivial
  | read k ih => exact fun s => ih (f s) (h s)
  | write g k ih | lock l k ih | commit k ih | outside g k ih => exact ih h
  | tryLock l k ih => exact ⟨ih true h.1, ih false h.2⟩

/-- A program that leaves `φ` alone looks at more and takes more locks. -/
theorem seeing_of_keeps {φ : σ → τ} {p : Prog σ L ε α} (hp : p.Keeps φ)
    (hK : ∀ a S' D' g, S ⊆ S' → D ⊆ D' → (∀ s, φ (g s) = φ s) → K a S' D' (g ∘ f)) :
    p.seeing K S D f := by
  induction p generalizing S D f with
  | ret a => exact hK a S D id subset_rfl subset_rfl fun _ => rfl
  | fail => trivial
  | read k ih =>
      refine fun s => ih (f s) (hp _) fun a S' D' g hS hD hg => ?_
      exact hK a S' D' g hS ((Set.subset_insert (S, s) D).trans hD) hg
  | write h k ih =>
      refine ih hp.2 fun a S' D' g hS hD hg => ?_
      exact hK a S' D' (g ∘ h) hS hD fun s => (hg (h s)).trans (hp.1 s)
  | lock l k ih =>
      refine ih hp fun a S' D' g hS hD hg => ?_
      exact hK a S' D' g ((Set.subset_insert l S).trans hS) hD hg
  | tryLock l k ih =>
      refine ⟨ih true (hp true) fun a S' D' g hS hD hg => ?_, ih false (hp false) hK⟩
      exact hK a S' D' g ((Set.subset_insert l S).trans hS) hD hg
  | commit | outside => exact hp.elim

/-- The same for a program that only reads and waits. -/
theorem seeing_of_silent {p : Prog σ L ε α} (hp : p.Keeps id)
    (hK : ∀ a S' D', S ⊆ S' → D ⊆ D' → K a S' D' f) : p.seeing K S D f := by
  refine seeing_of_keeps hp fun a S' D' g hS hD hg => ?_
  obtain rfl : g = id := funext hg
  exact hK a S' D' hS hD

end Rules

end Prog

/-! ## In a run -/

section Run

variable [DecidableEq ι] {code : Q → Prog σ L ε α}

/-- The client works on its request from the first world to the second. -/
inductive Serving (code : Q → Prog σ L ε α) (i : ι) (q : Q) (w₀ : World ι Q σ L ε α) :
    World ι Q σ L ε α → Prop
  | here {s} : w₀.sessions i = some (q, s) → Serving code i q w₀ w₀
  | step {w lab w' s} : Serving code i q w₀ w → Step code w lab w' → lab ≠ .begins i q →
      w'.sessions i = some (q, s) → Serving code i q w₀ w'

theorem Serving.reachable {i : ι} {q : Q} {w₀ w : World ι Q σ L ε α} (h : Serving code i q w₀ w) :
    Reachable code w₀ w := by
  induction h with
  | here => exact .start
  | step _ hstep _ _ ih => exact .step ih hstep

/-- A moment while it was serving at which the client held the locks `S` and the store
`d` was committed. -/
def Looked (code : Q → Prog σ L ε α) (start w : World ι Q σ L ε α) (i : ι) (q : Q) (S : Set L)
    (d : σ) : Prop :=
  ∃ w₀ s, Reachable code start w₀ ∧ w₀.db = d ∧ w₀.sessions i = some (q, s) ∧ s.held = S ∧
    Serving code i q w₀ w

theorem Looked.goOn {start w w' : World ι Q σ L ε α} {lab : Label ι Q ε α} {i : ι} {q : Q} {S : Set L}
    {d : σ} {s : Session σ L ε α} (h : Looked code start w i q S d) (hstep : Step code w lab w')
    (hlab : lab ≠ .begins i q) (hi : w'.sessions i = some (q, s)) : Looked code start w' i q S d := by
  obtain ⟨w₀, s₀, hreach, hdb, hs₀, hheld, hserving⟩ := h
  exact ⟨w₀, s₀, hreach, hdb, hs₀, hheld, .step hserving hstep hlab hi⟩

variable (code) in
/-- What the rest of a client's code needs to have looked at, it has looked at while
it was serving. -/
def Traced (K : Q → α → Set L → Set (Set L × σ) → (σ → σ) → Prop) (start w : World ι Q σ L ε α)
    (i : ι) (q : Q) (s : Session σ L ε α) : Prop :=
  ∃ D : Set (Set L × σ), s.prog.seeing (K q) s.held D s.pending ∧
    ∀ x ∈ D, Looked code start w i q x.1 x.2

def Label.client : Label ι Q ε α → ι
  | .begins i _ | .works i _ | .publishes i _ | .answers i _ _ | .crashes i _ => i

theorem Step.others {w w' : World ι Q σ L ε α} {lab : Label ι Q ε α} (h : Step code w lab w') {i : ι}
    (hi : i ≠ lab.client) : w'.sessions i = w.sessions i := by
  cases h <;> exact Function.update_of_ne hi _ _

variable {K : Q → α → Set L → Set (Set L × σ) → (σ → σ) → Prop} {start w w' : World ι Q σ L ε α} {lab : Label ι Q ε α}

/-- A client that makes no step, or one that shows it nothing, has seen what it had seen. -/
theorem Traced.goOn {i : ι} {q : Q} {s s' : Session σ L ε α} (h : Traced code K start w i q s)
    (hstep : Step code w lab w') (hlab : lab ≠ .begins i q) (hi : w'.sessions i = some (q, s'))
    (hs : ∀ D, s.prog.seeing (K q) s.held D s.pending → s'.prog.seeing (K q) s'.held D s'.pending) :
    Traced code K start w' i q s' := by
  obtain ⟨D, hseeing, hD⟩ := h
  exact ⟨D, hs D hseeing, fun x hx => (hD x hx).goOn hstep hlab hi⟩

theorem traced_of_reachable (hcode : ∀ q, (code q).seeing (K q) ∅ ∅ id) (hidle : start.Idle)
    (hw : Reachable code start w) :
    ∀ i q s, w.sessions i = some (q, s) → Traced code K start w i q s := by
  induction hw with
  | start =>
      intro i q s hi
      simp [hidle i] at hi
  | @step w lab w' hw hstep ih =>
      intro i q s hi
      by_cases hclient : i = lab.client
      · have hset : ∀ {q' : Q} {s' : Session σ L ε α} {d : σ},
            (w.publish d i (some (q', s'))).sessions i = some (q, s) → q' = q ∧ s' = s := by
          intro q' s' d h
          simpa [World.publish] using h
        cases hstep with
        | begins q' hnone =>
            obtain rfl := hclient
            obtain ⟨rfl, rfl⟩ := hset hi
            exact ⟨∅, hcode q', by simp⟩
        | read hi₀ =>
            obtain rfl := hclient
            obtain ⟨rfl, rfl⟩ := hset hi
            obtain ⟨D, hseeing, hD⟩ := ih _ _ _ hi₀
            have hstep : Step code w _ _ := .read hi₀
            refine ⟨insert (_, w.db) D, hseeing w.db, fun x hx => ?_⟩
            rcases hx with rfl | hx
            · have hhere : Looked code start w i _ _ w.db := ⟨w, _, hw, rfl, hi₀, rfl, .here hi₀⟩
              exact hhere.goOn hstep (by simp) hi
            · exact (hD x hx).goOn hstep (by simp) hi
        | write hi₀ =>
            obtain rfl := hclient
            obtain ⟨rfl, rfl⟩ := hset hi
            exact (ih _ _ _ hi₀).goOn (.write hi₀) (by simp) hi fun _ h => h
        | lock hi₀ hfree =>
            obtain rfl := hclient
            obtain ⟨rfl, rfl⟩ := hset hi
            exact (ih _ _ _ hi₀).goOn (.lock hi₀ hfree) (by simp) hi fun _ h => h
        | tryLock hi₀ hfree =>
            obtain rfl := hclient
            obtain ⟨rfl, rfl⟩ := hset hi
            exact (ih _ _ _ hi₀).goOn (.tryLock hi₀ hfree) (by simp) hi fun _ h => h.1
        | skipLock hi₀ hfree =>
            obtain rfl := hclient
            obtain ⟨rfl, rfl⟩ := hset hi
            exact (ih _ _ _ hi₀).goOn (.skipLock hi₀ hfree) (by simp) hi fun _ h => h.2
        | commit hi₀ =>
            obtain rfl := hclient
            obtain ⟨rfl, rfl⟩ := hset hi
            exact (ih _ _ _ hi₀).goOn (.commit hi₀) (by simp) hi fun _ h => h
        | outside hi₀ =>
            obtain rfl := hclient
            obtain ⟨rfl, rfl⟩ := hset hi
            exact (ih _ _ _ hi₀).goOn (.outside hi₀) (by simp) hi fun _ h => h
        | ret hi₀ | fail hi₀ | crash hi₀ =>
            obtain rfl := hclient
            simp [World.publish, World.set] at hi
      · have hi₀ : w.sessions i = some (q, s) := (hstep.others hclient).symm.trans hi
        refine (ih i q s hi₀).goOn hstep ?_ hi fun _ h => h
        rintro rfl
        exact hclient rfl

/-- An answer rests on stores that were committed while the client was serving. -/
theorem answer_traced (hcode : ∀ q, (code q).seeing (K q) ∅ ∅ id) (hidle : start.Idle)
    (hw : Reachable code start w) {i : ι} {q : Q} {a : α}
    (hstep : Step code w (.answers i q (.ok a)) w') :
    ∃ S D f, K q a S D f ∧ w'.db = f w.db ∧ ∀ x ∈ D, Looked code start w i q x.1 x.2 := by
  cases hstep with
  | ret hi =>
      obtain ⟨D, hseeing, hD⟩ := traced_of_reachable hcode hidle hw i q _ hi
      exact ⟨_, D, _, hseeing, rfl, hD⟩

end Run

end Transactions
