import Emis.Library.Program
import Mathlib.Data.Set.BooleanAlgebra
import Mathlib.Order.CompletePartialOrder

/-!
# Interleaved clients

Any number of clients run their programs side by side, one statement at a time.
A client sees what is committed at that moment under its own pending writes
(READ COMMITTED), waits for a lock that somebody else holds, and may be lost at
any moment, which undoes its transaction.

The reasoning is rely-guarantee: `Guar S` says what a client holding the locks
`S` may do to the committed store, so what the holder of `T` has to expect of
the others is `Guar S` for all `S` disjoint from `T`. The weakest precondition
`wp` of one program under this interference is enough for all interleavings.
-/

namespace Transactions

variable {ι Q σ L ε α β : Type}

/-- A running client: the rest of its code, its locks, its pending writes. -/
structure Session (σ L ε α : Type) where
  prog : Prog σ L ε α
  held : Set L
  pending : σ → σ

/-- The committed store and the clients, each with the request it works on. -/
structure World (ι Q σ L ε α : Type) where
  db : σ
  sessions : ι → Option (Q × Session σ L ε α)

namespace World

variable [DecidableEq ι]

def set (w : World ι Q σ L ε α) (i : ι) (s : Option (Q × Session σ L ε α)) :
    World ι Q σ L ε α :=
  { w with sessions := Function.update w.sessions i s }

/-- The same with a new committed store. -/
def publish (w : World ι Q σ L ε α) (d : σ) (i : ι) (s : Option (Q × Session σ L ε α)) :
    World ι Q σ L ε α :=
  { db := d, sessions := Function.update w.sessions i s }

@[simp] theorem set_db (w : World ι Q σ L ε α) (i : ι) (s) : (w.set i s).db = w.db := rfl

@[simp] theorem publish_db (w : World ι Q σ L ε α) (d : σ) (i : ι) (s) :
    (w.publish d i s).db = d := rfl

/-- Nobody but `i` holds the lock. -/
def Free (w : World ι Q σ L ε α) (i : ι) (l : L) : Prop :=
  ∀ j q s, j ≠ i → w.sessions j = some (q, s) → l ∉ s.held

/-- No client is running. -/
def Idle (w : World ι Q σ L ε α) : Prop := ∀ i, w.sessions i = none

end World

/-- What a step of the world shows. -/
inductive Label (ι Q ε α : Type) : Type where
  | begins (i : ι) (q : Q)
  | works (i : ι) (q : Q)
  | publishes (i : ι) (q : Q)
  | answers (i : ι) (q : Q) (r : Except ε α)
  | crashes (i : ι) (q : Q)

/-- The answer of a request that committed. -/
def Label.answer? : Label ι Q ε α → Option α
  | .answers _ _ (.ok a) => some a
  | _ => none

/-- Who may have changed the committed store. -/
def Label.publisher? : Label ι Q ε α → Option (ι × Q)
  | .publishes i q | .answers i q (.ok _) => some (i, q)
  | _ => none

/-- The answers of the requests that committed, in the order in which they did. -/
def committed (labels : List (Label ι Q ε α)) : List α := labels.filterMap Label.answer?

theorem committed_snoc (labels : List (Label ι Q ε α)) (lab : Label ι Q ε α) :
    committed (labels ++ [lab]) = committed labels ++ lab.answer?.toList := by
  rw [committed, List.filterMap_append, committed]
  cases h : lab.answer? <;> simp [h]

section Step

variable [DecidableEq ι] (code : Q → Prog σ L ε α)

/-- One statement of one client. `code q` is the program that serves `q`. -/
inductive Step : World ι Q σ L ε α → Label ι Q ε α → World ι Q σ L ε α → Prop
  | begins {w i} (q) : w.sessions i = none →
      Step w (.begins i q) (w.set i (some (q, ⟨code q, ∅, id⟩)))
  | read {w i q k S f} : w.sessions i = some (q, ⟨.read k, S, f⟩) →
      Step w (.works i q) (w.set i (some (q, ⟨k (f w.db), S, f⟩)))
  | write {w i q g k S f} : w.sessions i = some (q, ⟨.write g k, S, f⟩) →
      Step w (.works i q) (w.set i (some (q, ⟨k, S, g ∘ f⟩)))
  | lock {w i q l k S f} : w.sessions i = some (q, ⟨.lock l k, S, f⟩) → w.Free i l →
      Step w (.works i q) (w.set i (some (q, ⟨k, insert l S, f⟩)))
  | tryLock {w i q l k S f} : w.sessions i = some (q, ⟨.tryLock l k, S, f⟩) → w.Free i l →
      Step w (.works i q) (w.set i (some (q, ⟨k true, insert l S, f⟩)))
  | skipLock {w i q l k S f} : w.sessions i = some (q, ⟨.tryLock l k, S, f⟩) → ¬ w.Free i l →
      Step w (.works i q) (w.set i (some (q, ⟨k false, S, f⟩)))
  | commit {w i q k S f} : w.sessions i = some (q, ⟨.commit k, S, f⟩) →
      Step w (.publishes i q) (w.publish (f w.db) i (some (q, ⟨k, ∅, id⟩)))
  | outside {w i q g k S f} : w.sessions i = some (q, ⟨.outside g k, S, f⟩) →
      Step w (.publishes i q) (w.publish (g w.db) i (some (q, ⟨k, S, f⟩)))
  | ret {w i q a S f} : w.sessions i = some (q, ⟨.ret a, S, f⟩) →
      Step w (.answers i q (.ok a)) (w.publish (f w.db) i none)
  | fail {w i q e S f} : w.sessions i = some (q, ⟨.fail e, S, f⟩) →
      Step w (.answers i q (.error e)) (w.set i none)
  | crash {w i q s} : w.sessions i = some (q, s) →
      Step w (.crashes i q) (w.set i none)

/-- A client goes on with its request, or has just begun it. -/
theorem Step.request {w w' : World ι Q σ L ε α} {lab : Label ι Q ε α} (hstep : Step code w lab w')
    {i : ι} {q : Q} {s : Session σ L ε α} (hi : w'.sessions i = some (q, s)) :
    (∃ s', w.sessions i = some (q, s')) ∨ lab = .begins i q := by
  have hset : ∀ {j : ι} {q' : Q} {new : Option (Q × Session σ L ε α)} {old : Session σ L ε α},
      w.sessions j = some (q', old) → (∀ q'' s'', new = some (q'', s'') → q'' = q') →
      Function.update w.sessions j new i = some (q, s) → ∃ s', w.sessions i = some (q, s') := by
    intro j q' new old hold hnew hupdate
    by_cases hij : i = j
    · subst hij
      obtain rfl := hnew q s (by simpa using hupdate)
      exact ⟨old, hold⟩
    · exact ⟨s, by simpa [hij] using hupdate⟩
  cases hstep with
  | @begins j q' hj =>
      by_cases hij : i = j
      · subst hij
        obtain ⟨rfl, -⟩ : q' = q ∧ _ = s := by simpa [World.set] using hi
        exact .inr rfl
      · exact .inl ⟨s, by simpa [World.set, hij] using hi⟩
  | read hj | write hj | lock hj | tryLock hj | skipLock hj | commit hj | outside hj =>
      exact .inl (hset hj (by rintro _ _ ⟨rfl, rfl⟩; rfl) hi)
  | ret hj | fail hj | crash hj => exact .inl (hset hj (by simp) hi)

/-- Who publishes has been working. -/
theorem Step.publisher {w w' : World ι Q σ L ε α} {lab : Label ι Q ε α} (hstep : Step code w lab w') {i : ι} {q : Q}
    (hlab : lab.publisher? = some (i, q)) : ∃ s, w.sessions i = some (q, s) := by
  cases hstep with
  | begins | read | write | lock | tryLock | skipLock | fail | crash => cases hlab
  | commit hi | outside hi | ret hi =>
      cases hlab
      exact ⟨_, hi⟩

/-- Every world that some interleaving leads to. -/
inductive Reachable (start : World ι Q σ L ε α) : World ι Q σ L ε α → Prop
  | start : Reachable start start
  | step {w lab w'} : Reachable start w → Step code w lab w' → Reachable start w'

theorem Reachable.trans {w₁ w₂ w₃ : World ι Q σ L ε α} (h : Reachable code w₁ w₂)
    (h' : Reachable code w₂ w₃) : Reachable code w₁ w₃ := by
  induction h' with
  | start => exact h
  | step _ hstep ih => exact .step ih hstep

theorem Reachable.head {w₁ w₂ w₃ : World ι Q σ L ε α} {lab : Label ι Q ε α}
    (hstep : Step code w₁ lab w₂) (h : Reachable code w₂ w₃) : Reachable code w₁ w₃ :=
  (Reachable.step .start hstep).trans code h

/-- The same, where a request begins only if `Ok` says so of the committed store. -/
inductive Admitted (Ok : Q → σ → Prop) (start : World ι Q σ L ε α) : World ι Q σ L ε α → Prop
  | start : Admitted Ok start start
  | step {w lab w'} : Admitted Ok start w → (∀ i q, lab = .begins i q → Ok q w.db) →
      Step code w lab w' → Admitted Ok start w'

theorem Admitted.reachable {Ok : Q → σ → Prop} {start w : World ι Q σ L ε α}
    (h : Admitted code Ok start w) : Reachable code start w := by
  induction h with
  | start => exact .start
  | step _ _ hstep ih => exact .step ih hstep

theorem Admitted.trans {Ok : Q → σ → Prop} {w₁ w₂ w₃ : World ι Q σ L ε α}
    (h : Admitted code Ok w₁ w₂) (h' : Admitted code Ok w₂ w₃) : Admitted code Ok w₁ w₃ := by
  induction h' with
  | start => exact h
  | step _ hok hstep ih => exact .step ih hok hstep

/-- A client that has begun makes one more statement. -/
theorem Admitted.head {Ok : Q → σ → Prop} {w₁ w₂ w₃ : World ι Q σ L ε α} {lab : Label ι Q ε α}
    (hok : ∀ i q, lab = .begins i q → Ok q w₁.db) (hstep : Step code w₁ lab w₂)
    (h : Admitted code Ok w₂ w₃) : Admitted code Ok w₁ w₃ :=
  (Admitted.step .start hok hstep).trans code h

/-- A transaction that is run with nobody else around is one of the interleavings. -/
theorem Admitted.alone {Ok : Q → σ → Prop} {Φ : α → σ → Prop} {E : ε → Prop} (i : ι) (q : Q) {p : Prog σ L ε α}
    {d : σ} {S : Set L} {f : σ → σ} (h : p.wlp Φ E (f d)) :
    Admitted code Ok ⟨d, Function.update (fun _ => none) i (some (q, ⟨p, S, f⟩))⟩
      ⟨match p.run d (f d) with
        | (.ok _, _, v) => v
        | (.error _, c, _) => c, fun _ => none⟩ := by
  have hset : ∀ s s' : Option (Q × Session σ L ε α),
      (⟨d, Function.update (fun _ => none) i s⟩ : World ι Q σ L ε α).set i s' =
        ⟨d, Function.update (fun _ => none) i s'⟩ := fun s s' => by simp [World.set]
  have hnone : Function.update (fun _ => none) i none =
      (fun _ => none : ι → Option (Q × Session σ L ε α)) := Function.update_eq_self i _
  have hsession : ∀ s : Session σ L ε α,
      (⟨d, Function.update (fun _ => none) i (some (q, s))⟩ : World ι Q σ L ε α).sessions i =
        some (q, s) := fun s => by simp
  have hfree : ∀ (s : Session σ L ε α) (l : L),
      (⟨d, Function.update (fun _ => none) i (some (q, s))⟩ : World ι Q σ L ε α).Free i l :=
    fun s l j q' s' hj h => by simp [hj] at h
  induction p generalizing S f with
  | ret a =>
      have hstep : Step code _ _ _ := Step.ret (hsession ⟨.ret a, S, f⟩)
      simp only [World.publish, Function.update_idem, hnone] at hstep
      exact .step .start (by simp) hstep
  | fail e =>
      have hstep : Step code _ _ _ := Step.fail (hsession ⟨.fail e, S, f⟩)
      rw [hset, hnone] at hstep
      exact .step .start (by simp) hstep
  | read k ih =>
      have hstep : Step code _ _ _ := Step.read (hsession ⟨.read k, S, f⟩)
      rw [hset] at hstep
      exact .head code (by simp) hstep (ih (f d) h)
  | write g k ih =>
      have hstep : Step code _ _ _ := Step.write (hsession ⟨.write g k, S, f⟩)
      rw [hset] at hstep
      have hrest := ih (S := S) (f := g ∘ f) h
      exact .head code (by simp) hstep hrest
  | lock l k ih =>
      have hstep : Step code _ _ _ := Step.lock (hsession ⟨.lock l k, S, f⟩) (hfree _ l)
      rw [hset] at hstep
      exact .head code (by simp) hstep (ih h)
  | tryLock l k ih =>
      have hstep : Step code _ _ _ := Step.tryLock (hsession ⟨.tryLock l k, S, f⟩) (hfree _ l)
      rw [hset] at hstep
      exact .head code (by simp) hstep (ih true h)
  | commit | outside => exact h.elim

/-- One more request, served alone. -/
theorem Admitted.serve {Ok : Q → σ → Prop} {Φ : α → σ → Prop} {E : ε → Prop}
    {start : World ι Q σ L ε α} {d : σ} (hw : Admitted code Ok start ⟨d, fun _ => none⟩) (i : ι)
    (q : Q) (hok : Ok q d) (h : (code q).wlp Φ E d) :
    Admitted code Ok start ⟨((code q).alone d).2, fun _ => none⟩ := by
  have hbegins : Step code ⟨d, fun _ => none⟩ (.begins i q)
      ⟨d, Function.update (fun _ => none) i (some (q, ⟨code q, ∅, id⟩))⟩ := .begins q rfl
  have hdone : (match (code q).run d (id d) with
      | (.ok _, _, v) => v
      | (.error _, c, _) => c) = ((code q).alone d).2 := by
    rw [Prog.alone, id_eq]
    rcases (code q).run d d with ⟨r, c, v⟩
    cases r <;> rfl
  rw [← hdone]
  refine hw.trans code (.head code ?_ hbegins (.alone code i q h))
  rintro _ _ ⟨rfl, rfl⟩
  exact hok

theorem Reachable.serve {Φ : α → σ → Prop} {E : ε → Prop} {start : World ι Q σ L ε α} {d : σ}
    (hw : Reachable code start ⟨d, fun _ => none⟩) (i : ι) (q : Q) (h : (code q).wlp Φ E d) :
    Reachable code start ⟨((code q).alone d).2, fun _ => none⟩ :=
  have hserved : Admitted code (fun _ _ => True) ⟨d, fun _ => none⟩ _ :=
    Admitted.serve code .start i q trivial h
  hw.trans code (hserved.reachable code)

/-- The same, where a request that is answered commits only if `Ok` says so of its
locks and the committed store. -/
inductive Permitted (Ok : Q → Set L → σ → Prop) (start : World ι Q σ L ε α) :
    World ι Q σ L ε α → Prop
  | start : Permitted Ok start start
  | step {w lab w'} : Permitted Ok start w →
      (∀ i q a s, lab = .answers i q (.ok a) → w.sessions i = some (q, s) → Ok q s.held w.db) →
      Step code w lab w' → Permitted Ok start w'

theorem Permitted.trans {Ok : Q → Set L → σ → Prop} {w₁ w₂ w₃ : World ι Q σ L ε α}
    (h : Permitted code Ok w₁ w₂) (h' : Permitted code Ok w₂ w₃) : Permitted code Ok w₁ w₃ := by
  induction h' with
  | start => exact h
  | step _ hok hstep ih => exact .step ih hok hstep

theorem Permitted.reachable {Ok : Q → Set L → σ → Prop} {start w : World ι Q σ L ε α}
    (h : Permitted code Ok start w) : Reachable code start w := by
  induction h with
  | start => exact .start
  | step _ _ hstep ih => exact .step ih hstep

theorem Reachable.permitted {Ok : Q → Set L → σ → Prop} {start w : World ι Q σ L ε α} (hok : ∀ q S d, Ok q S d)
    (h : Reachable code start w) : Permitted code Ok start w := by
  induction h with
  | start => exact .start
  | step _ hstep ih => exact .step ih (fun _ _ _ _ _ _ => hok _ _ _) hstep

/-- Requests that may always commit. -/
theorem Admitted.permitted {Ok : Q → Set L → σ → Prop} {start w : World ι Q σ L ε α}
    (hidle : start.Idle) (h : Admitted code (fun q _ => ∀ S d, Ok q S d) start w) :
    Permitted code Ok start w := by
  have hall : Permitted code Ok start w ∧
      ∀ i q s, w.sessions i = some (q, s) → ∀ S d, Ok q S d := by
    induction h with
    | start =>
        refine ⟨.start, fun i q s hi => ?_⟩
        simp [hidle i] at hi
    | @step w lab w' _ hbegins hstep ih =>
        refine ⟨.step ih.1 (fun i q a s _ hi => ih.2 i q s hi _ _) hstep, fun i q s hi => ?_⟩
        rcases hstep.request code hi with ⟨s', hold⟩ | rfl
        · exact ih.2 i q s' hold
        · exact hbegins i q rfl
  exact hall.1

/-- The same, where moreover a request publishes only what is clear for every request
that has begun to work. -/
inductive Guarded (Clear : σ → Q → Q → Prop) (Ok : Q → Set L → σ → Prop)
    (start : World ι Q σ L ε α) : World ι Q σ L ε α → Prop
  | start : Guarded Clear Ok start start
  | step {w lab w'} : Guarded Clear Ok start w →
      (∀ i q, lab.publisher? = some (i, q) → ∀ j q' t, j ≠ i → w.sessions j = some (q', t) →
        t = ⟨code q', ∅, id⟩ ∨ Clear w.db q' q) →
      (∀ i q a s, lab = .answers i q (.ok a) → w.sessions i = some (q, s) → Ok q s.held w.db) →
      Step code w lab w' → Guarded Clear Ok start w'

theorem Guarded.trans {Clear : σ → Q → Q → Prop} {Ok : Q → Set L → σ → Prop}
    {w₁ w₂ w₃ : World ι Q σ L ε α} (h : Guarded code Clear Ok w₁ w₂) (h' : Guarded code Clear Ok w₂ w₃) :
    Guarded code Clear Ok w₁ w₃ := by
  induction h' with
  | start => exact h
  | step _ hclear hok hstep ih => exact .step ih hclear hok hstep

theorem Guarded.permitted {Clear : σ → Q → Q → Prop} {Ok : Q → Set L → σ → Prop}
    {start w : World ι Q σ L ε α} (h : Guarded code Clear Ok start w) : Permitted code Ok start w := by
  induction h with
  | start => exact .start
  | step _ _ hok hstep ih => exact .step ih hok hstep

/-- Requests publish only what is clear for every request that is no longer `Fresh`. -/
inductive Undisturbed (Fresh : Q → Session σ L ε α → Prop) (Clear : σ → Q → Q → Prop)
    (start : World ι Q σ L ε α) : World ι Q σ L ε α → Prop
  | start : Undisturbed Fresh Clear start start
  | step {w lab w'} : Undisturbed Fresh Clear start w →
      (∀ i q, lab.publisher? = some (i, q) → ∀ j q' t, j ≠ i → w.sessions j = some (q', t) →
        Fresh q' t ∨ Clear w.db q' q) →
      Step code w lab w' → Undisturbed Fresh Clear start w'

theorem Undisturbed.reachable {Fresh : Q → Session σ L ε α → Prop} {Clear : σ → Q → Q → Prop}
    {start w : World ι Q σ L ε α} (h : Undisturbed code Fresh Clear start w) : Reachable code start w := by
  induction h with
  | start => exact .start
  | step _ _ hstep ih => exact .step ih hstep

/-- Nobody is in the way of what is clear for all. -/
theorem Reachable.undisturbed {Fresh : Q → Session σ L ε α → Prop} {Clear : σ → Q → Q → Prop}
    {start w : World ι Q σ L ε α} (hclear : ∀ d q q', Clear d q q') (h : Reachable code start w) :
    Undisturbed code Fresh Clear start w := by
  induction h with
  | start => exact .start
  | step _ hstep ih => exact .step ih (fun _ _ _ _ _ _ _ _ => .inr (hclear _ _ _)) hstep

/-- Requests begin only if `Ok` says so of the committed store, and publish only what is clear
for every request that is being worked on. -/
inductive Supervised (Ok : Q → σ → Prop) (Clear : σ → Q → Q → Prop) (start : World ι Q σ L ε α) :
    World ι Q σ L ε α → Prop
  | start : Supervised Ok Clear start start
  | step {w lab w'} : Supervised Ok Clear start w → (∀ i q, lab = .begins i q → Ok q w.db) →
      (∀ i q, lab.publisher? = some (i, q) → ∀ j q' t, j ≠ i → w.sessions j = some (q', t) → Clear w.db q' q) →
      Step code w lab w' → Supervised Ok Clear start w'

theorem Supervised.trans {Ok : Q → σ → Prop} {Clear : σ → Q → Q → Prop} {w₁ w₂ w₃ : World ι Q σ L ε α}
    (h : Supervised code Ok Clear w₁ w₂) (h' : Supervised code Ok Clear w₂ w₃) :
    Supervised code Ok Clear w₁ w₃ := by
  induction h' with
  | start => exact h
  | step _ hok hclear hstep ih => exact .step ih hok hclear hstep

/-- A request that has just begun is fresh. -/
theorem Guarded.undisturbed {Fresh : Q → Session σ L ε α → Prop} {Clear : σ → Q → Q → Prop}
    {Ok : Q → Set L → σ → Prop} {start w : World ι Q σ L ε α} (hfresh : ∀ q, Fresh q ⟨code q, ∅, id⟩)
    (h : Guarded code Clear Ok start w) : Undisturbed code Fresh Clear start w := by
  induction h with
  | start => exact .start
  | step _ hclear _ hstep ih =>
      refine .step ih (fun i q hlab j q' t hji hj => ?_) hstep
      rcases hclear i q hlab j q' t hji hj with rfl | hclear
      · exact .inl (hfresh q')
      · exact .inr hclear

/-- A single client is in nobody's way. -/
theorem Permitted.guarded [Subsingleton ι] {Clear : σ → Q → Q → Prop} {Ok : Q → Set L → σ → Prop}
    {start w : World ι Q σ L ε α} (h : Permitted code Ok start w) : Guarded code Clear Ok start w := by
  induction h with
  | start => exact .start
  | step _ hok hstep ih =>
      exact .step ih (fun i q _ j _ _ hji _ => (hji (Subsingleton.elim j i)).elim) hok hstep

/-! ### What has been shown -/

/-- The worlds that some interleaving leads to, with the labels on the way. -/
inductive Run (start : World ι Q σ L ε α) : List (Label ι Q ε α) → World ι Q σ L ε α → Prop
  | start : Run start [] start
  | step {labels w lab w'} : Run start labels w → Step code w lab w' → Run start (labels ++ [lab]) w'

theorem Run.reachable {start w : World ι Q σ L ε α} {labels : List (Label ι Q ε α)}
    (h : Run code start labels w) : Reachable code start w := by
  induction h with
  | start => exact .start
  | step _ hstep ih => exact .step ih hstep

theorem Reachable.run {start w : World ι Q σ L ε α} (h : Reachable code start w) :
    ∃ labels, Run code start labels w := by
  induction h with
  | start => exact ⟨[], .start⟩
  | step _ hstep ih =>
      obtain ⟨labels, hrun⟩ := ih
      exact ⟨_, .step hrun hstep⟩

/-- A request that throws, and a client that is lost, leave no trace. -/
theorem Step.db_of_undone {w w' : World ι Q σ L ε α} {i : ι} {q : Q} :
    (∀ e, Step code w (.answers i q (.error e)) w' → w'.db = w.db) ∧
      (Step code w (.crashes i q) w' → w'.db = w.db) := by
  refine ⟨fun e h => ?_, fun h => ?_⟩
  · cases h with
    | fail => rfl
  · cases h with
    | crash => rfl

/-- A fact about the rest of every client's code, kept by each statement. -/
def Throughout (C : Prog σ L ε α → Prop) (w : World ι Q σ L ε α) : Prop :=
  ∀ i q s, w.sessions i = some (q, s) → C s.prog

theorem Throughout.set {C : Prog σ L ε α → Prop} {w : World ι Q σ L ε α} (h : Throughout C w)
    {i : ι} {q : Q} {s : Session σ L ε α} (hs : C s.prog) :
    Throughout C (w.set i (some (q, s))) := by
  intro j q' s' hj
  by_cases hji : j = i
  · subst hji
    obtain ⟨rfl, rfl⟩ : q = q' ∧ s = s' := by simpa [World.set] using hj
    exact hs
  · exact h j q' s' (by simpa [World.set, hji] using hj)

theorem Throughout.move {C : Prog σ L ε α → Prop} {w : World ι Q σ L ε α} (h : Throughout C w)
    (d : σ) {i : ι} {q : Q} {s : Session σ L ε α} (hs : C s.prog) :
    Throughout C (w.publish d i (some (q, s))) := h.set hs

theorem Throughout.leave {C : Prog σ L ε α → Prop} {w : World ι Q σ L ε α} (h : Throughout C w)
    (d : σ) (i : ι) : Throughout C (w.publish d i none) := by
  intro j q s hj
  by_cases hji : j = i
  · subst hji
    simp [World.publish] at hj
  · exact h j q s (by simpa [World.publish, hji] using hj)

/-- Requests that are one transaction each change what `φ` sees only when they are
answered. -/
theorem Step.oneTransaction {τ : Type} {φ : σ → τ} (hcode : ∀ q, (code q).Whole φ)
    {w w' : World ι Q σ L ε α} {lab : Label ι Q ε α} (h : Throughout (Prog.Whole φ) w)
    (hstep : Step code w lab w') :
    Throughout (Prog.Whole φ) w' ∧
      (φ w'.db = φ w.db ∨ ∃ i q a, lab = .answers i q (.ok a)) := by
  cases hstep with
  | begins q hi => exact ⟨h.set (hcode q), .inl rfl⟩
  | read hi =>
      have hprog := h _ _ _ hi
      exact ⟨h.set (hprog _), .inl rfl⟩
  | write hi | lock hi hfree =>
      have hprog := h _ _ _ hi
      exact ⟨h.set hprog, .inl rfl⟩
  | tryLock hi hfree =>
      have hprog := h _ _ _ hi
      exact ⟨h.set (hprog true), .inl rfl⟩
  | skipLock hi hfree =>
      have hprog := h _ _ _ hi
      exact ⟨h.set (hprog false), .inl rfl⟩
  | commit hi => exact (h _ _ _ hi).elim
  | outside hi =>
      have hprog := h _ _ _ hi
      exact ⟨h.move _ hprog.2, .inl (hprog.1 _)⟩
  | ret hi => exact ⟨h.leave _ _, .inr ⟨_, _, _, rfl⟩⟩
  | fail hi | crash hi => exact ⟨h.leave _ _, .inl rfl⟩

/-- What `φ` sees changes exactly with an answer. -/
theorem Step.quiet {τ : Type} {φ : σ → τ} (hcode : ∀ q, (code q).Whole φ) {w w' : World ι Q σ L ε α}
    {lab : Label ι Q ε α} (h : Throughout (Prog.Whole φ) w) (hstep : Step code w lab w')
    (hlab : lab.answer? = none) : φ w'.db = φ w.db := by
  rcases (hstep.oneTransaction code hcode h).2 with hdb | ⟨i, q, a, rfl⟩
  · exact hdb
  · simp [Label.answer?] at hlab

theorem Reachable.oneTransaction {τ : Type} {φ : σ → τ} (hcode : ∀ q, (code q).Whole φ)
    {start w : World ι Q σ L ε α} (hidle : start.Idle) (hw : Reachable code start w) :
    Throughout (Prog.Whole φ) w := by
  induction hw with
  | start =>
      intro i q s hi
      simp [hidle i] at hi
  | step _ hstep ih => exact (hstep.oneTransaction code hcode ih).1

end Step

/-- What holds of the committed store at all times, what the holder of a set of
locks may do to it, and what it expects of the holders of others. -/
structure Protocol (σ L : Type) where
  Inv : σ → Prop
  Guar : Set L → σ → σ → Prop
  Intf : Set L → σ → σ → Prop := Guar

namespace Protocol

variable (P : Protocol σ L)

/-- One change by somebody who holds none of the locks in `S`. -/
def Other (S : Set L) (d d' : σ) : Prop :=
  P.Inv d' ∧ ∃ T, Disjoint S T ∧ P.Intf T d d'

/-- What the others may have done between two statements of the holder of `S`. -/
def Rely (S : Set L) : σ → σ → Prop := Relation.ReflTransGen (P.Other S)

variable {P}

theorem Rely.refl {S : Set L} {d : σ} : P.Rely S d d := Relation.ReflTransGen.refl

theorem Rely.trans {S : Set L} {d d' d'' : σ} (h : P.Rely S d d') (h' : P.Rely S d' d'') :
    P.Rely S d d'' := Relation.ReflTransGen.trans h h'

/-- A fact the others cannot destroy stays true. -/
theorem Rely.stable {S : Set L} {φ : σ → Prop}
    (hφ : ∀ d d', P.Other S d d' → φ d → φ d') {d d' : σ} (h : P.Rely S d d') (hd : φ d) :
    φ d' := by
  induction h with
  | refl => exact hd
  | tail _ hstep ih => exact hφ _ _ hstep ih

/-- Fewer locks mean more interference. -/
theorem Rely.anti {S S' : Set L} (hS : S ⊆ S') {d d' : σ} (h : P.Rely S' d d') :
    P.Rely S d d' := by
  induction h with
  | refl => exact .refl
  | tail _ hstep ih =>
      obtain ⟨hinv, T, hdisj, hguar⟩ := hstep
      exact .tail ih ⟨hinv, T, hdisj.mono_left hS, hguar⟩

theorem Rely.inv {S : Set L} {d d' : σ} (h : P.Rely S d d') (hd : P.Inv d) : P.Inv d' :=
  h.stable (fun _ _ hstep _ => hstep.1) hd

variable (P)

/-- `p` runs safely with the locks `S` and the pending writes `f` when `d` is
committed; where it answers `K` holds, and where it throws `X`. -/
def wp (K : α → Set L → (σ → σ) → σ → Prop) (X : ε → Set L → σ → Prop) :
    Prog σ L ε α → Set L → (σ → σ) → σ → Prop
  | .ret a, S, f, d => K a S f d
  | .fail e, S, _, d => X e S d
  | .read k, S, f, d => ∀ d', P.Rely S d d' → P.Inv d' → wp K X (k (f d')) S f d'
  | .write g k, S, f, d => wp K X k S (g ∘ f) d
  | .lock l k, S, f, d => ∀ d', P.Rely S d d' → P.Inv d' → wp K X k (insert l S) f d'
  | .tryLock l k, S, f, d => ∀ d', P.Rely S d d' → P.Inv d' →
      wp K X (k true) (insert l S) f d' ∧ wp K X (k false) S f d'
  | .commit k, S, f, d => ∀ d', P.Rely S d d' → P.Inv d' →
      P.Guar S d' (f d') ∧ P.Inv (f d') ∧ wp K X k ∅ id (f d')
  | .outside g k, S, f, d => ∀ d', P.Rely S d d' → P.Inv d' →
      P.Guar S d' (g d') ∧ P.Inv (g d') ∧ wp K X k S f (g d')

/-- The answer may be given: publishing the pending writes is within the
guarantee, keeps the invariant and makes the answer true. -/
def Done (Post : α → σ → σ → Prop) (a : α) (S : Set L) (f : σ → σ) (d : σ) : Prop :=
  ∀ d', P.Rely S d d' → P.Inv d' → P.Guar S d' (f d') ∧ P.Inv (f d') ∧ Post a d' (f d')

/-- The same under a condition on the moment of the answer. -/
def DoneIf (Ok : Set L → σ → Prop) (Post : α → σ → σ → Prop) (a : α) (S : Set L) (f : σ → σ)
    (d : σ) : Prop :=
  ∀ d', P.Rely S d d' → P.Inv d' → Ok S d' → P.Guar S d' (f d') ∧ P.Inv (f d') ∧ Post a d' (f d')

/-- A throw that says nothing. -/
abbrev Anyway (_ : ε) (_ : Set L) (_ : σ) : Prop := True

/-- What is true of the store when an error is thrown. -/
def Failed (Blame : ε → σ → Prop) (e : ε) (S : Set L) (d : σ) : Prop :=
  ∀ d', P.Rely S d d' → P.Inv d' → Blame e d'

variable {P}

theorem wp_mono {K K' : α → Set L → (σ → σ) → σ → Prop} {X X' : ε → Set L → σ → Prop}
    (hK : ∀ a S f d, K a S f d → K' a S f d) (hX : ∀ e S d, X e S d → X' e S d)
    {p : Prog σ L ε α} : ∀ {S f d}, P.wp K X p S f d → P.wp K' X' p S f d := by
  induction p with
  | ret a => exact fun h => hK _ _ _ _ h
  | fail e => exact fun h => hX _ _ _ h
  | read k ih => exact fun h d' hr hi => ih _ (h d' hr hi)
  | write g k ih => exact fun h => ih h
  | lock l k ih => exact fun h d' hr hi => ih (h d' hr hi)
  | tryLock l k ih => exact fun h d' hr hi => ⟨ih _ (h d' hr hi).1, ih _ (h d' hr hi).2⟩
  | commit k ih | outside g k ih =>
      exact fun h d' hr hi => ⟨(h d' hr hi).1, (h d' hr hi).2.1, ih (h d' hr hi).2.2⟩

/-- What a client knows survives what the others do. -/
theorem wp_of_rely {K : α → Set L → (σ → σ) → σ → Prop} {X : ε → Set L → σ → Prop}
    (hK : ∀ a S f d d', P.Rely S d d' → K a S f d → K a S f d')
    (hX : ∀ e S d d', P.Rely S d d' → X e S d → X e S d') {p : Prog σ L ε α} :
    ∀ {S f d d'}, P.Rely S d d' → P.wp K X p S f d → P.wp K X p S f d' := by
  induction p with
  | ret a => exact fun hr h => hK _ _ _ _ _ hr h
  | fail e => exact fun hr h => hX _ _ _ _ hr h
  | write g k ih => exact fun hr h => ih hr h
  | read | lock | tryLock | commit | outside =>
      exact fun hr h d'' hr' hi => h d'' (hr.trans hr') hi

theorem done_of_rely {Ok : Set L → σ → Prop} {Post : α → σ → σ → Prop} (a : α) (S : Set L)
    (f : σ → σ) (d d' : σ) (hr : P.Rely S d d') (h : P.DoneIf Ok Post a S f d) :
    P.DoneIf Ok Post a S f d' := fun d'' hr' hi hok => h d'' (hr.trans hr') hi hok

theorem failed_of_rely {Blame : ε → σ → Prop} (e : ε) (S : Set L) (d d' : σ)
    (hr : P.Rely S d d') (h : P.Failed Blame e S d) : P.Failed Blame e S d' :=
  fun d'' hr' hi => h d'' (hr.trans hr') hi

theorem wp_bind {K : β → Set L → (σ → σ) → σ → Prop} {X : ε → Set L → σ → Prop}
    (p : Prog σ L ε α) (c : α → Prog σ L ε β) :
    P.wp K X (p >>= c) = P.wp (fun a => P.wp K X (c a)) X p := by
  change P.wp K X (p.bind c) = _
  funext S f d
  induction p generalizing S f d with
  | ret | fail => rfl
  | read k ih => simp only [Prog.bind, wp, ih]
  | write g k ih | lock l k ih | commit k ih | outside g k ih => simp only [Prog.bind, wp, ih]
  | tryLock l k ih => simp only [Prog.bind, wp, ih]

/-! ## Soundness -/

section Soundness

variable [DecidableEq ι] {code : Q → Prog σ L ε α} {Inv : σ → Prop} {V : Q → Protocol σ L}
  {Clear : σ → Q → Q → Prop} {Ok : Q → Set L → σ → Prop} {Post : Q → α → σ → σ → Prop}
  {Blame : Q → ε → σ → Prop}

/-- Each request has its own view of what is done to the store. A request expects
what another one may do, where it is clear for that. -/
structure Agree (Inv : σ → Prop) (V : Q → Protocol σ L) (Clear : σ → Q → Q → Prop) : Prop where
  inv : ∀ q d, (V q).Inv d ↔ Inv d
  expects : ∀ {q q' S d d'}, Clear d q q' → (V q').Guar S d d' → (V q).Intf S d d'

theorem Agree.const (h : ∀ S d d', P.Guar S d d' → P.Intf S d d') :
    Agree P.Inv (fun _ : Q => P) fun _ _ _ => True where
  inv _ _ := Iff.rfl
  expects _ hguar := h _ _ _ hguar

variable (V Ok Post Blame) in
/-- The client is safe from here on, as long as answers are given under the condition. -/
abbrev Safe (q : Q) (s : Session σ L ε α) (d : σ) : Prop :=
  (V q).wp ((V q).DoneIf (Ok q) (Post q)) ((V q).Failed (Blame q)) s.prog s.held s.pending d

variable (Inv V Ok Post Blame) in
/-- Every client is safe, and no lock has two holders. -/
structure SoundAmong (w : World ι Q σ L ε α) : Prop where
  inv : Inv w.db
  ok : ∀ i q s, w.sessions i = some (q, s) → Safe V Ok Post Blame q s w.db
  apart : ∀ i j q q' s s', i ≠ j → w.sessions i = some (q, s) → w.sessions j = some (q', s') →
    Disjoint s.held s'.held

omit [DecidableEq ι] in
theorem SoundAmong.of_idle {w : World ι Q σ L ε α} (hw : w.Idle) (hinv : Inv w.db) :
    SoundAmong Inv V Ok Post Blame w where
  inv := hinv
  ok i q s h := by simp [hw i] at h
  apart i j q q' s s' _ h := by simp [hw i] at h

/-- The committed store stays and one client moves on. -/
theorem SoundAmong.set {w : World ι Q σ L ε α} (h : SoundAmong Inv V Ok Post Blame w) {i : ι}
    {new : Option (Q × Session σ L ε α)}
    (hok : ∀ q s, new = some (q, s) → Safe V Ok Post Blame q s w.db)
    (hapart : ∀ j q q' s s', j ≠ i → new = some (q, s) → w.sessions j = some (q', s') →
      Disjoint s.held s'.held) : SoundAmong Inv V Ok Post Blame (w.set i new) where
  inv := h.inv
  ok j q s hj := by
    by_cases hji : j = i
    · subst hji
      exact hok q s (by simpa [World.set] using hj)
    · exact h.ok j q s (by simpa [World.set, hji] using hj)
  apart j k q q' s s' hjk hj hk := by
    by_cases hji : j = i
    · subst hji
      have hk' : w.sessions k = some (q', s') := by
        simpa [World.set, Ne.symm hjk] using hk
      exact hapart k q q' s s' (Ne.symm hjk) (by simpa [World.set] using hj) hk'
    · have hj' : w.sessions j = some (q, s) := by simpa [World.set, hji] using hj
      by_cases hki : k = i
      · subst hki
        exact (hapart j q' q s' s hji (by simpa [World.set] using hk) hj').symm
      · exact h.apart j k q q' s s' hjk hj' (by simpa [World.set, hki] using hk)

/-- One client publishes a change that the others expect or do not mind. -/
theorem SoundAmong.publish {w : World ι Q σ L ε α} (hagree : Agree Inv V Clear)
    (h : SoundAmong Inv V Ok Post Blame w) {i : ι} {q : Q} {s : Session σ L ε α}
    (hi : w.sessions i = some (q, s)) {d : σ}
    (hclear : ∀ j q' t, j ≠ i → w.sessions j = some (q', t) →
      (∀ d, Inv d → Safe V Ok Post Blame q' t d) ∨ Clear w.db q' q)
    (hguar : (V q).Guar s.held w.db d) (hinv : Inv d) {new : Option (Q × Session σ L ε α)}
    (hok : ∀ q s, new = some (q, s) → Safe V Ok Post Blame q s d)
    (hheld : ∀ q s', new = some (q, s') → s'.held ⊆ s.held) :
    SoundAmong Inv V Ok Post Blame (w.publish d i new) := by
  have hbase : SoundAmong Inv V Ok Post Blame
      { w with db := d, sessions := Function.update w.sessions i none } := by
    refine ⟨hinv, fun j q' t hj => ?_, fun j k q₁ q₂ t t' hjk hj hk => ?_⟩
    · have hji : j ≠ i := by rintro rfl; simp at hj
      have hj' : w.sessions j = some (q', t) := by simpa [hji] using hj
      rcases hclear j q' t hji hj' with hany | hexpected
      · exact hany d hinv
      · have hother : (V q').Other t.held w.db d :=
          ⟨(hagree.inv q' d).2 hinv, s.held, h.apart j i q' q t s hji hj' hi,
            hagree.expects hexpected hguar⟩
        exact wp_of_rely done_of_rely failed_of_rely (Relation.ReflTransGen.single hother) (h.ok j q' t hj')
    · have hji : j ≠ i := by rintro rfl; simp at hj
      have hki : k ≠ i := by rintro rfl; simp at hk
      exact h.apart j k q₁ q₂ t t' hjk (by simpa [hji] using hj) (by simpa [hki] using hk)
  have hset : w.publish d i new =
      World.set { w with db := d, sessions := Function.update w.sessions i none } i new := by
    simp [World.publish, World.set]
  rw [hset]
  refine hbase.set hok fun j q₁ q₂ t t' hji hnew hj => ?_
  have hj' : w.sessions j = some (q₂, t') := by simpa [hji] using hj
  exact (h.apart i j q q₂ s t' (Ne.symm hji) hi hj').mono_left (hheld q₁ t hnew)

/-- The same client goes on with no more locks than it had. -/
theorem SoundAmong.proceed {w : World ι Q σ L ε α} (h : SoundAmong Inv V Ok Post Blame w) {i : ι}
    {q : Q} {s t : Session σ L ε α} (hi : w.sessions i = some (q, s)) (hheld : t.held = s.held)
    (hok : Safe V Ok Post Blame q t w.db) :
    SoundAmong Inv V Ok Post Blame (w.set i (some (q, t))) := by
  refine h.set ?_ ?_
  · rintro q' s' ⟨rfl, rfl⟩
    exact hok
  · rintro j q₁ q₂ t₁ t₂ hji ⟨rfl, rfl⟩ hj
    rw [hheld]
    exact h.apart i j q q₂ s t₂ (Ne.symm hji) hi hj

/-- The same client goes on with one more lock, which nobody else holds. -/
theorem SoundAmong.acquire {w : World ι Q σ L ε α} (h : SoundAmong Inv V Ok Post Blame w) {i : ι}
    {q : Q} {s t : Session σ L ε α} {l : L} (hi : w.sessions i = some (q, s)) (hfree : w.Free i l)
    (hheld : t.held = insert l s.held) (hok : Safe V Ok Post Blame q t w.db) :
    SoundAmong Inv V Ok Post Blame (w.set i (some (q, t))) := by
  refine h.set ?_ ?_
  · rintro q' s' ⟨rfl, rfl⟩
    exact hok
  · rintro j q₁ q₂ t₁ t₂ hji ⟨rfl, rfl⟩ hj
    rw [hheld, Set.disjoint_insert_left]
    exact ⟨hfree j q₂ t₂ hji hj, h.apart i j q q₂ s t₂ (Ne.symm hji) hi hj⟩

/-- Programs that are safe where they begin stay safe in each other's company. -/
theorem SoundAmong.step {w w' : World ι Q σ L ε α} {lab : Label ι Q ε α} (hagree : Agree Inv V Clear)
    (h : SoundAmong Inv V Ok Post Blame w)
    (hbegin : ∀ i q, lab = .begins i q → Safe V Ok Post Blame q ⟨code q, ∅, id⟩ w.db)
    (hclear : ∀ i q, lab.publisher? = some (i, q) → ∀ j q' t, j ≠ i → w.sessions j = some (q', t) →
      (∀ d, Inv d → Safe V Ok Post Blame q' t d) ∨ Clear w.db q' q)
    (hanswer : ∀ i q a s, lab = .answers i q (.ok a) → w.sessions i = some (q, s) → Ok q s.held w.db)
    (hstep : Step code w lab w') : SoundAmong Inv V Ok Post Blame w' := by
  have hinv : ∀ q, (V q).Inv w.db := fun q => (hagree.inv q _).2 h.inv
  cases hstep with
  | begins q hi =>
      refine h.set ?_ ?_
      · rintro q' s' ⟨rfl, rfl⟩
        exact hbegin _ _ rfl
      · rintro j q₁ q₂ t₁ t₂ - ⟨rfl, rfl⟩ -
        exact Set.empty_disjoint _
  | read hi => exact h.proceed hi rfl (h.ok _ _ _ hi _ .refl (hinv _))
  | write hi =>
      have hok := h.ok _ _ _ hi
      exact h.proceed hi rfl hok
  | lock hi hfree => exact h.acquire hi hfree rfl (h.ok _ _ _ hi _ .refl (hinv _))
  | tryLock hi hfree => exact h.acquire hi hfree rfl (h.ok _ _ _ hi _ .refl (hinv _)).1
  | skipLock hi hfree => exact h.proceed hi rfl (h.ok _ _ _ hi _ .refl (hinv _)).2
  | commit hi =>
      obtain ⟨hguar, hinv', hok⟩ := h.ok _ _ _ hi _ .refl (hinv _)
      refine h.publish hagree hi (hclear _ _ rfl) hguar ((hagree.inv _ _).1 hinv') ?_ ?_
      · rintro q s ⟨rfl, rfl⟩
        exact hok
      · rintro q s ⟨rfl, rfl⟩
        exact Set.empty_subset _
  | outside hi =>
      obtain ⟨hguar, hinv', hok⟩ := h.ok _ _ _ hi _ .refl (hinv _)
      refine h.publish hagree hi (hclear _ _ rfl) hguar ((hagree.inv _ _).1 hinv') ?_ ?_
      · rintro q s ⟨rfl, rfl⟩
        exact hok
      · rintro q s ⟨rfl, rfl⟩
        exact subset_rfl
  | ret hi =>
      obtain ⟨hguar, hinv', -⟩ := h.ok _ _ _ hi _ .refl (hinv _) (hanswer _ _ _ _ rfl hi)
      exact h.publish hagree hi (hclear _ _ rfl) hguar ((hagree.inv _ _).1 hinv') (by simp) (by simp)
  | fail hi | crash hi => exact h.set (by simp) (by simp)

/-- Every change of the committed store is within the guarantee of a request. -/
theorem SoundAmong.change {w w' : World ι Q σ L ε α} {lab : Label ι Q ε α}
    (hagree : Agree Inv V Clear) (h : SoundAmong Inv V Ok Post Blame w)
    (hanswer : ∀ i q a s, lab = .answers i q (.ok a) → w.sessions i = some (q, s) → Ok q s.held w.db)
    (hstep : Step code w lab w') :
    w'.db = w.db ∨ ∃ i q S, lab.publisher? = some (i, q) ∧ (V q).Guar S w.db w'.db := by
  have hinv : ∀ q, (V q).Inv w.db := fun q => (hagree.inv q _).2 h.inv
  cases hstep with
  | begins | read | write | lock | tryLock | skipLock | fail | crash => exact .inl rfl
  | commit hi | outside hi =>
      exact .inr ⟨_, _, _, rfl, (h.ok _ _ _ hi _ .refl (hinv _)).1⟩
  | ret hi =>
      exact .inr ⟨_, _, _, rfl, (h.ok _ _ _ hi _ .refl (hinv _) (hanswer _ _ _ _ rfl hi)).1⟩

/-- Every answer given under the condition is true of the stores before and after it. -/
theorem SoundAmong.answer {w w' : World ι Q σ L ε α} (hagree : Agree Inv V Clear)
    (h : SoundAmong Inv V Ok Post Blame w) {i : ι} {q : Q} {a : α}
    (hanswer : ∀ s, w.sessions i = some (q, s) → Ok q s.held w.db)
    (hstep : Step code w (.answers i q (.ok a)) w') : Post q a w.db w'.db := by
  cases hstep with
  | ret hi => exact (h.ok _ _ _ hi _ .refl ((hagree.inv q _).2 h.inv) (hanswer _ hi)).2.2

/-- What is true of the answers given so far and what `φ` sees of the committed
store, when each request is one transaction. -/
theorem SoundAmong.history {start w : World ι Q σ L ε α} {labels : List (Label ι Q ε α)}
    {τ : Type} {φ : σ → τ} {G : List α → τ → Prop} (hagree : Agree Inv V Clear)
    (hone : ∀ q, (code q).Whole φ) (hidle : start.Idle)
    (hsound : ∀ w, Reachable code start w → SoundAmong Inv V (fun _ _ _ => True) Post Blame w)
    (hstart : G [] (φ start.db))
    (hanswer : ∀ given q a d d', Inv d → G given (φ d) → Post q a d d' → G (given ++ [a]) (φ d'))
    (hrun : Run code start labels w) : G (committed labels) (φ w.db) := by
  induction hrun with
  | start => exact hstart
  | @step labels w lab w' hrun hstep ih =>
      have hw := hsound w (hrun.reachable code)
      rw [committed_snoc]
      cases hlab : lab.answer? with
      | none =>
          have hdb := hstep.quiet code hone (Reachable.oneTransaction code hone hidle (hrun.reachable code)) hlab
          simpa [hdb] using ih
      | some a =>
          obtain ⟨i, q, rfl⟩ : ∃ i q, lab = .answers i q (.ok a) := by
            cases lab with
            | answers i q r =>
                cases r with
                | ok b => exact ⟨i, q, by simpa [Label.answer?] using hlab⟩
                | error e => simp [Label.answer?] at hlab
            | begins | works | publishes | crashes => simp [Label.answer?] at hlab
          exact hanswer _ q a _ _ hw.inv ih (hw.answer hagree (fun _ _ => trivial) hstep)

/-- Every error thrown is true of the store it leaves as it is. -/
theorem SoundAmong.error {w w' : World ι Q σ L ε α} (hagree : Agree Inv V Clear)
    (h : SoundAmong Inv V Ok Post Blame w) {i : ι} {q : Q} {e : ε}
    (hstep : Step code w (.answers i q (.error e)) w') : w'.db = w.db ∧ Blame q e w.db := by
  cases hstep with
  | fail hi => exact ⟨rfl, h.ok _ _ _ hi _ .refl ((hagree.inv q _).2 h.inv)⟩

/-- Where requests publish only what is clear for those that have begun to work. -/
theorem SoundAmong.guarded {w w' : World ι Q σ L ε α} (hagree : Agree Inv V Clear)
    (h : SoundAmong Inv V Ok Post Blame w)
    (hcode : ∀ q d, Inv d → Safe V Ok Post Blame q ⟨code q, ∅, id⟩ d)
    (hw : Guarded code Clear Ok w w') : SoundAmong Inv V Ok Post Blame w' := by
  induction hw with
  | start => exact h
  | step _ hclear hanswer hstep ih =>
      refine ih.step hagree (fun _ q _ => hcode q _ ih.inv) (fun i q hlab j q' t hji hj => ?_) hanswer hstep
      rcases hclear i q hlab j q' t hji hj with rfl | hclear
      · exact .inl fun d hd => hcode q' d hd
      · exact .inr hclear

/-- A request that is safe from any store on is safe as long as it is fresh. -/
theorem SoundAmong.undisturbed {Fresh : Q → Session σ L ε α → Prop} {w w' : World ι Q σ L ε α}
    (hagree : Agree Inv V Clear) (h : SoundAmong Inv V (fun _ _ _ => True) Post Blame w)
    (hcode : ∀ q d, Inv d → Safe V (fun _ _ _ => True) Post Blame q ⟨code q, ∅, id⟩ d)
    (hfresh : ∀ q t d, Fresh q t → Inv d → Safe V (fun _ _ _ => True) Post Blame q t d)
    (hw : Undisturbed code Fresh Clear w w') : SoundAmong Inv V (fun _ _ _ => True) Post Blame w' := by
  induction hw with
  | start => exact h
  | step _ hclear hstep ih =>
      refine ih.step hagree (fun _ q _ => hcode q _ ih.inv) (fun i q hlab j q' t hji hj => ?_)
        (fun _ _ _ _ _ _ => trivial) hstep
      rcases hclear i q hlab j q' t hji hj with hstart | hclear
      · exact .inl fun d hd => hfresh q' t d hstart hd
      · exact .inr hclear

theorem SoundAmong.supervised {Begin : Q → σ → Prop} {w w' : World ι Q σ L ε α} (hagree : Agree Inv V Clear)
    (h : SoundAmong Inv V (fun _ _ _ => True) Post Blame w)
    (hcode : ∀ q d, Inv d → Begin q d → Safe V (fun _ _ _ => True) Post Blame q ⟨code q, ∅, id⟩ d)
    (hw : Supervised code Begin Clear w w') : SoundAmong Inv V (fun _ _ _ => True) Post Blame w' := by
  induction hw with
  | start => exact h
  | step _ hbegin hclear hstep ih =>
      exact ih.step hagree (fun i q hlab => hcode q _ ih.inv (hbegin i q hlab))
        (fun i q hlab j q' t hji hj => .inr (hclear i q hlab j q' t hji hj)) (fun _ _ _ _ _ _ => trivial) hstep

/-! ### One protocol for all -/

variable (P Ok Post Blame) in
abbrev SoundIf (w : World ι Q σ L ε α) : Prop := SoundAmong P.Inv (fun _ => P) Ok Post Blame w

omit [DecidableEq ι] in
theorem SoundIf.of_idle {w : World ι Q σ L ε α} (hw : w.Idle) (hinv : P.Inv w.db) :
    P.SoundIf Ok Post Blame w := SoundAmong.of_idle hw hinv

theorem SoundIf.permitted {w w' : World ι Q σ L ε α} (h : P.SoundIf Ok Post Blame w)
    (hcode : ∀ q d, P.Inv d → P.wp (P.DoneIf (Ok q) (Post q)) (P.Failed (Blame q)) (code q) ∅ id d)
    (hw : Permitted code Ok w w')
    (hint : ∀ S d d', P.Guar S d d' → P.Intf S d d' := by exact fun _ _ _ h => h) :
    P.SoundIf Ok Post Blame w' := by
  induction hw with
  | start => exact h
  | step _ hanswer hstep ih =>
      exact SoundAmong.step (.const hint) ih (fun _ q _ => hcode q _ ih.inv)
        (fun _ _ _ _ _ _ _ _ => .inr trivial) hanswer hstep

/-- Every change of the committed store is within somebody's guarantee. -/
theorem SoundIf.change {w w' : World ι Q σ L ε α} {lab : Label ι Q ε α}
    (h : P.SoundIf Ok Post Blame w)
    (hanswer : ∀ i q a s, lab = .answers i q (.ok a) → w.sessions i = some (q, s) → Ok q s.held w.db)
    (hstep : Step code w lab w') : w'.db = w.db ∨ ∃ S, P.Guar S w.db w'.db := by
  cases hstep with
  | begins | read | write | lock | tryLock | skipLock | fail | crash => exact .inl rfl
  | commit hi | outside hi => exact .inr ⟨_, (h.ok _ _ _ hi _ .refl h.inv).1⟩
  | ret hi => exact .inr ⟨_, (h.ok _ _ _ hi _ .refl h.inv (hanswer _ _ _ _ rfl hi)).1⟩

/-! ### Without a condition -/

variable (P Post Blame) in
/-- Every client is safe from here on, and no lock has two holders. -/
abbrev Sound (w : World ι Q σ L ε α) : Prop := P.SoundIf (fun _ _ _ => True) Post Blame w

omit [DecidableEq ι] in
theorem Sound.of_idle {w : World ι Q σ L ε α} (hw : w.Idle) (hinv : P.Inv w.db) :
    P.Sound Post Blame w := SoundIf.of_idle hw hinv

theorem Sound.step {w w' : World ι Q σ L ε α} {lab : Label ι Q ε α} (h : P.Sound Post Blame w)
    (hbegin : ∀ i q, lab = .begins i q →
      P.wp (P.Done (Post q)) (P.Failed (Blame q)) (code q) ∅ id w.db)
    (hstep : Step code w lab w')
    (hint : ∀ S d d', P.Guar S d d' → P.Intf S d d' := by exact fun _ _ _ h => h) :
    P.Sound Post Blame w' := by
  refine SoundAmong.step (.const hint) h (fun i q hlab => ?_)
    (fun _ _ _ _ _ _ _ _ => .inr trivial) (fun _ _ _ _ _ _ => trivial) hstep
  exact wp_mono (fun _ _ _ _ hdone d' hr hi _ => hdone d' hr hi) (fun _ _ _ hfail => hfail)
    (hbegin i q hlab)

variable (hcode : ∀ q d, P.Inv d → P.wp (P.Done (Post q)) (P.Failed (Blame q)) (code q) ∅ id d)

include hcode in
/-- The invariant holds in every world that any interleaving reaches. -/
theorem Sound.reachable {w w' : World ι Q σ L ε α} (h : P.Sound Post Blame w)
    (hw : Reachable code w w')
    (hint : ∀ S d d', P.Guar S d d' → P.Intf S d d' := by exact fun _ _ _ h => h) :
    P.Sound Post Blame w' := by
  induction hw with
  | start => exact h
  | step _ hstep ih => exact Sound.step ih (fun _ q _ => hcode q _ ih.inv) hstep hint

/-- The same where the requests are safe under the condition that admits them. -/
theorem Sound.admitted {Ok : Q → σ → Prop} {w w' : World ι Q σ L ε α} (h : P.Sound Post Blame w)
    (hok : ∀ q d, P.Inv d → Ok q d → P.wp (P.Done (Post q)) (P.Failed (Blame q)) (code q) ∅ id d)
    (hw : Admitted code Ok w w')
    (hint : ∀ S d d', P.Guar S d d' → P.Intf S d d' := by exact fun _ _ _ h => h) :
    P.Sound Post Blame w' := by
  induction hw with
  | start => exact h
  | step _ hbegins hstep ih =>
      exact Sound.step ih (fun i q hlab => hok q _ ih.inv (hbegins i q hlab)) hstep hint

/-- Every answer given is true of the stores before and after it. -/
theorem Sound.answer {w w' : World ι Q σ L ε α} (h : P.Sound Post Blame w) {i : ι} {q : Q} {a : α}
    (hstep : Step code w (.answers i q (.ok a)) w') : Post q a w.db w'.db := by
  cases hstep with
  | ret hi => exact (h.ok _ _ _ hi _ .refl h.inv trivial).2.2

/-- Every error thrown is true of the store it leaves as it is. -/
theorem Sound.error {w w' : World ι Q σ L ε α} (h : P.Sound Post Blame w) {i : ι} {q : Q} {e : ε}
    (hstep : Step code w (.answers i q (.error e)) w') : w'.db = w.db ∧ Blame q e w.db := by
  cases hstep with
  | fail hi => exact ⟨rfl, h.ok _ _ _ hi _ .refl h.inv⟩

include hcode in
/-- The same when everybody has one protocol. -/
theorem Sound.history {start w : World ι Q σ L ε α} {labels : List (Label ι Q ε α)}
    {τ : Type} {φ : σ → τ} {G : List α → τ → Prop} (hone : ∀ q, (code q).Whole φ)
    (hidle : start.Idle) (hinv : P.Inv start.db) (hstart : G [] (φ start.db))
    (hanswer : ∀ given q a d d', P.Inv d → G given (φ d) → Post q a d d' → G (given ++ [a]) (φ d'))
    (hrun : Run code start labels w)
    (hint : ∀ S d d', P.Guar S d d' → P.Intf S d d' := by exact fun _ _ _ h => h) :
    G (committed labels) (φ w.db) := by
  have hsound : P.Sound Post Blame start := .of_idle hidle hinv
  exact SoundAmong.history (.const hint) hone hidle (fun w hw => Sound.reachable hcode hsound hw hint)
    hstart hanswer hrun

theorem Sound.change {w w' : World ι Q σ L ε α} {lab : Label ι Q ε α} (h : P.Sound Post Blame w)
    (hstep : Step code w lab w') : w'.db = w.db ∨ ∃ S, P.Guar S w.db w'.db :=
  SoundIf.change h (fun _ _ _ _ _ _ => trivial) hstep

end Soundness

end Protocol

end Transactions
