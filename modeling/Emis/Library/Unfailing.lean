import Emis.Library.Script

/-!
# Programs that do not throw

A program that throws only after a statement that meets a bad state does not throw in a
run in which none does.
-/

namespace Transactions

variable {ι Q σ L ε α β : Type}

namespace Prog

/-- The program throws only after it has read something that is not `Good`. -/
def Unfailing (Good : Prog σ L ε α → σ → Prop) : Prog σ L ε α → Prop
  | ret _ => True
  | fail _ => False
  | read k => ∀ v, Good (read k) v → (k v).Unfailing Good
  | write _ k | lock _ k | commit k | outside _ k => k.Unfailing Good
  | tryLock _ k => ∀ b, (k b).Unfailing Good

end Prog

section Runs

variable [DecidableEq ι] (code : Q → Prog σ L ε α) (Good : Q → Prog σ L ε α → σ → Prop)

/-- The runs in which every statement finds what is `Good` for it. -/
inductive Wary (start : World ι Q σ L ε α) : List (Label ι Q ε α) → World ι Q σ L ε α → Prop
  | start : Wary start [] start
  | step {labels w lab w'} : Wary start labels w →
      (∀ i q s, lab = .works i q → w.sessions i = some (q, s) → Good q s.prog (s.pending w.db)) →
      Step code w lab w' → Wary start (labels ++ [lab]) w'

variable {code Good}

theorem Wary.run {start w : World ι Q σ L ε α} {labels : List (Label ι Q ε α)}
    (h : Wary code Good start labels w) : Run code start labels w := by
  induction h with
  | start => exact .start
  | step _ _ hstep ih => exact .step ih hstep

/-- The clients that work on an unfailing request will not throw. -/
def Steady (Good : Q → Prog σ L ε α → σ → Prop) (p : Q → Prop) (w : World ι Q σ L ε α) : Prop :=
  ∀ i q s, p q → w.sessions i = some (q, s) → s.prog.Unfailing (Good q)

theorem Steady.set {p : Q → Prop} {w : World ι Q σ L ε α} (h : Steady Good p w) (d : σ) {i : ι}
    {new : Option (Q × Session σ L ε α)}
    (hnew : ∀ q s, p q → new = some (q, s) → s.prog.Unfailing (Good q)) : Steady Good p (w.publish d i new) := by
  intro j q s hq hj
  by_cases hji : j = i
  · subst hji
    exact hnew q s hq (by simpa [World.publish] using hj)
  · exact h j q s hq (by simpa [World.publish, hji] using hj)

theorem Steady.step {p : Q → Prop} {w w' : World ι Q σ L ε α} {lab : Label ι Q ε α}
    (hcode : ∀ q, p q → (code q).Unfailing (Good q)) (h : Steady Good p w)
    (hgood : ∀ i q s, lab = .works i q → w.sessions i = some (q, s) → Good q s.prog (s.pending w.db))
    (hstep : Step code w lab w') : Steady Good p w' := by
  have hset : ∀ {i q} {t t' : Session σ L ε α} {d : σ}, w.sessions i = some (q, t) →
      (t.prog.Unfailing (Good q) → t'.prog.Unfailing (Good q)) →
      Steady Good p (w.publish d i (some (q, t'))) := by
    intro i q t t' d hi ht
    refine h.set d ?_
    rintro _ _ hq ⟨rfl, rfl⟩
    exact ht (h i q t hq hi)
  cases hstep with
  | begins q hi =>
      refine h.set w.db ?_
      rintro _ _ hq ⟨rfl, rfl⟩
      exact hcode q hq
  | read hi => exact hset (d := w.db) hi fun hread => hread _ (hgood _ _ _ rfl hi)
  | write hi => exact hset (d := w.db) hi id
  | lock hi hfree => exact hset (d := w.db) hi id
  | tryLock hi hfree => exact hset (d := w.db) hi fun hall => hall true
  | skipLock hi hfree => exact hset (d := w.db) hi fun hall => hall false
  | commit hi => exact hset hi id
  | outside hi => exact hset hi id
  | ret | fail | crash => exact h.set _ (by simp)

theorem Wary.steady {p : Q → Prop} {start w : World ι Q σ L ε α} {labels : List (Label ι Q ε α)}
    (hidle : start.Idle) (hcode : ∀ q, p q → (code q).Unfailing (Good q)) (h : Wary code Good start labels w) :
    Steady Good p w := by
  induction h with
  | start =>
      intro i q s _ hi
      simp [hidle i] at hi
  | step _ hgood hstep ih => exact ih.step hcode hgood hstep

/-- No request that is unfailing has thrown. -/
theorem Wary.answered {p : Q → Prop} {start w : World ι Q σ L ε α} {labels : List (Label ι Q ε α)}
    (hidle : start.Idle) (hcode : ∀ q, p q → (code q).Unfailing (Good q)) (h : Wary code Good start labels w) {i : ι}
    {q : Q} (hq : p q) {e : ε} : Label.answers i q (.error e) ∉ labels := by
  induction h with
  | start => exact List.not_mem_nil
  | step hbefore _ hstep ih =>
      rw [List.mem_append, List.mem_singleton]
      rintro (hlab | rfl)
      · exact ih hlab
      · cases hstep with
        | fail hi => exact hbefore.steady hidle hcode _ _ _ hq hi

theorem Wary.trans {w₁ w₂ w₃ : World ι Q σ L ε α} {labels labels' : List (Label ι Q ε α)}
    (h : Wary code Good w₁ labels w₂) (h' : Wary code Good w₂ labels' w₃) :
    Wary code Good w₁ (labels ++ labels') w₃ := by
  induction h' with
  | start => rwa [List.append_nil]
  | step _ hgood hstep ih =>
      rw [← List.append_assoc]
      exact .step ih hgood hstep

end Runs

/-! ## Scripts in which every client sees what is fine -/

namespace Duo

variable [DecidableEq L] (code : Q → Prog σ L ε α) (fine : σ → Bool)

def allFine (w : Duo Q σ L ε α) : Bool :=
  [true, false].all fun i => (w.tickets i).all fun t => fine (t.2.pending w.db)

def turnsFine (w : Duo Q σ L ε α) (i : Bool) : ℕ → Bool
  | 0 => true
  | n + 1 => allFine fine w && turnsFine (w.turn i) i n

def playFine (w : Duo Q σ L ε α) : List (Move Q) → Bool
  | [] => true
  | .begins i q :: script => playFine (move code w (.begins i q)) script
  | .turns i n :: script => turnsFine fine w i n && playFine (w.turns i n) script

variable {code fine} {Good : Q → Prog σ L ε α → σ → Prop} (hfine : ∀ q p v, fine v = true → Good q p v)

include hfine in
theorem turns_wary (w : Duo Q σ L ε α) (i : Bool) (n : ℕ) (h : turnsFine fine w i n = true) :
    ∃ labels, Wary code Good w.world labels (w.turns i n).world := by
  induction n generalizing w with
  | zero => exact ⟨[], .start⟩
  | succ n ih =>
      obtain ⟨hall, hrest⟩ := Bool.and_eq_true_iff.1 h
      obtain ⟨labels, hwary⟩ := ih (w.turn i) hrest
      rcases turn_step code w i with hsame | ⟨lab, hstep, -⟩
      · rw [hsame] at hwary
        exact ⟨labels, hwary⟩
      · have hgood : ∀ j q s, lab = .works j q → w.world.sessions j = some (q, s) →
            Good q s.prog (s.pending w.world.db) := by
          intro j q s _ hs
          obtain ⟨t, ht, heq⟩ := Option.map_eq_some_iff.1 hs
          cases heq
          have hj := List.all_eq_true.1 hall j (by cases j <;> simp)
          rw [ht] at hj
          exact hfine _ _ _ hj
        exact ⟨_, (Wary.step .start hgood hstep).trans hwary⟩

include hfine in
theorem play_wary (w : Duo Q σ L ε α) (script : List (Move Q)) (h : playFine code fine w script = true) :
    ∃ labels, Wary code Good w.world labels (play code w script).world := by
  induction script generalizing w with
  | nil => exact ⟨[], .start⟩
  | cons m script ih =>
      cases m with
      | begins i q =>
          obtain ⟨labels, hwary⟩ := ih (move code w (.begins i q)) h
          rcases begins_step code w i q with hsame | hstep
          · rw [hsame] at hwary
            exact ⟨labels, hwary⟩
          · exact ⟨_, (Wary.step .start (by simp) hstep).trans hwary⟩
      | turns i n =>
          obtain ⟨hturns, hrest⟩ := Bool.and_eq_true_iff.1 h
          obtain ⟨labels, hwary⟩ := turns_wary hfine w i n hturns
          obtain ⟨labels', hwary'⟩ := ih (w.turns i n) hrest
          exact ⟨_, hwary.trans hwary'⟩

end Duo

end Transactions
