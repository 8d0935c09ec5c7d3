import Emis.Library.Interleaving

/-!
# Scripted interleavings

Two clients that take turns as a script says. Playing a script computes the world
it leads to, which is one that the interleaved semantics reaches.
-/

namespace Transactions

variable {Q σ L ε α : Type}

/-- A running client, with its locks in a list. -/
structure Ticket (σ L ε α : Type) where
  prog : Prog σ L ε α
  held : List L
  pending : σ → σ

/-- The committed store and the two clients. -/
structure Duo (Q σ L ε α : Type) where
  db : σ
  tickets : Bool → Option (Q × Ticket σ L ε α)

/-- A client begins a request, or makes some statements. -/
inductive Move (Q : Type) where
  | begins (i : Bool) (q : Q)
  | turns (i : Bool) (n : ℕ)

def Move.client : Move Q → Bool
  | .begins i _ | .turns i _ => i

def Ticket.session (t : Ticket σ L ε α) : Session σ L ε α := ⟨t.prog, {l | l ∈ t.held}, t.pending⟩

namespace Duo

def world (w : Duo Q σ L ε α) : World Bool Q σ L ε α :=
  ⟨w.db, fun i => (w.tickets i).map fun t => (t.1, Ticket.session t.2)⟩

def set (w : Duo Q σ L ε α) (d : σ) (i : Bool) (t : Option (Q × Ticket σ L ε α)) :
    Duo Q σ L ε α :=
  ⟨d, Function.update w.tickets i t⟩

@[simp] theorem world_db (w : Duo Q σ L ε α) : w.world.db = w.db := rfl

section Play

variable [DecidableEq L] (code : Q → Prog σ L ε α)

/-- Does the other client hold the lock? -/
def taken (w : Duo Q σ L ε α) (i : Bool) (l : L) : Bool :=
  (w.tickets !i).any fun t => t.2.held.contains l

/-- One statement of a client; one that waits for a lock makes none. -/
def turn (w : Duo Q σ L ε α) (i : Bool) : Duo Q σ L ε α :=
  match w.tickets i with
  | none => w
  | some (q, ⟨prog, held, pending⟩) =>
      match prog with
      | .ret _ => w.set (pending w.db) i none
      | .fail _ => w.set w.db i none
      | .read k => w.set w.db i (some (q, ⟨k (pending w.db), held, pending⟩))
      | .write g k => w.set w.db i (some (q, ⟨k, held, g ∘ pending⟩))
      | .lock l k => if w.taken i l then w else w.set w.db i (some (q, ⟨k, l :: held, pending⟩))
      | .tryLock l k =>
          if w.taken i l then w.set w.db i (some (q, ⟨k false, held, pending⟩))
          else w.set w.db i (some (q, ⟨k true, l :: held, pending⟩))
      | .commit k => w.set (pending w.db) i (some (q, ⟨k, [], id⟩))
      | .outside g k => w.set (g w.db) i (some (q, ⟨k, held, pending⟩))

def turns (w : Duo Q σ L ε α) (i : Bool) : ℕ → Duo Q σ L ε α
  | 0 => w
  | n + 1 => turns (w.turn i) i n

def move (w : Duo Q σ L ε α) : Move Q → Duo Q σ L ε α
  | .begins i q => if (w.tickets i).isNone then w.set w.db i (some (q, ⟨code q, [], id⟩)) else w
  | .turns i n => w.turns i n

def play (w : Duo Q σ L ε α) (script : List (Move Q)) : Duo Q σ L ε α := script.foldl (move code) w

/-! ## Scripts are interleavings -/

omit [DecidableEq L] in
theorem world_set (w : Duo Q σ L ε α) (d : σ) (i : Bool) (t : Option (Q × Ticket σ L ε α)) :
    (w.set d i t).world = w.world.publish d i (t.map fun t => (t.1, Ticket.session t.2)) := by
  simp only [world, set, World.publish, World.mk.injEq, true_and]
  funext j
  by_cases hji : j = i
  · subst hji
    simp
  · simp [hji]

theorem free_iff {w : Duo Q σ L ε α} {i : Bool} {l : L} : w.world.Free i l ↔ w.taken i l = false := by
  have hother : ∀ j, j ≠ i ↔ j = !i := by
    intro j
    cases i <;> cases j <;> decide
  constructor
  · intro hfree
    cases hticket : w.tickets !i with
    | none => simp [taken, hticket]
    | some t =>
        have hheld := hfree (!i) t.1 t.2.session ((hother _).2 rfl) (by simp only [world, hticket, Option.map_some])
        simpa [taken, hticket, Ticket.session] using hheld
  · intro htaken j q s hji hs
    obtain rfl := (hother j).1 hji
    obtain ⟨t, ht, heq⟩ := Option.map_eq_some_iff.1 hs
    cases heq
    simpa [taken, ht, Ticket.session] using htaken

omit [DecidableEq L] in
theorem step_set {w : Duo Q σ L ε α} {lab : Label Bool Q ε α} {d : σ} {i : Bool}
    {t : Option (Q × Ticket σ L ε α)}
    (h : Step code w.world lab (w.world.publish d i (t.map fun t => (t.1, Ticket.session t.2)))) :
    Step code w.world lab (w.set d i t).world := (world_set w d i t).symm ▸ h

omit [DecidableEq L] in
theorem world_sessions {w : Duo Q σ L ε α} {i : Bool} {q : Q} {t : Ticket σ L ε α}
    (h : w.tickets i = some (q, t)) : w.world.sessions i = some (q, t.session) := by
  simp only [world, h, Option.map_some]

/-- The statement with which a client answers. -/
theorem turn_ret {w : Duo Q σ L ε α} {i : Bool} {q : Q} {a : α} {S : List L} {f : σ → σ}
    (h : w.tickets i = some (q, ⟨.ret a, S, f⟩)) :
    Step code w.world (.answers i q (.ok a)) (w.turn i).world := by
  have hstep : Step code w.world (.answers i q (.ok a)) _ := .ret (world_sessions h)
  rw [turn, h]
  exact step_set code hstep

/-- The statement with which a client is refused. -/
theorem turn_fail {w : Duo Q σ L ε α} {i : Bool} {q : Q} {e : ε} {S : List L} {f : σ → σ}
    (h : w.tickets i = some (q, ⟨.fail e, S, f⟩)) :
    Step code w.world (.answers i q (.error e)) (w.turn i).world := by
  have hstep : Step code w.world (.answers i q (.error e)) _ := .fail (world_sessions h)
  rw [turn, h]
  exact step_set code hstep

/-- What a statement of a script is in the interleaved semantics. -/
theorem turn_step (w : Duo Q σ L ε α) (i : Bool) :
    (w.turn i).world = w.world ∨ ∃ lab, Step code w.world lab (w.turn i).world ∧
      (∀ j q, lab ≠ .begins j q) ∧ (∀ j q, lab.publisher? = some (j, q) → j = i) ∧
      ∀ j q a, lab = .answers j q (.ok a) →
        j = i ∧ ∃ held f, w.tickets i = some (q, ⟨.ret a, held, f⟩) := by
  cases hticket : w.tickets i with
  | none =>
      rw [turn, hticket]
      exact .inl rfl
  | some t =>
      obtain ⟨q, prog, held, pending⟩ := t
      have hsession := world_sessions hticket
      have hinsert : ∀ l, {l' | l' ∈ l :: held} = insert l {l' | l' ∈ held} := fun l => by
        ext l'
        simp
      have hnone : {l : L | l ∈ ([] : List L)} = ∅ := by simp
      rw [turn, hticket]
      cases prog with
      | ret a =>
          have hstep : Step code w.world (.answers i q (.ok a)) _ := .ret hsession
          refine .inr ⟨_, step_set code hstep, by simp, by simp [Label.publisher?, eq_comm], ?_⟩
          rintro j q' a' ⟨rfl, rfl, rfl⟩
          exact ⟨rfl, held, pending, rfl⟩
      | fail e =>
          have hstep : Step code w.world (.answers i q (.error e)) _ := .fail hsession
          exact .inr ⟨_, step_set code hstep, by simp, by simp [Label.publisher?], by simp⟩
      | read k =>
          have hstep : Step code w.world (.works i q) _ := .read hsession
          exact .inr ⟨_, step_set code hstep, by simp, by simp [Label.publisher?], by simp⟩
      | write g k =>
          have hstep : Step code w.world (.works i q) _ := .write hsession
          exact .inr ⟨_, step_set code hstep, by simp, by simp [Label.publisher?], by simp⟩
      | commit k =>
          have hstep : Step code w.world (.publishes i q) _ := .commit hsession
          rw [← hnone] at hstep
          exact .inr ⟨_, step_set code hstep, by simp, by simp [Label.publisher?, eq_comm], by simp⟩
      | outside g k =>
          have hstep : Step code w.world (.publishes i q) _ := .outside hsession
          exact .inr ⟨_, step_set code hstep, by simp, by simp [Label.publisher?, eq_comm], by simp⟩
      | lock l k =>
          dsimp only
          split
          · exact .inl rfl
          · rename_i hfree
            have hstep : Step code w.world (.works i q) _ :=
              .lock hsession (free_iff.2 (by simpa using hfree))
            rw [← hinsert] at hstep
            exact .inr ⟨_, step_set code hstep, by simp, by simp [Label.publisher?], by simp⟩
      | tryLock l k =>
          dsimp only
          split
          · rename_i htaken
            have hstep : Step code w.world (.works i q) _ :=
              .skipLock hsession fun hfree => by simp [free_iff.1 hfree] at htaken
            exact .inr ⟨_, step_set code hstep, by simp, by simp [Label.publisher?], by simp⟩
          · rename_i hfree
            have hstep : Step code w.world (.works i q) _ :=
              .tryLock hsession (free_iff.2 (by simpa using hfree))
            rw [← hinsert] at hstep
            exact .inr ⟨_, step_set code hstep, by simp, by simp [Label.publisher?], by simp⟩

/-- What beginning a request is in the interleaved semantics. -/
theorem begins_step (w : Duo Q σ L ε α) (i : Bool) (q : Q) :
    (move code w (.begins i q)).world = w.world ∨
      Step code w.world (.begins i q) (move code w (.begins i q)).world := by
  rw [move]
  split
  · rename_i hnone
    have hidle : w.world.sessions i = none := by
      simpa [world, Option.isNone_iff_eq_none] using hnone
    have hstep : Step code w.world _ _ := .begins q hidle
    have hempty : {l : L | l ∈ ([] : List L)} = ∅ := by simp
    rw [← hempty] at hstep
    exact .inr (world_set w _ i _ ▸ hstep)
  · exact .inl rfl

section Admitted

variable (Ok : Q → σ → Prop)

/-- A statement begins nothing, so any condition on what begins is met. -/
theorem turn_admitted (w : Duo Q σ L ε α) (i : Bool) :
    Admitted code Ok w.world (w.turn i).world := by
  rcases turn_step code w i with hsame | ⟨lab, hstep, hbegins, -⟩
  · rw [hsame]
    exact .start
  · exact .step .start (fun j q hlab => (hbegins j q hlab).elim) hstep

theorem turns_admitted (w : Duo Q σ L ε α) (i : Bool) (n : ℕ) :
    Admitted code Ok w.world (w.turns i n).world := by
  induction n generalizing w with
  | zero => exact .start
  | succ n ih => exact (turn_admitted code Ok w i).trans code (ih (w.turn i))

theorem move_admitted (w : Duo Q σ L ε α) (m : Move Q)
    (hok : ∀ i q, m = .begins i q → ∀ d, Ok q d) :
    Admitted code Ok w.world (move code w m).world := by
  cases m with
  | turns i n => exact turns_admitted code Ok w i n
  | begins i q =>
      rcases begins_step code w i q with hsame | hstep
      · rw [hsame]
        exact .start
      · refine .step .start ?_ hstep
        rintro _ _ ⟨rfl, rfl⟩
        exact hok i q rfl _

/-- A script whose requests are all admissible at any time. -/
theorem play_admitted (w : Duo Q σ L ε α) (script : List (Move Q))
    (hok : ∀ i q, .begins i q ∈ script → ∀ d, Ok q d) :
    Admitted code Ok w.world (play code w script).world := by
  induction script generalizing w with
  | nil => exact .start
  | cons m script ih =>
      have hmove : Admitted code Ok w.world (move code w m).world :=
        move_admitted code Ok w m fun i q hm => hok i q (List.mem_cons.2 (.inl hm.symm))
      exact hmove.trans code (ih (move code w m) fun i q hm => hok i q (List.mem_cons_of_mem _ hm))

section Checked

variable {Ok} {ok : Q → σ → Bool}

variable (ok) in
/-- Is every request of the script admissible when it begins? -/
def beginsOk (w : Duo Q σ L ε α) : List (Move Q) → Bool
  | [] => true
  | .begins i q :: script => ok q w.db && beginsOk (move code w (.begins i q)) script
  | .turns i n :: script => beginsOk (w.turns i n) script

theorem play_admitted_of_ok (hok : ∀ q d, ok q d = true → Ok q d) (w : Duo Q σ L ε α) (script : List (Move Q))
    (h : beginsOk code ok w script = true) : Admitted code Ok w.world (play code w script).world := by
  induction script generalizing w with
  | nil => exact .start
  | cons m script ih =>
      cases m with
      | turns i n => exact (turns_admitted code Ok w i n).trans code (ih (w.turns i n) h)
      | begins i q =>
          obtain ⟨hq, hrest⟩ := Bool.and_eq_true_iff.1 h
          refine Admitted.trans code ?_ (ih (move code w (.begins i q)) hrest)
          rcases begins_step code w i q with hsame | hstep
          · rw [hsame]
            exact .start
          · refine .step .start ?_ hstep
            rintro _ _ ⟨rfl, rfl⟩
            exact hok q w.db hq

end Checked

end Admitted

theorem play_reachable (w : Duo Q σ L ε α) (script : List (Move Q)) :
    Reachable code w.world (play code w script).world := by
  have hplayed : Admitted code (fun _ _ => True) w.world (play code w script).world :=
    play_admitted code _ w script fun _ _ _ _ => trivial
  exact hplayed.reachable code

/-! ## Scripts under supervision -/

section Supervised

variable {Ok : Q → σ → Prop} {Clear : σ → Q → Q → Prop} {ok : Q → σ → Bool} {clear : σ → Q → Q → Bool}

variable (clear) in
/-- Is what a client does clear for the other one? -/
def clearOf (w : Duo Q σ L ε α) (i : Bool) : Bool :=
  match w.tickets i, w.tickets !i with
  | some (q, _), some (q', _) => clear w.db q' q
  | _, _ => true

variable (clear) in
def turnsClear (w : Duo Q σ L ε α) (i : Bool) : ℕ → Bool
  | 0 => true
  | n + 1 => clearOf clear w i && turnsClear (w.turn i) i n

variable (ok clear) in
def supervisedOk (w : Duo Q σ L ε α) : List (Move Q) → Bool
  | [] => true
  | .begins i q :: script => ok q w.db && supervisedOk (move code w (.begins i q)) script
  | .turns i n :: script => turnsClear clear w i n && supervisedOk (w.turns i n) script

variable (hclear : ∀ d q' q, clear d q' q = true → Clear d q' q)

include hclear in
theorem turn_supervised (w : Duo Q σ L ε α) (i : Bool) (h : clearOf clear w i = true) :
    Supervised code Ok Clear w.world (w.turn i).world := by
  rcases turn_step code w i with hsame | ⟨lab, hstep, hbegins, hmine, -⟩
  · rw [hsame]
    exact .start
  · refine .step .start (fun j q hlab => (hbegins j q hlab).elim) (fun j q hlab k q' t hkj hk => ?_) hstep
    obtain rfl := hmine j q hlab
    obtain ⟨s, hs⟩ := hstep.publisher code hlab
    obtain ⟨mine, hmine', heq⟩ := Option.map_eq_some_iff.1 hs
    obtain ⟨other, hother, heq'⟩ := Option.map_eq_some_iff.1 hk
    obtain rfl : k = !j := Bool.eq_not.2 hkj
    cases heq
    cases heq'
    rw [clearOf, hmine', hother] at h
    exact hclear _ _ _ h

include hclear in
theorem turns_supervised (w : Duo Q σ L ε α) (i : Bool) (n : ℕ) (h : turnsClear clear w i n = true) :
    Supervised code Ok Clear w.world (w.turns i n).world := by
  induction n generalizing w with
  | zero => exact .start
  | succ n ih =>
      obtain ⟨hturn, hrest⟩ := Bool.and_eq_true_iff.1 h
      exact (turn_supervised code hclear w i hturn).trans code (ih (w.turn i) hrest)

include hclear in
theorem play_supervised (hok : ∀ q d, ok q d = true → Ok q d) (w : Duo Q σ L ε α) (script : List (Move Q))
    (h : supervisedOk code ok clear w script = true) :
    Supervised code Ok Clear w.world (play code w script).world := by
  induction script generalizing w with
  | nil => exact .start
  | cons m script ih =>
      cases m with
      | turns i n =>
          obtain ⟨hturns, hrest⟩ := Bool.and_eq_true_iff.1 h
          exact (turns_supervised code hclear w i n hturns).trans code (ih (w.turns i n) hrest)
      | begins i q =>
          obtain ⟨hq, hrest⟩ := Bool.and_eq_true_iff.1 h
          refine Supervised.trans code ?_ (ih (move code w (.begins i q)) hrest)
          rcases begins_step code w i q with hsame | hstep
          · rw [hsame]
            exact .start
          · refine .step .start ?_ (by simp [Label.publisher?]) hstep
            rintro _ _ ⟨rfl, rfl⟩
            exact hok q w.db hq

end Supervised

/-! ## Scripts whose requests commit under a condition -/

section Permitted

variable (ok : Q → List L → σ → Bool)

/-- Does the client meet the condition, if it is about to answer? -/
def mayAnswer (w : Duo Q σ L ε α) (i : Bool) : Bool :=
  match w.tickets i with
  | some (q, ⟨.ret _, held, _⟩) => ok q held w.db
  | _ => true

def turnsOk (w : Duo Q σ L ε α) (i : Bool) : ℕ → Bool
  | 0 => true
  | n + 1 => mayAnswer ok w i && turnsOk (w.turn i) i n

def playOk (w : Duo Q σ L ε α) : List (Move Q) → Bool
  | [] => true
  | .begins i q :: script => playOk (move code w (.begins i q)) script
  | .turns i n :: script => turnsOk ok w i n && playOk (w.turns i n) script

variable {ok} {Ok : Q → Set L → σ → Prop}

section Checked

variable (hok : ∀ q held d, ok q held d = true → Ok q {l | l ∈ held} d)

omit [DecidableEq L] in
include hok in
theorem mayAnswer_ok {w : Duo Q σ L ε α} {i : Bool} (hmay : mayAnswer ok w i = true) {q : Q} {a : α}
    {held : List L} {f : σ → σ} (hticket : w.tickets i = some (q, ⟨.ret a, held, f⟩)) {s : Session σ L ε α}
    (hs : w.world.sessions i = some (q, s)) : Ok q s.held w.db := by
  obtain rfl : s = ⟨.ret a, {l | l ∈ held}, f⟩ := by
    simpa [world, hticket, Ticket.session, eq_comm] using hs
  rw [mayAnswer, hticket] at hmay
  exact hok q held w.db hmay

include hok in
theorem turns_permitted (w : Duo Q σ L ε α) (i : Bool) (n : ℕ) (h : turnsOk ok w i n = true) :
    Permitted code Ok w.world (w.turns i n).world := by
  induction n generalizing w with
  | zero => exact .start
  | succ n ih =>
      obtain ⟨hmay, hrest⟩ := Bool.and_eq_true_iff.1 h
      refine Permitted.trans code ?_ (ih (w.turn i) hrest)
      rcases turn_step code w i with hsame | ⟨lab, hstep, -, -, hanswers⟩
      · rw [hsame]
        exact .start
      · refine .step .start (fun j q a s hlab hs => ?_) hstep
        obtain ⟨rfl, held, f, hticket⟩ := hanswers j q a hlab
        exact mayAnswer_ok hok hmay hticket hs

include hok in
theorem play_permitted (w : Duo Q σ L ε α) (script : List (Move Q)) (h : playOk code ok w script = true) :
    Permitted code Ok w.world (play code w script).world := by
  induction script generalizing w with
  | nil => exact .start
  | cons m script ih =>
      cases m with
      | begins i q =>
          refine Permitted.trans code ?_ (ih (move code w (.begins i q)) h)
          rcases begins_step code w i q with hsame | hstep
          · rw [hsame]
            exact .start
          · exact .step .start (by simp) hstep
      | turns i n =>
          obtain ⟨hturns, hrest⟩ := Bool.and_eq_true_iff.1 h
          exact (turns_permitted code hok w i n hturns).trans code (ih (w.turns i n) hrest)

end Checked

end Permitted

/-! ## One client -/

theorem turn_tickets (w : Duo Q σ L ε α) {i j : Bool} (hji : j ≠ i) : (w.turn i).tickets j = w.tickets j := by
  have hset : ∀ d t, (w.set d i t).tickets j = w.tickets j := fun d t => Function.update_of_ne hji _ _
  rw [turn]
  cases w.tickets i with
  | none => rfl
  | some t =>
      obtain ⟨q, prog, held, pending⟩ := t
      cases prog with
      | lock | tryLock =>
          dsimp only
          split
          · first | rfl | exact hset _ _
          · exact hset _ _
      | ret | fail | read | write | commit | outside => exact hset _ _

/-- Nobody but `i` has begun. -/
def Solo (w : Duo Q σ L ε α) (i : Bool) : Prop := ∀ j, j ≠ i → w.tickets j = none

variable {Clear : σ → Q → Q → Prop}

theorem turn_guarded {w : Duo Q σ L ε α} {i : Bool} (h : w.Solo i) :
    Guarded code Clear (fun _ _ _ => True) w.world (w.turn i).world ∧ (w.turn i).Solo i := by
  refine ⟨?_, fun j hji => (turn_tickets w hji).trans (h j hji)⟩
  rcases turn_step code w i with hsame | ⟨lab, hstep, -, hmine, -⟩
  · rw [hsame]
    exact .start
  · refine .step .start (fun j q hlab k q' t hkj hk => ?_) (fun _ _ _ _ _ _ => trivial) hstep
    obtain rfl := hmine j q hlab
    simp [world, h k hkj] at hk

theorem turns_guarded {i : Bool} (n : ℕ) {w : Duo Q σ L ε α} (h : w.Solo i) :
    Guarded code Clear (fun _ _ _ => True) w.world (w.turns i n).world ∧ (w.turns i n).Solo i := by
  induction n generalizing w with
  | zero => exact ⟨.start, h⟩
  | succ n ih =>
      obtain ⟨hturn, hsolo⟩ := turn_guarded code h
      obtain ⟨hrest, hsolo'⟩ := ih hsolo
      exact ⟨hturn.trans code hrest, hsolo'⟩

/-- A client that serves its requests alone is in nobody's way. -/
theorem play_guarded {i : Bool} (script : List (Move Q)) (hscript : ∀ m ∈ script, m.client = i)
    {w : Duo Q σ L ε α} (h : w.Solo i) :
    Guarded code Clear (fun _ _ _ => True) w.world (play code w script).world ∧
      (play code w script).Solo i := by
  induction script generalizing w with
  | nil => exact ⟨.start, h⟩
  | cons m script ih =>
      have hmove : Guarded code Clear (fun _ _ _ => True) w.world (move code w m).world ∧
          (move code w m).Solo i := by
        have hclient : m.client = i := hscript m List.mem_cons_self
        cases m with
        | turns j n =>
            obtain rfl : j = i := hclient
            exact turns_guarded code n h
        | begins j q =>
            obtain rfl : j = i := hclient
            refine ⟨?_, fun k hkj => ?_⟩
            · rcases begins_step code w j q with hsame | hstep
              · rw [hsame]
                exact .start
              · exact .step .start (by simp [Label.publisher?]) (fun _ _ _ _ _ _ => trivial) hstep
            · rw [move]
              split
              · exact (Function.update_of_ne hkj _ _).trans (h k hkj)
              · exact h k hkj
      obtain ⟨hrest, hsolo⟩ := ih (fun m' hm' => hscript m' (List.mem_cons_of_mem _ hm')) hmove.2
      exact ⟨hmove.1.trans code hrest, hsolo⟩

end Play

/-- Nobody has begun. -/
def idle (d : σ) : Duo Q σ L ε α := ⟨d, fun _ => none⟩

theorem world_idle (d : σ) : (idle d : Duo Q σ L ε α).world = ⟨d, fun _ => none⟩ := rfl

end Duo

end Transactions
